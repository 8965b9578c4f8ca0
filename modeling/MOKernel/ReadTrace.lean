import Mathlib

/-!
# Programs that read memory

`Load ι β α` is a program that reads cells of a memory `ι → β` one at a time and
returns an `α`; which cell it reads next may depend on what it has read.  `run`
is its result on a memory and `reads` the list of cells it reads there, in order.

* `run_bind`, `reads_bind`: both compose;
* `run_congr`: the result depends on the cells that are read and on no others;
* `ReadsIn`: every cell read lies in a given set, with one rule per program former.
-/

namespace MOKernel

/-- A program that reads cells `ι` holding values `β` and returns an `α`. -/
inductive Load (ι β α : Type) : Type
  | done (a : α) : Load ι β α
  | read (i : ι) (k : β → Load ι β α) : Load ι β α

namespace Load

variable {ι β α γ : Type}

def bind : Load ι β α → (α → Load ι β γ) → Load ι β γ
  | .done a, f => f a
  | .read i k, f => .read i fun b => (k b).bind f

instance : Monad (Load ι β) where
  pure := .done
  bind := bind

/-- Read one cell. -/
def cell (i : ι) : Load ι β β := .read i .done

/-- The result on a memory. -/
def run (mem : ι → β) : Load ι β α → α
  | .done a => a
  | .read i k => (k (mem i)).run mem

/-- The cells read on a memory, in order. -/
def reads (mem : ι → β) : Load ι β α → List ι
  | .done _ => []
  | .read i k => i :: (k (mem i)).reads mem

section Compose

variable (mem : ι → β)

@[simp] theorem run_pure (a : α) : (pure a : Load ι β α).run mem = a := rfl

@[simp] theorem reads_pure (a : α) : (pure a : Load ι β α).reads mem = [] := rfl

@[simp] theorem run_cell (i : ι) : (cell i : Load ι β β).run mem = mem i := rfl

@[simp] theorem reads_cell (i : ι) : (cell i : Load ι β β).reads mem = [i] := rfl

@[simp] theorem run_bind (p : Load ι β α) (f : α → Load ι β γ) :
    (p >>= f).run mem = (f (p.run mem)).run mem := by
  induction p with
  | done a => rfl
  | read i k ih => exact ih (mem i)

@[simp] theorem reads_bind (p : Load ι β α) (f : α → Load ι β γ) :
    (p >>= f).reads mem = p.reads mem ++ (f (p.run mem)).reads mem := by
  induction p with
  | done a => rfl
  | read i k ih => exact congrArg (i :: ·) (ih (mem i))

@[simp] theorem run_ite (c : Prop) [Decidable c] (p q : Load ι β α) :
    (if c then p else q).run mem = if c then p.run mem else q.run mem := by
  split <;> rfl

@[simp] theorem reads_ite (c : Prop) [Decidable c] (p q : Load ι β α) :
    (if c then p else q).reads mem = if c then p.reads mem else q.reads mem := by
  split <;> rfl

end Compose

/-- The result and the cells read depend only on the cells that are read. -/
theorem run_congr {mem mem' : ι → β} {p : Load ι β α}
    (agree : ∀ i ∈ p.reads mem, mem' i = mem i) :
    p.run mem' = p.run mem ∧ p.reads mem' = p.reads mem := by
  induction p with
  | done a => exact ⟨rfl, rfl⟩
  | read i k ih =>
    have head : mem' i = mem i := agree i List.mem_cons_self
    have tail := ih (mem i) fun j member => agree j (List.mem_cons_of_mem i member)
    simp only [run, reads, head]
    exact ⟨tail.1, congrArg (i :: ·) tail.2⟩

/-! ## Runs of consecutive cells -/

/-- Read `n` consecutive cells from `start` on. -/
def block (start : Nat) : Nat → Load Nat β (List β)
  | 0 => pure []
  | n + 1 => do
    let b ← cell start
    let bs ← block (start + 1) n
    pure (b :: bs)

@[simp] theorem run_block (mem : Nat → β) (start n : Nat) :
    (block start n).run mem = (List.range n).map fun i => mem (start + i) := by
  induction n generalizing start with
  | zero => rfl
  | succ n ih =>
    simp only [block, run_bind, run_cell, ih, run_pure, List.range_succ_eq_map, List.map_cons,
      List.map_map, Nat.add_zero]
    exact congrArg (mem start :: ·) (List.map_congr_left fun i _ => by
      simp [Nat.add_comm, Nat.add_left_comm])

@[simp] theorem reads_block (mem : Nat → β) (start n : Nat) :
    (block start n).reads mem = (List.range n).map (start + ·) := by
  induction n generalizing start with
  | zero => rfl
  | succ n ih =>
    simp only [block, reads_bind, reads_cell, ih, reads_pure, List.append_nil,
      List.singleton_append, List.range_succ_eq_map, List.map_cons, List.map_map, Nat.add_zero]
    exact congrArg (start :: ·) (List.map_congr_left fun i _ => by
      simp [Nat.add_comm, Nat.add_left_comm])

/-! ## Footprints -/

/-- Every cell read on `mem` lies in `s`. -/
def ReadsIn (p : Load ι β α) (mem : ι → β) (s : Set ι) : Prop := ∀ i ∈ p.reads mem, i ∈ s

section Footprint

variable {mem : ι → β} {s t : Set ι}

theorem ReadsIn.mono {p : Load ι β α} (inside : p.ReadsIn mem s) (sub : s ⊆ t) :
    p.ReadsIn mem t :=
  fun i member => sub (inside i member)

@[simp] theorem readsIn_pure (a : α) : (pure a : Load ι β α).ReadsIn mem s := by
  simp [ReadsIn]

@[simp] theorem readsIn_cell {i : ι} : (cell i : Load ι β β).ReadsIn mem s ↔ i ∈ s := by
  simp [ReadsIn]

@[simp] theorem readsIn_bind {p : Load ι β α} {f : α → Load ι β γ} :
    (p >>= f).ReadsIn mem s ↔ p.ReadsIn mem s ∧ (f (p.run mem)).ReadsIn mem s := by
  simp only [ReadsIn, reads_bind, List.mem_append, or_imp, forall_and]

theorem readsIn_ite {c : Prop} [Decidable c] {p q : Load ι β α}
    (pos : c → p.ReadsIn mem s) (neg : ¬ c → q.ReadsIn mem s) :
    (if c then p else q).ReadsIn mem s := by
  split
  · exact pos ‹_›
  · exact neg ‹_›

theorem readsIn_block {mem : Nat → β} {s : Set Nat} {start n : Nat}
    (inside : ∀ i < n, start + i ∈ s) : (block start n : Load Nat β (List β)).ReadsIn mem s := by
  simpa [ReadsIn] using inside

end Footprint

end Load

end MOKernel
