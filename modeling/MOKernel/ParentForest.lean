import Mathlib

/-!
# Forests given by parent pointers

A forest over an arbitrary type `α` is a partial function `parent : α → Option α`.
`climb parent k x` follows it `k` times; `Rooted parent root x` says that some
climb from `x` arrives at `root`.

* `Rooted.frame` transports rootedness to another parent function that agrees
  on an upward closed set;
* `climb_lt_card` is the pigeonhole bound: over a finite type a climb that
  arrives at a parentless root has visited pairwise different nodes, so it is
  shorter than the type is large;
* `LabelPath.injective`: where siblings have different labels, the labels on the way
  down from the root determine the node;
* `LabelPath.unique` and `LabelPath.frame`: the node determines the labels, and only
  the nodes above it matter.
-/

namespace MOKernel

variable {α : Type}

/-- Follow the parent pointers `k` times. -/
def climb (parent : α → Option α) : Nat → α → Option α
  | 0, x => some x
  | k + 1, x => (parent x).bind (climb parent k)

/-- Some chain of parent pointers leads from the node to `root`. -/
inductive Rooted (parent : α → Option α) (root : α) : α → Prop
  | root : Rooted parent root root
  | up {x y : α} : parent x = some y → Rooted parent root y → Rooted parent root x

@[simp] theorem climb_zero (parent : α → Option α) (x : α) : climb parent 0 x = some x := rfl

theorem climb_add (parent : α → Option α) (i j : Nat) (x : α) :
    climb parent (i + j) x = (climb parent i x).bind (climb parent j) := by
  induction i generalizing x with
  | zero => simp
  | succ i ih =>
    rw [Nat.succ_add]
    cases above : parent x with
    | none => simp [climb, above]
    | some y => simp [climb, above, ih]

theorem Rooted.exists_climb {parent : α → Option α} {root x : α}
    (rooted : Rooted parent root x) : ∃ k, climb parent k x = some root := by
  induction rooted with
  | root => exact ⟨0, rfl⟩
  | up above _ ih =>
    obtain ⟨k, arrives⟩ := ih
    exact ⟨k + 1, by simp [climb, above, arrives]⟩

/-- Rootedness only depends on the parent pointers of an upward closed set. -/
theorem Rooted.frame {parent parent' : α → Option α} {root x : α} {S : α → Prop}
    (rooted : Rooted parent root x) (inside : S x)
    (closed : ∀ x y, S x → parent x = some y → S y)
    (agree : ∀ x, S x → parent' x = parent x) : Rooted parent' root x := by
  induction rooted with
  | root => exact .root
  | @up x y above _ ih =>
    exact .up ((agree x inside).trans above) (ih (closed x y inside above))

/-- No climb leaves a parentless node. -/
theorem climb_eq_none_of_parentless {parent : α → Option α} {root : α}
    (parentless : parent root = none) {k : Nat} (moves : 0 < k) :
    climb parent k root = none := by
  obtain ⟨j, rfl⟩ := Nat.exists_eq_succ_of_ne_zero moves.ne'
  simp [climb, parentless]

/-- Every shorter climb on the way to `root` arrives somewhere, from where the
rest of the climb arrives at `root`. -/
theorem exists_climb_of_le {parent : α → Option α} {root x : α} {k i : Nat}
    (arrives : climb parent k x = some root) (le : i ≤ k) :
    ∃ y, climb parent i x = some y ∧ climb parent (k - i) y = some root := by
  obtain ⟨j, rfl⟩ := Nat.exists_eq_add_of_le le
  rw [climb_add] at arrives
  obtain ⟨y, middle, rest⟩ := Option.bind_eq_some_iff.mp arrives
  exact ⟨y, middle, by rwa [Nat.add_sub_cancel_left]⟩

/-- A climb to a parentless root never visits a node twice. -/
theorem climb_injOn {parent : α → Option α} {root x : α} {k i j : Nat}
    (parentless : parent root = none) (arrives : climb parent k x = some root)
    (lt : i < j) (le : j ≤ k) : climb parent i x ≠ climb parent j x := by
  intro same
  obtain ⟨y, atI, restI⟩ := exists_climb_of_le arrives (lt.le.trans le)
  obtain ⟨z, atJ, restJ⟩ := exists_climb_of_le arrives le
  obtain rfl : y = z := Option.some.inj (atI.symm.trans (same.trans atJ))
  have split : k - i = (k - j) + (j - i) := by omega
  rw [split, climb_add, restJ, Option.bind_some,
    climb_eq_none_of_parentless parentless (by omega)] at restI
  cases restI

/-- **Pigeonhole.**  A climb to a parentless root is shorter than the type. -/
theorem climb_lt_card [Fintype α] {parent : α → Option α} {root x : α} {k : Nat}
    (parentless : parent root = none) (arrives : climb parent k x = some root) :
    k < Fintype.card α := by
  let visited : Fin (k + 1) → α := fun i =>
    (exists_climb_of_le arrives (Nat.lt_succ_iff.mp i.isLt)).choose
  have visited_spec (i : Fin (k + 1)) : climb parent i x = some (visited i) :=
    (exists_climb_of_le arrives (Nat.lt_succ_iff.mp i.isLt)).choose_spec.1
  have injective : Function.Injective visited := by
    intro i j same
    have meets : climb parent i x = climb parent j x := by
      rw [visited_spec, visited_spec, same]
    rcases lt_trichotomy i j with lt | eq | lt
    · exact (climb_injOn parentless arrives lt (Nat.lt_succ_iff.mp j.isLt) meets).elim
    · exact eq
    · exact (climb_injOn parentless arrives lt (Nat.lt_succ_iff.mp i.isLt) meets.symm).elim
  have card := Fintype.card_le_of_injective visited injective
  rw [Fintype.card_fin] at card
  omega

/-! ## Labelled forests -/

section Labels

variable {β : Type} {parent : α → Option α} {label : α → β} {root : α}

/-- The labels met on the way from the root down to a node. -/
inductive LabelPath (parent : α → Option α) (label : α → β) (root : α) : α → List β → Prop
  | root : LabelPath parent label root root []
  | down {x y : α} {labels : List β} :
    parent x = some y → LabelPath parent label root y labels →
    LabelPath parent label root x (labels ++ [label x])

/-- Where siblings of an upward closed set have different labels, its nodes have
different paths. -/
theorem LabelPath.injective {S : α → Prop} (closed : ∀ x y, S x → parent x = some y → S y)
    (siblings : ∀ x y, S x → S y → parent x = parent y → label x = label y → x = y)
    {x y : α} {labels : List β} (left : LabelPath parent label root x labels)
    (right : LabelPath parent label root y labels) (inX : S x) (inY : S y) : x = y := by
  induction left generalizing y with
  | root =>
    generalize empty : ([] : List β) = labels at right
    cases right with
    | root => rfl
    | down _ _ => simp at empty
  | @down x p labels above path ih =>
    generalize whole : labels ++ [label x] = labels' at right
    cases right with
    | root => simp at whole
    | @down _ p' labels' above' path' =>
      obtain ⟨rfl, last⟩ := List.append_inj' whole rfl
      obtain rfl : p = p' := ih path' (closed x p inX above) (closed y p' inY above')
      exact siblings x y inX inY (above.trans above'.symm) (List.singleton_injective last)

/-- Every rooted node has a path. -/
theorem Rooted.exists_labelPath {x : α} (rooted : Rooted parent root x) :
    ∃ labels, LabelPath parent label root x labels := by
  induction rooted with
  | root => exact ⟨[], .root⟩
  | up above _ ih =>
    obtain ⟨labels, path⟩ := ih
    exact ⟨_, .down above path⟩

/-- Below a parentless root a node has one path. -/
theorem LabelPath.unique (parentless : parent root = none) {x : α} {labels labels' : List β}
    (left : LabelPath parent label root x labels)
    (right : LabelPath parent label root x labels') : labels = labels' := by
  induction left generalizing labels' with
  | root =>
    cases right with
    | root => rfl
    | down above _ => rw [parentless] at above; cases above
  | @down x y labels above path ih =>
    cases right with
    | root => rw [parentless] at above; cases above
    | down above' path' =>
      obtain rfl := Option.some.inj (above.symm.trans above')
      rw [ih path']

/-- Only the root has the empty path. -/
theorem labelPath_nil_iff {x : α} : LabelPath parent label root x [] ↔ x = root := by
  constructor
  · intro path
    generalize empty : ([] : List β) = labels at path
    cases path with
    | root => rfl
    | down _ _ => simp at empty
  · rintro rfl
    exact .root

/-- The last label of a path is the node's own, the others are its parent's path. -/
theorem labelPath_concat_iff {x : α} {labels : List β} {last : β} :
    LabelPath parent label root x (labels ++ [last]) ↔
      ∃ y, parent x = some y ∧ LabelPath parent label root y labels ∧ label x = last := by
  constructor
  · intro path
    generalize whole : labels ++ [last] = labels' at path
    cases path with
    | root => simp at whole
    | @down _ y labels' above path =>
      obtain ⟨rfl, same⟩ := List.append_inj' whole rfl
      exact ⟨y, above, path, (List.singleton_injective same).symm⟩
  · rintro ⟨y, above, path, rfl⟩
    exact .down above path

/-- A path only depends on the parents and labels of an upward closed set. -/
theorem LabelPath.frame {parent' : α → Option α} {label' : α → β} {S : α → Prop} {x : α}
    {labels : List β} (path : LabelPath parent label root x labels) (inside : S x)
    (closed : ∀ x y, S x → parent x = some y → S y)
    (agree : ∀ x, S x → parent' x = parent x ∧ label' x = label x) :
    LabelPath parent' label' root x labels := by
  induction path with
  | root => exact .root
  | @down x y labels above _ ih =>
    rw [← (agree x inside).2]
    exact .down ((agree x inside).1.trans above) (ih (closed x y inside above))

end Labels

end MOKernel
