import Mathlib

/-!
# Tables of slots

A `SlotTable n κ ν` has `n` slots, each free or holding a value under a key.  A key is
looked up in the first slot that holds it, and `put` overwrites one slot.

* `Packed`: the slots in use come first;
* `Distinct`: no two slots hold the same key, so a lookup sees all there is;
* `Tracks`: every slot holds the value last written under its key;
* `InOrder`: slot `i` holds the `i`-th key that was ever written.

Each is kept by a `put` into a slot chosen with care; which slot that is, is up to the
caller.
-/

namespace MOKernel

abbrev SlotTable (n : Nat) (κ ν : Type) := Fin n → Option (κ × ν)

/-- The value written last under a key. -/
def lastWrite {κ ν : Type} [DecidableEq κ] (history : List (κ × ν)) (key : κ) : Option ν :=
  (history.reverse.find? fun entry => entry.1 = key).map Prod.snd

/-- The keys written, in the order of their first write. -/
def keysWritten {κ ν : Type} [DecidableEq κ] (history : List (κ × ν)) : List κ :=
  (history.map Prod.fst).eraseDups

section History

variable {κ ν : Type} [DecidableEq κ] {history : List (κ × ν)} {key other : κ} {value : ν}

@[simp] theorem lastWrite_append_self :
    lastWrite (history ++ [(key, value)]) key = some value := by
  simp [lastWrite]

theorem lastWrite_append_of_ne (differ : key ≠ other) :
    lastWrite (history ++ [(key, value)]) other = lastWrite history other := by
  simp [lastWrite, differ]

/-- An older write counts if the key is not written again. -/
theorem lastWrite_cons : lastWrite ((other, value) :: history) key =
    (lastWrite history key).or (if other = key then some value else none) := by
  rw [lastWrite, lastWrite, List.reverse_cons, List.find?_append]
  cases history.reverse.find? fun entry => entry.1 = key with
  | some entry => rfl
  | none =>
    by_cases same : other = key
    · simp [same]
    · simp [same]

theorem lastWrite_eq_none : lastWrite history key = none ↔ key ∉ keysWritten history := by
  simp only [lastWrite, keysWritten, Option.map_eq_none_iff, List.find?_eq_none,
    List.mem_reverse, decide_eq_true_eq, List.mem_eraseDups, List.mem_map, not_exists, not_and]

theorem mem_keysWritten_of_lastWrite (written : lastWrite history key = some value) :
    key ∈ keysWritten history := by
  by_contra unwritten
  rw [lastWrite_eq_none.mpr unwritten] at written
  cases written

theorem keysWritten_append_of_mem (member : key ∈ keysWritten history) :
    keysWritten (history ++ [(key, value)]) = keysWritten history := by
  have written : key ∈ history.map Prod.fst := List.mem_eraseDups.mp member
  rw [keysWritten, List.map_append, List.eraseDups_append]
  simp [keysWritten, List.removeAll, written]

theorem keysWritten_append_of_notMem (fresh : key ∉ keysWritten history) :
    keysWritten (history ++ [(key, value)]) = keysWritten history ++ [key] := by
  have unwritten : key ∉ history.map Prod.fst := fun written =>
    fresh (List.mem_eraseDups.mpr written)
  rw [keysWritten, List.map_append, List.eraseDups_append]
  simp [keysWritten, List.removeAll, List.eraseDups_cons, unwritten]

theorem mem_keysWritten_append :
    other ∈ keysWritten (history ++ [(key, value)]) ↔
      other ∈ keysWritten history ∨ other = key := by
  simp only [keysWritten, List.mem_eraseDups, List.map_append, List.mem_append, List.map_cons,
    List.map_nil, List.mem_singleton]

theorem keysWritten_nodup (history : List (κ × ν)) : (keysWritten history).Nodup := by
  induction history using List.reverseRecOn with
  | nil => exact List.nodup_nil
  | append_singleton history entry ih =>
    obtain ⟨key, value⟩ := entry
    by_cases member : key ∈ keysWritten history
    · rw [keysWritten_append_of_mem member]
      exact ih
    · rw [keysWritten_append_of_notMem member]
      exact List.nodup_append_comm.mp (List.nodup_cons.mpr ⟨member, ih⟩)

end History

namespace SlotTable

variable {n : Nat} {κ ν : Type}

section Operations

/-- Slot `i` is in use under this key. -/
def Holds (table : SlotTable n κ ν) (i : Fin n) (key : κ) : Prop :=
  ∃ value, table i = some (key, value)

def put (table : SlotTable n κ ν) (i : Fin n) (key : κ) (value : ν) : SlotTable n κ ν :=
  Function.update table i (some (key, value))

/-- The first slot that holds a key. -/
def slotOf [DecidableEq κ] (table : SlotTable n κ ν) (key : κ) : Option (Fin n) :=
  Fin.find? fun i => (table i).any fun entry => entry.1 = key

def get [DecidableEq κ] (table : SlotTable n κ ν) (key : κ) : Option ν :=
  (table.slotOf key).bind fun i => (table i).map Prod.snd

end Operations

variable {table : SlotTable n κ ν} {i j : Fin n} {key other : κ} {value : ν}

theorem Holds.isSome (holds : table.Holds i key) : (table i).isSome := by
  obtain ⟨value, entry⟩ := holds
  rw [entry]
  rfl

theorem Holds.key_eq (first : table.Holds i key) (second : table.Holds i other) :
    key = other := by
  obtain ⟨v, entry⟩ := first
  obtain ⟨w, same⟩ := second
  rw [entry] at same
  injection same with pair
  exact congrArg Prod.fst pair

@[simp] theorem put_self : table.put i key value i = some (key, value) := by
  simp [put]

@[simp] theorem put_of_ne (differ : j ≠ i) : table.put i key value j = table j := by
  simp [put, differ]

theorem holds_put : (table.put i key value).Holds j other ↔
    (j = i ∧ other = key) ∨ (j ≠ i ∧ table.Holds j other) := by
  by_cases same : j = i
  · subst same
    simp [Holds, eq_comm]
  · simp [Holds, same]

/-! ## Lookup -/

section Lookup

variable [DecidableEq κ]

theorem slotOf_eq_some :
    table.slotOf key = some i ↔ table.Holds i key ∧ ∀ j < i, ¬ table.Holds j key := by
  have any (j : Fin n) : ((table j).any fun entry => entry.1 = key) = true ↔
      table.Holds j key := by
    rcases found : table j with _ | ⟨k, v⟩
    · simp [Holds, found]
    · simp [Holds, found]
  rw [slotOf, Fin.find?_eq_some_iff]
  simp only [any, ← Bool.not_eq_true]

theorem slotOf_eq_none : table.slotOf key = none ↔ ∀ i, ¬ table.Holds i key := by
  constructor
  · intro missing i holds
    obtain ⟨j, found⟩ : ∃ j, table.slotOf key = some j := by
      rw [← Option.isSome_iff_exists, slotOf, Fin.isSome_find?_iff]
      obtain ⟨value, entry⟩ := holds
      exact ⟨i, by simp [entry]⟩
    rw [missing] at found
    cases found
  · intro missing
    rcases found : table.slotOf key with _ | i
    · rfl
    · exact absurd (slotOf_eq_some.mp found).1 (missing i)

theorem get_eq_none : table.get key = none ↔ ∀ i, ¬ table.Holds i key := by
  rw [← slotOf_eq_none, get]
  rcases found : table.slotOf key with _ | i
  · simp
  · obtain ⟨⟨value, entry⟩, _⟩ := slotOf_eq_some.mp found
    simp [entry]

theorem exists_of_get (found : table.get key = some value) :
    ∃ i, table i = some (key, value) := by
  rw [get, Option.bind_eq_some_iff] at found
  obtain ⟨i, slot, content⟩ := found
  obtain ⟨⟨v, entry⟩, _⟩ := slotOf_eq_some.mp slot
  rw [entry] at content
  injection content with same
  exact ⟨i, by rw [entry, ← same]⟩

theorem get_eq_some_of_alone (alone : ∀ i j, table.Holds i key → table.Holds j key → i = j) :
    table.get key = some value ↔ ∃ i, table i = some (key, value) := by
  refine ⟨exists_of_get, ?_⟩
  intro present
  obtain ⟨i, entry⟩ := present
  have slot : table.slotOf key = some i :=
    slotOf_eq_some.mpr ⟨⟨value, entry⟩, fun j lt holds =>
      absurd (alone j i holds ⟨value, entry⟩) (ne_of_lt lt)⟩
  rw [get, slot, Option.bind_some, entry, Option.map_some]

/-- A value put before every other slot of its key is found. -/
theorem get_put_self (first : ∀ j < i, ¬ table.Holds j key) :
    (table.put i key value).get key = some value := by
  have slot : (table.put i key value).slotOf key = some i :=
    slotOf_eq_some.mpr ⟨⟨value, put_self⟩, fun j lt holds => by
      rcases holds_put.mp holds with ⟨same, _⟩ | ⟨_, before⟩
      · exact absurd same (ne_of_lt lt)
      · exact first j lt before⟩
  rw [get, slot, Option.bind_some, put_self, Option.map_some]

end Lookup

/-! ## Slots in use come first -/

def Packed (table : SlotTable n κ ν) : Prop := ∀ i j, i ≤ j → (table j).isSome → (table i).isSome

theorem Packed.put (packed : table.Packed) (before : ∀ j < i, (table j).isSome) :
    (table.put i key value).Packed := by
  intro a b le used
  by_cases here : a = i
  · simp [here]
  · rw [put_of_ne here]
    by_cases there : b = i
    · exact before a (lt_of_le_of_ne (there ▸ le) here)
    · rw [put_of_ne there] at used
      exact packed a b le used

/-! ## No key twice -/

def Distinct (table : SlotTable n κ ν) : Prop :=
  ∀ i j key, table.Holds i key → table.Holds j key → i = j

/-- A key may be put into its own slot, or anywhere if it has none. -/
theorem Distinct.put (distinct : table.Distinct) (alone : ∀ j, table.Holds j key → j = i) :
    (table.put i key value).Distinct := by
  intro a b k first second
  rcases holds_put.mp first with ⟨atA, keyA⟩ | ⟨notA, first⟩
  · rcases holds_put.mp second with ⟨atB, _⟩ | ⟨_, second⟩
    · rw [atA, atB]
    · rw [atA]
      exact (alone b (keyA ▸ second)).symm
  · rcases holds_put.mp second with ⟨atB, keyB⟩ | ⟨_, second⟩
    · rw [atB]
      exact alone a (keyB ▸ first)
    · exact distinct a b k first second

theorem Distinct.get_eq_some [DecidableEq κ] (distinct : table.Distinct) :
    table.get key = some value ↔ ∃ i, table i = some (key, value) :=
  get_eq_some_of_alone fun i j first second => distinct i j key first second

/-- A full table without repetition holds at least as many keys as it has slots. -/
theorem Distinct.le_card (distinct : table.Distinct) {keys : Finset κ}
    (full : ∀ i, ∃ key ∈ keys, table.Holds i key) : n ≤ keys.card := by
  choose f member holds using full
  have injective : Function.Injective f := fun a b same =>
    distinct a b (f a) (holds a) (same ▸ holds b)
  simpa using Finset.card_le_card_of_injOn f (s := Finset.univ) (t := keys)
    (fun i _ => member i) injective.injOn

/-! ## One key and the slots before it -/

/-- The key is held by one slot at most, and no slot before that one is free. -/
def Settled (table : SlotTable n κ ν) (key : κ) : Prop :=
  ∀ i, table.Holds i key → (∀ j, table.Holds j key → j = i) ∧ ∀ j < i, (table j).isSome

theorem Settled.of_not_holds (missing : ∀ i, ¬ table.Holds i key) : table.Settled key :=
  fun i holds => absurd holds (missing i)

theorem Distinct.settled (distinct : table.Distinct) (packed : table.Packed) (key : κ) :
    table.Settled key :=
  fun i holds => ⟨fun j other => distinct j i key other holds,
    fun j lt => packed j i (le_of_lt lt) holds.isSome⟩

/-- A slot `put` may choose: all before it are used for other keys, and it is free, or has
the key, or no slot is or has. -/
structure Chosen (table : SlotTable n κ ν) (i : Fin n) (key : κ) : Prop where
  before : ∀ j < i, (table j).isSome ∧ ¬ table.Holds j key
  here : table i = none ∨ table.Holds i key ∨ ∀ j, (table j).isSome ∧ ¬ table.Holds j key

/-- A settled key has no slot but the chosen one. -/
theorem Settled.chosen (settled : table.Settled key) (chosen : table.Chosen i key)
    (holds : table.Holds j key) : j = i := by
  by_contra differ
  rcases lt_or_gt_of_ne differ with lt | gt
  · exact (chosen.before j lt).2 holds
  · rcases chosen.here with free | own | full
    · have used := (settled j holds).2 i gt
      rw [free] at used
      cases used
    · exact differ ((settled i own).1 j holds)
    · exact (full j).2 holds

theorem Settled.put (settled : table.Settled key) (chosen : table.Chosen i other) :
    (table.put i other value).Settled key := by
  intro a holds
  have used {j : Fin n} (some : (table j).isSome) : (table.put i other value j).isSome := by
    by_cases here : j = i
    · simp [here]
    · rwa [put_of_ne here]
  rcases holds_put.mp holds with ⟨rfl, rfl⟩ | ⟨elsewhere, held⟩
  · refine ⟨fun j again => ?_, fun j lt => used (chosen.before j lt).1⟩
    rcases holds_put.mp again with ⟨same, _⟩ | ⟨_, old⟩
    · exact same
    · exact settled.chosen chosen old
  · obtain ⟨alone, before⟩ := settled a held
    refine ⟨fun j again => ?_, fun j lt => used (before j lt)⟩
    rcases holds_put.mp again with ⟨_, rfl⟩ | ⟨_, old⟩
    · exact absurd (settled.chosen chosen held) elsewhere
    · exact alone j old

theorem Settled.get_eq_some [DecidableEq κ] (settled : table.Settled key) :
    table.get key = some value ↔ ∃ i, table i = some (key, value) :=
  get_eq_some_of_alone fun i j first second => (settled j second).1 i first

/-- Another key takes the slot of this one. -/
theorem Settled.get_put_of_holds [DecidableEq κ] (settled : table.Settled key)
    (differ : other ≠ key) (held : table.Holds i key) :
    (table.put i other value).get key = none := by
  rw [get_eq_none]
  intro j holds
  rcases holds_put.mp holds with ⟨_, same⟩ | ⟨elsewhere, still⟩
  · exact differ same.symm
  · exact elsewhere ((settled i held).1 j still)

/-- Another key takes another slot. -/
theorem Settled.get_put_of_not_holds [DecidableEq κ] (settled : table.Settled key)
    (chosen : table.Chosen i other) (differ : other ≠ key) (spared : ¬ table.Holds i key) :
    (table.put i other value).get key = table.get key := by
  ext v
  rw [(settled.put chosen).get_eq_some, settled.get_eq_some]
  refine exists_congr fun j => ?_
  by_cases here : j = i
  · rw [here, put_self]
    constructor
    · intro entry
      injection entry with pair
      exact absurd (congrArg Prod.fst pair) differ
    · intro entry
      exact absurd ⟨v, entry⟩ spared
  · rw [put_of_ne here]

/-! ## Against the history of writes -/

section History

variable [DecidableEq κ] {history : List (κ × ν)}

/-- Every slot holds the value last written under its key. -/
def Tracks (table : SlotTable n κ ν) (history : List (κ × ν)) : Prop :=
  ∀ i key value, table i = some (key, value) → lastWrite history key = some value

theorem Tracks.put (tracks : table.Tracks history) (alone : ∀ j, table.Holds j key → j = i) :
    (table.put i key value).Tracks (history ++ [(key, value)]) := by
  intro a k v entry
  by_cases here : a = i
  · rw [here, put_self] at entry
    cases entry
    exact lastWrite_append_self
  · rw [put_of_ne here] at entry
    have differ : key ≠ k := by
      intro same
      exact here (alone a ⟨v, by rw [entry, same]⟩)
    rw [lastWrite_append_of_ne differ]
    exact tracks a k v entry

/-- A write that finds no room, under a key that is not held. -/
theorem Tracks.skip (tracks : table.Tracks history) (missing : ∀ i, ¬ table.Holds i key) :
    table.Tracks (history ++ [(key, value)]) := by
  intro a k v entry
  have differ : key ≠ k := fun same => missing a ⟨v, by rw [entry, same]⟩
  rw [lastWrite_append_of_ne differ]
  exact tracks a k v entry

theorem Tracks.get (tracks : table.Tracks history) (found : table.get key = some value) :
    lastWrite history key = some value := by
  obtain ⟨i, entry⟩ := exists_of_get found
  exact tracks i key value entry

theorem Tracks.mem_keysWritten (tracks : table.Tracks history) (holds : table.Holds i key) :
    key ∈ keysWritten history := by
  obtain ⟨value, entry⟩ := holds
  exact mem_keysWritten_of_lastWrite (tracks i key value entry)

/-- Slot `i` holds the `i`-th key that was written. -/
def InOrder (table : SlotTable n κ ν) (history : List (κ × ν)) : Prop :=
  ∀ i : Fin n, (table i).map Prod.fst = (keysWritten history)[i.val]?

theorem InOrder.holds_iff (inOrder : table.InOrder history) :
    table.Holds i key ↔ (keysWritten history)[i.val]? = some key := by
  rw [← inOrder i, Option.map_eq_some_iff]
  constructor
  · intro holds
    obtain ⟨value, entry⟩ := holds
    exact ⟨(key, value), entry, rfl⟩
  · intro present
    obtain ⟨⟨k, value⟩, entry, same⟩ := present
    exact ⟨value, by rw [entry, ← same]⟩

theorem InOrder.distinct (inOrder : table.InOrder history) : table.Distinct := by
  intro i j key first second
  have at_i := inOrder.holds_iff.mp first
  have at_j := inOrder.holds_iff.mp second
  obtain ⟨lt, _⟩ := List.getElem?_eq_some_iff.mp at_i
  exact Fin.ext ((List.getElem?_inj lt (keysWritten_nodup history)).mp (at_i.trans at_j.symm))

/-- The keys of a table are the first `n` written. -/
theorem InOrder.exists_holds_iff (inOrder : table.InOrder history) :
    (∃ i, table.Holds i key) ↔ key ∈ (keysWritten history).take n := by
  simp only [inOrder.holds_iff, List.mem_iff_getElem?]
  constructor
  · intro present
    obtain ⟨i, at_i⟩ := present
    exact ⟨i, by rw [List.getElem?_take_of_lt i.isLt, at_i]⟩
  · intro present
    obtain ⟨i, at_i⟩ := present
    obtain ⟨lt, _⟩ := List.getElem?_eq_some_iff.mp at_i
    have small : i < n := lt_of_lt_of_le lt (List.length_take_le _ _)
    exact ⟨⟨i, small⟩, by rw [← at_i, List.getElem?_take_of_lt small]⟩

theorem InOrder.free_iff (inOrder : table.InOrder history) :
    table i = none ↔ (keysWritten history).length ≤ i.val := by
  rw [← Option.map_eq_none_iff (f := Prod.fst), inOrder i,
    List.getElem?_eq_none_iff]

/-- Overwriting the slot of a key. -/
theorem InOrder.put_own (inOrder : table.InOrder history) (holds : table.Holds i key) :
    (table.put i key value).InOrder (history ++ [(key, value)]) := by
  have member : key ∈ keysWritten history :=
    List.mem_of_getElem? (inOrder.holds_iff.mp holds)
  intro j
  rw [keysWritten_append_of_mem member, ← inOrder j]
  by_cases here : j = i
  · obtain ⟨old, entry⟩ := holds
    rw [here, put_self, entry]
    rfl
  · rw [put_of_ne here]

/-- A new key in the first free slot. -/
theorem InOrder.put_fresh (inOrder : table.InOrder history)
    (missing : ∀ j, ¬ table.Holds j key) (free : table i = none)
    (first : ∀ j < i, table j ≠ none) :
    (table.put i key value).InOrder (history ++ [(key, value)]) := by
  have le : (keysWritten history).length ≤ i.val := inOrder.free_iff.mp free
  have fresh : key ∉ keysWritten history := by
    intro member
    obtain ⟨k, at_k⟩ := List.mem_iff_getElem?.mp member
    obtain ⟨lt, _⟩ := List.getElem?_eq_some_iff.mp at_k
    exact missing ⟨k, by omega⟩ (inOrder.holds_iff.mpr at_k)
  have ge : i.val ≤ (keysWritten history).length := by
    by_contra lt
    have below : (⟨(keysWritten history).length, by omega⟩ : Fin n) < i := by
      simp only [Fin.lt_def]
      omega
    exact first _ below (inOrder.free_iff.mpr le_rfl)
  intro j
  rw [keysWritten_append_of_notMem fresh]
  rcases lt_trichotomy j i with lt | same | gt
  · rw [put_of_ne (ne_of_lt lt), inOrder j, List.getElem?_append_left]
    simp only [Fin.lt_def] at lt
    omega
  · rw [same, put_self, show i.val = (keysWritten history).length by omega]
    simp
  · rw [put_of_ne (ne_of_gt gt), inOrder j]
    simp only [Fin.lt_def] at gt
    rw [List.getElem?_eq_none (by omega), List.getElem?_eq_none (by simp; omega)]

/-- A key that finds no room changes nothing. -/
theorem InOrder.skip (inOrder : table.InOrder history) (full : ∀ i, table i ≠ none) :
    table.InOrder (history ++ [(key, value)]) := by
  intro j
  have lt : j.val < (keysWritten history).length := by
    by_contra ge
    exact full j (inOrder.free_iff.mpr (by omega))
  rw [inOrder j]
  by_cases member : key ∈ keysWritten history
  · rw [keysWritten_append_of_mem member]
  · rw [keysWritten_append_of_notMem member, List.getElem?_append_left lt]

end History

end SlotTable

end MOKernel
