import Mathlib

/-!
# C strings over byte lists

The kernel is freestanding and brings its own string routines.  A `const char *`
argument is a `CStr`: the bytes before the terminating NUL, none of which is
NUL.  Memory that may hold a string (a `char` array) is a byte list or vector,
and `cstr` reads the string at its start.

`ThreeWay` is what the sign of a comparison means: `threeWay_strcmp` orders the strings
and `threeWay_strncmp` their first characters.

`copyLoop` is the bounded copy that `fs_strncpy` and `fs_write_file` share: it
returns the stores the loop makes, in order, and the final loop counter.
`applyStores` performs them on the destination array.
-/

namespace MOKernel

/-- The bytes of an ASCII string literal. -/
def ascii (s : String) : List UInt8 := s.toList.map fun c => UInt8.ofNat c.toNat

/-- A NUL-terminated string: the bytes before the NUL. -/
@[ext]
structure CStr where
  chars : List UInt8
  nulFree : (0 : UInt8) ∉ chars
deriving DecidableEq

/-- The string stored at the start of `mem`: everything before the first NUL. -/
def cstr (mem : List UInt8) : List UInt8 := mem.takeWhile (· ≠ 0)

theorem cstr_nulFree (mem : List UInt8) : (0 : UInt8) ∉ cstr mem := by
  intro member
  simpa using List.mem_takeWhile_imp member

@[simp] theorem cstr_nil : cstr [] = [] := rfl

theorem cstr_eq_self {s : List UInt8} (nulFree : (0 : UInt8) ∉ s) : cstr s = s := by
  rw [cstr, List.takeWhile_eq_self_iff]
  intro c member
  simpa using fun zero : c = 0 => nulFree (zero ▸ member)

@[simp] theorem CStr.cstr_chars (s : CStr) : cstr s.chars = s.chars := cstr_eq_self s.nulFree

/-- The string cut off after `n` characters. -/
def CStr.take (s : CStr) (n : Nat) : CStr :=
  ⟨s.chars.take n, fun member => s.nulFree (List.mem_of_mem_take member)⟩

@[simp] theorem CStr.take_chars (s : CStr) (n : Nat) : (s.take n).chars = s.chars.take n := rfl

theorem CStr.take_of_length_le {s : CStr} {n : Nat} (short : s.chars.length ≤ n) :
    s.take n = s :=
  CStr.ext (List.take_of_length_le short)

/-- A NUL-free prefix followed by a NUL is the whole string. -/
theorem cstr_append_nul {s : List UInt8} (nulFree : (0 : UInt8) ∉ s) (tail : List UInt8) :
    cstr (s ++ 0 :: tail) = s := by
  rw [cstr, List.takeWhile_append_of_pos]
  · simp
  · intro c member
    simpa using fun zero : c = 0 => nulFree (zero ▸ member)

/-- Memory that begins with a string and its NUL holds the string. -/
theorem cstr_of_take {mem s : List UInt8} {k : Nat} (nulFree : (0 : UInt8) ∉ s)
    (front : mem.take k = s ++ [0]) : cstr mem = s := by
  have whole := List.take_append_drop k mem
  rw [front, List.append_assoc, List.singleton_append] at whole
  rw [← whole]
  exact cstr_append_nul nulFree _

/-- The NUL comes after the string. -/
theorem length_cstr_lt {mem : List UInt8} (terminated : (0 : UInt8) ∈ mem) :
    (cstr mem).length < mem.length := by
  have front : cstr mem <+: mem := List.takeWhile_prefix _
  refine lt_of_le_of_ne front.length_le fun same => ?_
  have whole : cstr mem = mem := front.eq_of_length same
  have nulFree := cstr_nulFree mem
  rw [whole] at nulFree
  exact nulFree terminated

/-! ## Comparison -/

/-- `strcmp`.  The end of a list stands for the terminating NUL, and a NUL inside
a list ends the scan as it does in memory. -/
def strcmp : List UInt8 → List UInt8 → Int
  | a :: s1, b :: s2 => if a ≠ 0 ∧ a = b then strcmp s1 s2 else (a.toNat : Int) - b.toNat
  | a :: _, [] => a.toNat
  | [], b :: _ => -(b.toNat : Int)
  | [], [] => 0

/-- `strncmp`, with the same reading of lists. -/
def strncmp : List UInt8 → List UInt8 → Nat → Int
  | _, _, 0 => 0
  | a :: s1, b :: s2, n + 1 =>
    if a ≠ 0 ∧ a = b then strncmp s1 s2 n else (a.toNat : Int) - b.toNat
  | a :: _, [], _ + 1 => a.toNat
  | [], b :: _, _ + 1 => -(b.toNat : Int)
  | [], [], _ + 1 => 0

/-- The sign of `r` is the order of `x` and `y`. -/
structure ThreeWay {α : Type} [LT α] (r : Int) (x y : α) : Prop where
  neg : r < 0 ↔ x < y
  zero : r = 0 ↔ x = y
  pos : 0 < r ↔ y < x

section ThreeWay

variable {α : Type} [LT α] {r : Int} {c d : α} {s t : List α}

theorem ThreeWay.nil : ThreeWay 0 ([] : List α) [] where
  neg := by simp
  zero := by simp
  pos := by simp

/-- A common first element does not matter. -/
theorem ThreeWay.cons [Std.Irrefl (· < · : α → α → Prop)] (tails : ThreeWay r s t) (c : α) :
    ThreeWay r (c :: s) (c :: t) where
  neg := tails.neg.trans List.cons_lt_cons_self.symm
  zero := tails.zero.trans (by simp)
  pos := tails.pos.trans List.cons_lt_cons_self.symm

/-- Different first elements decide. -/
theorem ThreeWay.heads (heads : ThreeWay r c d) (differ : c ≠ d) (s t : List α) :
    ThreeWay r (c :: s) (d :: t) where
  neg := heads.neg.trans (by simp [List.cons_lt_cons_iff, differ])
  zero := heads.zero.trans (by simp [differ])
  pos := heads.pos.trans (by simp [List.cons_lt_cons_iff, differ.symm])

theorem ThreeWay.longer (pos : 0 < r) (c : α) (s : List α) : ThreeWay r (c :: s) [] where
  neg := iff_of_false (by omega) (List.not_lt_nil _)
  zero := iff_of_false (by omega) (List.cons_ne_nil c s)
  pos := iff_of_true pos (List.nil_lt_cons c s)

theorem ThreeWay.shorter (neg : r < 0) (d : α) (t : List α) : ThreeWay r [] (d :: t) where
  neg := iff_of_true neg (List.nil_lt_cons d t)
  zero := iff_of_false (by omega) (List.cons_ne_nil d t).symm
  pos := iff_of_false (by omega) (List.not_lt_nil _)

end ThreeWay

/-- The difference of two bytes as the code takes it, unsigned. -/
theorem threeWay_sub (c d : UInt8) : ThreeWay ((c.toNat : Int) - d.toNat) c d where
  neg := by
    rw [UInt8.lt_iff_toNat_lt]
    omega
  zero := by
    rw [← UInt8.toNat_inj]
    omega
  pos := by
    rw [UInt8.lt_iff_toNat_lt]
    omega

/-- `strncmp` orders the first `n` characters. -/
theorem threeWay_strncmp {a b : List UInt8} (free : (0 : UInt8) ∉ a) (free' : (0 : UInt8) ∉ b)
    (n : Nat) : ThreeWay (strncmp a b n) (a.take n) (b.take n) := by
  have positive {c : UInt8} (notNul : 0 ≠ c) : (0 : Int) < c.toNat := by
    have value : c.toNat ≠ 0 := fun zero => notNul (UInt8.toNat_inj.mp zero).symm
    omega
  induction n generalizing a b with
  | zero =>
    rw [strncmp, List.take_zero, List.take_zero]
    exact ThreeWay.nil
  | succ n ih =>
    cases a with
    | nil =>
      cases b with
      | nil => exact ThreeWay.nil
      | cons d b =>
        have here := positive (List.ne_of_not_mem_cons free')
        exact .shorter (Int.neg_neg_of_pos here) d _
    | cons c a =>
      have notNul := List.ne_of_not_mem_cons free
      cases b with
      | nil => exact .longer (positive notNul) c _
      | cons d b =>
        rw [strncmp, List.take_succ_cons, List.take_succ_cons]
        by_cases same : c = d
        · subst same
          rw [if_pos ⟨notNul.symm, rfl⟩]
          exact (ih (List.not_mem_of_not_mem_cons free) (List.not_mem_of_not_mem_cons free')).cons c
        · rw [if_neg (fun both => same both.2)]
          exact (threeWay_sub c d).heads same _ _

/-- A bound past the end of the first string is no bound. -/
theorem strncmp_of_length_lt {a : List UInt8} (b : List UInt8) {n : Nat} (long : a.length < n) :
    strncmp a b n = strcmp a b := by
  induction a generalizing b n with
  | nil =>
    obtain ⟨n, rfl⟩ := Nat.exists_eq_succ_of_ne_zero (Nat.ne_zero_of_lt long)
    cases b <;> rfl
  | cons c a ih =>
    obtain ⟨n, rfl⟩ := Nat.exists_eq_succ_of_ne_zero (Nat.ne_zero_of_lt long)
    cases b with
    | nil => rfl
    | cons d b =>
      rw [strncmp, strcmp]
      exact ite_congr rfl (fun _ => ih b (by simpa using long)) fun _ => rfl

/-- `strcmp` orders the strings. -/
theorem threeWay_strcmp (a b : CStr) : ThreeWay (strcmp a.chars b.chars) a.chars b.chars := by
  have bounded := threeWay_strncmp a.nulFree b.nulFree (a.chars.length + b.chars.length + 1)
  rw [strncmp_of_length_lt _ (by omega), List.take_of_length_le (by omega),
    List.take_of_length_le (by omega)] at bounded
  exact bounded

/-- What follows the NUL of either string does not matter. -/
theorem strcmp_cstr (s1 s2 : List UInt8) : strcmp (cstr s1) s2 = strcmp s1 s2 := by
  induction s1 generalizing s2 with
  | nil => rfl
  | cons a s1 ih =>
    by_cases zero : a = 0
    · cases s2 <;> simp [strcmp, cstr, zero]
    · have rest : cstr (a :: s1) = a :: cstr s1 := by simp [cstr, zero]
      rw [rest]
      cases s2 with
      | nil => rfl
      | cons b s2 => rw [strcmp, strcmp, ih s2]

theorem strcmp_cstr_right (s1 s2 : List UInt8) : strcmp s1 (cstr s2) = strcmp s1 s2 := by
  induction s1 generalizing s2 with
  | nil =>
    cases s2 with
    | nil => rfl
    | cons b s2 => by_cases zero : b = 0 <;> simp [strcmp, cstr, zero]
  | cons a s1 ih =>
    cases s2 with
    | nil => rfl
    | cons b s2 =>
      by_cases zero : b = 0
      · by_cases zero' : a = 0 <;> simp [strcmp, cstr, zero, zero']
      · have rest : cstr (b :: s2) = b :: cstr s2 := by simp [cstr, zero]
        rw [rest, strcmp, strcmp, ih s2]

/-- `strcmp` answers 0 exactly when both memories hold the same string. -/
theorem strcmp_eq_zero_iff (s1 s2 : List UInt8) : strcmp s1 s2 = 0 ↔ cstr s1 = cstr s2 := by
  rw [← strcmp_cstr, ← strcmp_cstr_right]
  exact (threeWay_strcmp ⟨cstr s1, cstr_nulFree s1⟩ ⟨cstr s2, cstr_nulFree s2⟩).zero

/-! ## Bounded copies -/

variable {β : Type} {n : Nat}

/-- Perform stores into an array, in order. -/
def applyStores (dst : Vector β n) (stores : List (Nat × β)) : Vector β n :=
  stores.foldl (fun v store => v.setIfInBounds store.1 store.2) dst

@[simp] theorem applyStores_nil (dst : Vector β n) : applyStores dst [] = dst := rfl

@[simp] theorem applyStores_cons (dst : Vector β n) (store : Nat × β) (rest : List (Nat × β)) :
    applyStores dst (store :: rest) = applyStores (dst.setIfInBounds store.1 store.2) rest := rfl

/-- `while (src[i] && i < max) { dst[i] = src[i]; i++; } dst[i] = '\0';` entered with
the counter at `i` and `src` standing for the characters from there on: the stores it
makes, and the counter it leaves with. -/
def copyLoop (max : Nat) : Nat → List UInt8 → List (Nat × UInt8) × Nat
  | i, [] => ([(i, 0)], i)
  | i, c :: src =>
    if c ≠ 0 ∧ i < max then
      let rest := copyLoop max (i + 1) src
      ((i, c) :: rest.1, rest.2)
    else ([(i, 0)], i)

/-- The loop copies until the string ends or `max` characters are stored. -/
theorem copyLoop_counter {max i : Nat} {src : List UInt8} (nulFree : (0 : UInt8) ∉ src)
    (le : i ≤ max) : (copyLoop max i src).2 = i + (src.take (max - i)).length := by
  induction src generalizing i with
  | nil => simp [copyLoop]
  | cons c src ih =>
    have notNul : 0 ≠ c := List.ne_of_not_mem_cons nulFree
    have tailFree : (0 : UInt8) ∉ src := List.not_mem_of_not_mem_cons nulFree
    rcases Nat.lt_or_ge i max with lt | ge
    · simp only [copyLoop, ne_eq, Ne.symm notNul, not_false_eq_true, lt, and_self, if_true]
      rw [ih tailFree lt, List.length_take, List.length_take, List.length_cons]
      omega
    · obtain rfl : i = max := le_antisymm le ge
      simp [copyLoop]

/-- The loop stores at no index above `max`. -/
theorem copyLoop_store_le {max i : Nat} (le : i ≤ max) (src : List UInt8) :
    ∀ store ∈ (copyLoop max i src).1, store.1 ≤ max := by
  induction src generalizing i with
  | nil => simpa [copyLoop] using le
  | cons c src ih =>
    rw [copyLoop]
    split
    · next more =>
      intro store member
      rcases List.mem_cons.mp member with rfl | later
      · exact le
      · exact ih (Nat.succ_le_of_lt more.2) store later
    · simpa using le

theorem take_set_succ {i : Nat} (v : Vector β n) (c : β) (lt : i < n) :
    (v.set i c).toList.take (i + 1) = v.toList.take i ++ [c] := by
  rw [Vector.toList_set, List.set_eq_take_append_cons_drop, if_pos (by simpa using lt),
    List.take_append, List.length_take]
  simp [lt.le]

theorem toList_setIfInBounds (dst : Vector β n) {i : Nat} (inside : i < n) (c : β) :
    (dst.setIfInBounds i c).toList = dst.toList.take i ++ c :: dst.toList.drop (i + 1) := by
  simp [Vector.toList, List.set_eq_take_append_cons_drop, inside]

/-- What the loop leaves in the array from the entry position on. -/
theorem toList_applyStores_copyLoop {max i : Nat} {src : List UInt8} (dst : Vector UInt8 n)
    (nulFree : (0 : UInt8) ∉ src) (le : i ≤ max) (fits : max < n) :
    ∃ tail, (applyStores dst (copyLoop max i src).1).toList =
      dst.toList.take i ++ src.take (max - i) ++ 0 :: tail := by
  have stop (v : Vector UInt8 n) {j : Nat} (lt : j < n) :
      ∃ tail, (applyStores v [(j, 0)]).toList = v.toList.take j ++ 0 :: tail :=
    ⟨v.toList.drop (j + 1), toList_setIfInBounds v lt 0⟩
  induction src generalizing i dst with
  | nil => simpa [copyLoop] using stop dst (lt_of_le_of_lt le fits)
  | cons c src ih =>
    have notNul : 0 ≠ c := List.ne_of_not_mem_cons nulFree
    have tailFree : (0 : UInt8) ∉ src := List.not_mem_of_not_mem_cons nulFree
    rcases Nat.lt_or_ge i max with lt | ge
    · obtain ⟨tail, image⟩ := ih (dst.setIfInBounds i c) tailFree lt
      refine ⟨tail, ?_⟩
      simp only [copyLoop, ne_eq, Ne.symm notNul, not_false_eq_true, lt, and_self, if_true,
        applyStores_cons, image]
      have inside : i < n := lt.trans fits
      have head : (dst.setIfInBounds i c).toList.take (i + 1) = dst.toList.take i ++ [c] := by
        have length : (dst.toList.take i).length = i := by simp [inside.le]
        rw [toList_setIfInBounds dst inside, List.take_append, length, Nat.add_sub_cancel_left,
          List.take_of_length_le (by omega)]
        rfl
      have step : max - i = (max - (i + 1)) + 1 := by omega
      rw [head, step, List.take_succ_cons]
      simp
    · obtain rfl : i = max := le_antisymm le ge
      simpa [copyLoop] using stop dst fits

/-- The array holds the copied prefix as a terminated string. -/
theorem cstr_applyStores_copyLoop {max : Nat} {src : List UInt8} (dst : Vector UInt8 n)
    (nulFree : (0 : UInt8) ∉ src) (fits : max < n) :
    cstr (applyStores dst (copyLoop max 0 src).1).toList = src.take max := by
  obtain ⟨tail, image⟩ := toList_applyStores_copyLoop dst nulFree (Nat.zero_le max) fits
  rw [image]
  simpa using cstr_append_nul (fun member => nulFree (List.mem_of_mem_take member)) tail

/-- The loop leaves a NUL in the array. -/
theorem nul_mem_applyStores_copyLoop {max : Nat} {src : List UInt8} (dst : Vector UInt8 n)
    (nulFree : (0 : UInt8) ∉ src) (fits : max < n) :
    (0 : UInt8) ∈ (applyStores dst (copyLoop max 0 src).1).toList := by
  obtain ⟨tail, image⟩ := toList_applyStores_copyLoop dst nulFree (Nat.zero_le max) fits
  rw [image]
  exact List.mem_append_right _ List.mem_cons_self

/-- Store bytes over the front of an array. -/
def overwrite (dst : Vector β n) (bytes : List β) : Vector β n :=
  Vector.ofFn fun i => bytes.getD i dst[i]

theorem getElem_overwrite (dst : Vector β n) (bytes : List β) {i : Nat} (lt : i < n) :
    (overwrite dst bytes)[i] = bytes.getD i dst[i] := by
  simp only [overwrite, Vector.getElem_ofFn]
  rfl

theorem toList_overwrite (dst : Vector β n) {bytes : List β} (fits : bytes.length ≤ n) :
    (overwrite dst bytes).toList = bytes ++ dst.toList.drop bytes.length := by
  refine List.ext_getElem (by simp; omega) fun i lt _ => ?_
  have inside : i < n := by simpa using lt
  rw [Vector.getElem_toList, getElem_overwrite dst bytes inside, List.getD_eq_getElem?_getD]
  rcases Nat.lt_or_ge i bytes.length with front | back
  · rw [List.getElem_append_left front, List.getElem?_eq_getElem front, Option.getD_some]
  · rw [List.getElem_append_right back, List.getElem?_eq_none back, Option.getD_none,
      List.getElem_drop, Vector.getElem_toList]
    simp only [Nat.add_sub_of_le back]

/-- A string and its NUL over the front of an array. -/
theorem cstr_overwrite (dst : Vector UInt8 n) {s : List UInt8} (nulFree : (0 : UInt8) ∉ s)
    (fits : s.length < n) :
    cstr (overwrite dst (s ++ [0])).toList = s ∧
      (0 : UInt8) ∈ (overwrite dst (s ++ [0])).toList := by
  rw [toList_overwrite dst (by simp; omega), List.append_assoc, List.singleton_append]
  exact ⟨cstr_append_nul nulFree _, by simp⟩

end MOKernel
