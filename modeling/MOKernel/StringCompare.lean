import MOKernel.CString
import MOKernel.Console
import MOKernel.ReadTrace

/-!
# Scans of strings in memory

`strcmp`, `strncmp` and `kprint` walk a string in memory to its NUL.  Here they are
programs that read memory one byte at a time, in the order of the code, with a bound on
the number of turns of the loop.  `strncmpAt_spec` says what the comparison answers on
two strings in memory, that the strings bound its turns, and which bytes it reads.
-/

namespace MOKernel

/-! ## Memory -/

/-- These bytes are in memory from address `p` on. -/
def BytesAt (mem : Nat → UInt8) : Nat → List UInt8 → Prop
  | _, [] => True
  | p, c :: bytes => mem p = c ∧ BytesAt mem (p + 1) bytes

/-- The string is in memory at `p`, with its NUL. -/
def StringAt (mem : Nat → UInt8) (p : Nat) (s : CStr) : Prop := BytesAt mem p (s.chars ++ [0])

/-- What an array with a NUL in it holds is a string. -/
theorem stringAt_of_bytesAt {mem : Nat → UInt8} {p : Nat} {bytes : List UInt8}
    (held : BytesAt mem p bytes) (terminated : (0 : UInt8) ∈ bytes) :
    StringAt mem p ⟨cstr bytes, cstr_nulFree bytes⟩ := by
  induction bytes generalizing p with
  | nil => cases terminated
  | cons c bytes ih =>
    by_cases stop : c = 0
    · simpa [StringAt, BytesAt, cstr, stop] using held.1.trans stop
    · have rest := ih held.2 ((List.mem_cons.mp terminated).resolve_left (Ne.symm stop))
      simpa [StringAt, BytesAt, cstr, stop, held.1] using rest

/-- At position `j` the strings neither differ nor end. -/
def Common (a b : List UInt8) (j : Nat) : Prop := ∃ c, a[j]? = some c ∧ b[j]? = some c

/-- The positions up to the first where the strings differ or end, both included. -/
def comparedPositions (a b : List UInt8) : Set Nat := {i | ∀ j < i, Common a b j}

/-- The addresses of the bytes at these positions of two strings. -/
def scannedBytes (s1 s2 : Nat) (positions : Set Nat) : Set Nat :=
  {p | ∃ i ∈ positions, p = s1 + i ∨ p = s2 + i}

/-- The byte at the start of a string, the NUL if it is empty. -/
theorem eq_headD_of_bytesAt {mem : Nat → UInt8} {p : Nat} {s : List UInt8}
    (held : BytesAt mem p (s ++ [0])) : mem p = s.headD 0 := by
  cases s with
  | nil => exact held.1
  | cons c s => exact held.1

theorem zero_mem_comparedPositions (a b : List UInt8) : 0 ∈ comparedPositions a b :=
  fun j lt => absurd lt (Nat.not_lt_zero j)

theorem succ_mem_comparedPositions {a b : List UInt8} {i : Nat} (c : UInt8)
    (compared : i ∈ comparedPositions a b) :
    i + 1 ∈ comparedPositions (c :: a) (c :: b) := by
  intro j lt
  cases j with
  | zero => exact ⟨c, rfl, rfl⟩
  | succ j => exact compared j (Nat.lt_of_succ_lt_succ lt)

theorem Common.lt {a b : List UInt8} {j : Nat} (common : Common a b j) :
    j < a.length ∧ j < b.length := by
  obtain ⟨c, here, here'⟩ := common
  exact ⟨(List.getElem?_eq_some_iff.mp here).1, (List.getElem?_eq_some_iff.mp here').1⟩

/-- The compared positions are those of the strings and their NULs. -/
theorem comparedPositions_subset (a b : List UInt8) :
    comparedPositions a b ⊆ Set.Iic (min a.length b.length) := by
  intro i compared
  cases i with
  | zero => exact Nat.zero_le _
  | succ i =>
    have last := (compared i (Nat.lt_succ_self i)).lt
    exact le_min (Nat.succ_le_of_lt last.1) (Nat.succ_le_of_lt last.2)

theorem start_mem_scannedBytes (s1 s2 n : Nat) (a b : List UInt8) :
    s1 ∈ scannedBytes s1 s2 {i | i < n + 1 ∧ i ∈ comparedPositions a b} ∧
      s2 ∈ scannedBytes s1 s2 {i | i < n + 1 ∧ i ∈ comparedPositions a b} := by
  have start : 0 ∈ {i | i < n + 1 ∧ i ∈ comparedPositions a b} :=
    ⟨Nat.succ_pos n, zero_mem_comparedPositions a b⟩
  exact ⟨⟨0, start, .inl rfl⟩, 0, start, .inr rfl⟩

/-- Behind a common character the positions move up by one. -/
theorem scannedBytes_tail_subset {s1 s2 n : Nat} (c : UInt8) (a b : List UInt8) :
    scannedBytes (s1 + 1) (s2 + 1) {i | i < n ∧ i ∈ comparedPositions a b} ⊆
      scannedBytes s1 s2 {i | i < n + 1 ∧ i ∈ comparedPositions (c :: a) (c :: b)} := by
  rintro p ⟨i, ⟨lt, compared⟩, place⟩
  have next := succ_mem_comparedPositions c compared
  refine ⟨i + 1, ⟨Nat.succ_lt_succ lt, next⟩, ?_⟩
  omega

/-! ## The scans -/

open Load (cell)

/-- `*s1 && (*s1 == *s2)` -/
def goesOn (s1 s2 : Nat) : Load Nat UInt8 Bool := do
  if (← cell s1) = 0 then pure false
  else
    let c ← cell s1
    let d ← cell s2
    pure (c == d)

/-- `*(const unsigned char*)s1 - *(const unsigned char*)s2` -/
def byteDifference (s1 s2 : Nat) : Load Nat UInt8 Int := do
  let c ← cell s1
  let d ← cell s2
  pure ((c.toNat : Int) - d.toNat)

/-- `strcmp` on the strings at two addresses; `none` when the loop has not ended after
`fuel` tests. -/
def strcmpAt : Nat → Nat → Nat → Load Nat UInt8 (Option Int)
  | 0, _, _ => pure none
  | fuel + 1, s1, s2 => do
    if ← goesOn s1 s2 then strcmpAt fuel (s1 + 1) (s2 + 1)
    else
      let difference ← byteDifference s1 s2
      pure (some difference)

/-- `strncmp`, likewise. -/
def strncmpAt : Nat → Nat → Nat → Int → Load Nat UInt8 (Option Int)
  | 0, _, _, _ => pure none
  | fuel + 1, s1, s2, n => do
    if ← (if n > 0 then goesOn s1 s2 else pure false) then
      strncmpAt fuel (s1 + 1) (s2 + 1) (n - 1)
    else if n = 0 then pure (some 0)
    else
      let difference ← byteDifference s1 s2
      pure (some difference)

/-- `kprint` of the string at `str` from index `i` on, likewise. -/
def kprintAt (str : Nat) : Nat → Console → Nat → Load Nat UInt8 (Option Console)
  | 0, _, _ => pure none
  | fuel + 1, con, i => do
    if (← cell (str + i)) ≠ 0 then
      let chr ← cell (str + i)
      kprintAt str fuel (kprintChar con chr) (i + 1)
    else pure (some con)

section Scans

variable {mem : Nat → UInt8}

@[simp] theorem run_goesOn (s1 s2 : Nat) :
    (goesOn s1 s2).run mem = true ↔ mem s1 ≠ 0 ∧ mem s1 = mem s2 := by
  by_cases stop : mem s1 = 0 <;> simp [goesOn, stop]

theorem readsIn_goesOn {s1 s2 : Nat} {s : Set Nat} (first : s1 ∈ s) (second : s2 ∈ s) :
    (goesOn s1 s2).ReadsIn mem s := by
  refine Load.readsIn_bind.mpr ⟨Load.readsIn_cell.mpr first,
    Load.readsIn_ite (fun _ => ?_) fun _ => ?_⟩
  · exact Load.readsIn_pure _
  · simp [first, second]

@[simp] theorem run_byteDifference (s1 s2 : Nat) :
    (byteDifference s1 s2).run mem = ((mem s1).toNat : Int) - (mem s2).toNat := rfl

theorem readsIn_byteDifference {s1 s2 : Nat} {s : Set Nat} (first : s1 ∈ s) (second : s2 ∈ s) :
    (byteDifference s1 s2).ReadsIn mem s := by
  simp [byteDifference, first, second]

/-- One turn of `strncmp`. -/
theorem run_strncmpAt_succ (fuel s1 s2 : Nat) (n : Int) :
    (strncmpAt (fuel + 1) s1 s2 n).run mem =
      if n > 0 ∧ mem s1 ≠ 0 ∧ mem s1 = mem s2 then
        (strncmpAt fuel (s1 + 1) (s2 + 1) (n - 1)).run mem
      else if n = 0 then some 0
      else some (((mem s1).toNat : Int) - (mem s2).toNat) := by
  rw [strncmpAt, Load.run_bind, Load.run_ite, Load.run_ite]
  by_cases more : n > 0
  · simp [more]
  · simp [more]

/-- What one turn of `strncmp` reads: with `n = 0` nothing, else at most the two bytes
it stands at and what the rest of the loop reads. -/
theorem readsIn_strncmpAt_succ {fuel s1 s2 : Nat} {n : Int} {s : Set Nat}
    (here : n ≠ 0 → s1 ∈ s ∧ s2 ∈ s)
    (rest : n > 0 → mem s1 ≠ 0 → mem s1 = mem s2 →
      (strncmpAt fuel (s1 + 1) (s2 + 1) (n - 1)).ReadsIn mem s) :
    (strncmpAt (fuel + 1) s1 s2 n).ReadsIn mem s := by
  rw [strncmpAt, Load.readsIn_bind, Load.run_ite]
  refine ⟨Load.readsIn_ite (fun more => ?_) fun _ => Load.readsIn_pure _, ?_⟩
  · obtain ⟨first, second⟩ := here more.ne'
    exact readsIn_goesOn first second
  refine Load.readsIn_ite (fun goes => ?_) fun _ => ?_
  · by_cases more : n > 0
    · rw [if_pos more, run_goesOn] at goes
      exact rest more goes.1 goes.2
    · rw [if_neg more] at goes
      cases goes
  refine Load.readsIn_ite (fun _ => Load.readsIn_pure _) fun nonzero => ?_
  obtain ⟨first, second⟩ := here nonzero
  exact Load.readsIn_bind.mpr ⟨readsIn_byteDifference first second, Load.readsIn_pure _⟩

/-- The turn of the loop on lists. -/
theorem strncmp_succ (a b : List UInt8) (n : Nat) :
    strncmp a b (n + 1) =
      if a.headD 0 ≠ 0 ∧ a.headD 0 = b.headD 0 then strncmp a.tail b.tail n
      else ((a.headD 0).toNat : Int) - (b.headD 0).toNat := by
  cases a with
  | nil => cases b <;> simp [strncmp]
  | cons c a =>
    cases b with
    | nil => by_cases zero : c = 0 <;> simp [strncmp, zero]
    | cons d b => rfl

/-- `strncmp` on two strings in memory ends with the answer on the strings and reads no
byte past the first position where they differ or end, nor at position `n`. -/
theorem strncmpAt_spec {fuel s1 s2 n : Nat} {a b : List UInt8} (free : (0 : UInt8) ∉ a)
    (first : BytesAt mem s1 (a ++ [0])) (second : BytesAt mem s2 (b ++ [0]))
    (enough : min a.length n < fuel) :
    (strncmpAt fuel s1 s2 n).run mem = some (strncmp a b n) ∧
      (strncmpAt fuel s1 s2 n).ReadsIn mem
        (scannedBytes s1 s2 {i | i < n ∧ i ∈ comparedPositions a b}) := by
  induction n generalizing fuel s1 s2 a b with
  | zero =>
    obtain ⟨fuel, rfl⟩ := Nat.exists_eq_succ_of_ne_zero (Nat.ne_zero_of_lt enough)
    refine ⟨?_, readsIn_strncmpAt_succ (fun nonzero => absurd rfl nonzero)
      fun more => absurd more (lt_irrefl _)⟩
    rw [run_strncmpAt_succ, strncmp]
    rfl
  | succ n ih =>
    obtain ⟨fuel, rfl⟩ := Nat.exists_eq_succ_of_ne_zero (Nat.ne_zero_of_lt enough)
    have more : ((n + 1 : Nat) : Int) > 0 := by omega
    have less : ((n + 1 : Nat) : Int) - 1 = n := by omega
    have head := eq_headD_of_bytesAt first
    have head' := eq_headD_of_bytesAt second
    have here := start_mem_scannedBytes s1 s2 n a b
    by_cases goes : a.headD 0 ≠ 0 ∧ a.headD 0 = b.headD 0
    · -- neither string is at its end
      obtain ⟨c, a, rfl⟩ : ∃ c rest, a = c :: rest :=
        List.exists_cons_of_ne_nil fun empty => goes.1 (by rw [empty]; rfl)
      obtain ⟨d, b, rfl⟩ : ∃ d rest, b = d :: rest :=
        List.exists_cons_of_ne_nil fun empty => goes.1 (by rw [goes.2, empty]; rfl)
      obtain rfl : c = d := goes.2
      have enough' : min a.length n < fuel := by
        rw [List.length_cons] at enough
        omega
      obtain ⟨value, reads⟩ :=
        ih (List.not_mem_of_not_mem_cons free) first.2 second.2 enough'
      rw [run_strncmpAt_succ, strncmp_succ, head, head', if_pos ⟨more, goes⟩, if_pos goes, less]
      refine ⟨value, readsIn_strncmpAt_succ (fun _ => here) fun _ _ _ => ?_⟩
      rw [less]
      exact reads.mono (scannedBytes_tail_subset c a b)
    · rw [run_strncmpAt_succ, strncmp_succ, head, head', if_neg (fun both => goes both.2),
        if_neg goes, if_neg more.ne']
      refine ⟨rfl, readsIn_strncmpAt_succ (fun _ => here) fun _ notNul same => ?_⟩
      exact absurd ⟨head ▸ notNul, head ▸ head' ▸ same⟩ goes

/-- A bound that the number of turns does not reach is no bound. -/
theorem strncmpAt_of_fuel_le {fuel : Nat} {n : Int} (le : fuel ≤ n) (s1 s2 : Nat) :
    strncmpAt fuel s1 s2 n = strcmpAt fuel s1 s2 := by
  induction fuel generalizing n s1 s2 with
  | zero => rfl
  | succ fuel ih =>
    have more : n > 0 := by omega
    have less : (fuel : Int) ≤ n - 1 := by omega
    have rest := ih less (s1 + 1) (s2 + 1)
    simp only [strncmpAt, strcmpAt, rest, if_pos more, if_neg more.ne']

/-- The same for `strcmp`. -/
theorem strcmpAt_spec {fuel s1 s2 : Nat} {a b : List UInt8} (free : (0 : UInt8) ∉ a)
    (first : BytesAt mem s1 (a ++ [0])) (second : BytesAt mem s2 (b ++ [0]))
    (enough : a.length < fuel) :
    (strcmpAt fuel s1 s2).run mem = some (strcmp a b) ∧
      (strcmpAt fuel s1 s2).ReadsIn mem (scannedBytes s1 s2 (comparedPositions a b)) := by
  have enough' : min a.length fuel < fuel := by omega
  obtain ⟨value, reads⟩ := strncmpAt_spec free first second enough'
  rw [strncmpAt_of_fuel_le le_rfl, strncmp_of_length_lt b enough] at value
  rw [strncmpAt_of_fuel_le le_rfl] at reads
  refine ⟨value, reads.mono ?_⟩
  rintro p ⟨i, compared, place⟩
  exact ⟨i, compared.2, place⟩

/-- `kprint` prints the string and reads it up to its NUL. -/
theorem kprintAt_spec {fuel str i : Nat} {s : List UInt8} (con : Console)
    (free : (0 : UInt8) ∉ s) (held : BytesAt mem (str + i) (s ++ [0]))
    (enough : s.length < fuel) :
    (kprintAt str fuel con i).run mem = some (kprint con s) ∧
      (kprintAt str fuel con i).ReadsIn mem (Set.Icc (str + i) (str + i + s.length)) := by
  induction s generalizing fuel con i with
  | nil =>
    obtain ⟨fuel, rfl⟩ := Nat.exists_eq_succ_of_ne_zero (Nat.ne_zero_of_lt enough)
    have stop : mem (str + i) = 0 := held.1
    exact ⟨by simp [kprintAt, stop, kprint], by simp [kprintAt, stop]⟩
  | cons c s ih =>
    obtain ⟨fuel, rfl⟩ := Nat.exists_eq_succ_of_ne_zero (Nat.ne_zero_of_lt enough)
    have notNul : c ≠ 0 := (List.ne_of_not_mem_cons free).symm
    have head : mem (str + i) = c := held.1
    have tail : BytesAt mem (str + (i + 1)) (s ++ [0]) := held.2
    obtain ⟨printed, reads⟩ := ih (kprintChar con c) (List.not_mem_of_not_mem_cons free) tail
      (Nat.lt_of_succ_lt_succ enough)
    have inside : Set.Icc (str + (i + 1)) (str + (i + 1) + s.length) ⊆
        Set.Icc (str + i) (str + i + (c :: s).length) :=
      Set.Icc_subset_Icc (by omega) (by rw [List.length_cons]; omega)
    refine ⟨by simp [kprintAt, head, notNul, kprint, printed], ?_⟩
    simpa [kprintAt, head, notNul] using reads.mono inside

end Scans

/-- **`strcmp` and `strncmp` are exact.**  On two strings in memory both end, the sign of
the answer is the lexicographic order of the strings, or of their first `n` characters, by
unsigned bytes, and no byte is read past the first position where the strings differ or
end, nor by `strncmp` at position `n` or past it. -/
theorem strcmp_strncmp_exact {mem : Nat → UInt8} {s1 s2 : Nat} {a b : CStr}
    (first : StringAt mem s1 a) (second : StringAt mem s2 b) :
    (∃ r, ThreeWay r a.chars b.chars ∧ ∀ fuel, a.chars.length < fuel →
      (strcmpAt fuel s1 s2).run mem = some r ∧
        (strcmpAt fuel s1 s2).ReadsIn mem
          (scannedBytes s1 s2 (comparedPositions a.chars b.chars))) ∧
      ∀ n : Nat, ∃ r, ThreeWay r (a.take n).chars (b.take n).chars ∧
        ∀ fuel, min a.chars.length n < fuel →
          (strncmpAt fuel s1 s2 n).run mem = some r ∧
            (strncmpAt fuel s1 s2 n).ReadsIn mem
              (scannedBytes s1 s2 {i | i < n ∧ i ∈ comparedPositions a.chars b.chars}) :=
  ⟨⟨_, threeWay_strcmp a b, fun _ enough => strcmpAt_spec a.nulFree first second enough⟩,
    fun n => ⟨_, threeWay_strncmp a.nulFree b.nulFree n,
      fun _ enough => strncmpAt_spec a.nulFree first second enough⟩⟩

/-- A byte above 127 is greater than a letter. -/
theorem strcmp_strncmp_exact_high :
    ∃ r, 0 < r ∧
      (strcmpAt 3 0 3).run (fun p => ([97, 200, 0, 97, 98, 0] : List UInt8).getD p 0) = some r := by
  let mem (p : Nat) : UInt8 := ([97, 200, 0, 97, 98, 0] : List UInt8).getD p 0
  have first : StringAt mem 0 ⟨[97, 200], by decide⟩ := ⟨rfl, rfl, rfl, trivial⟩
  have second : StringAt mem 3 ⟨[97, 98], by decide⟩ := ⟨rfl, rfl, rfl, trivial⟩
  obtain ⟨⟨r, order, answers⟩, -⟩ := strcmp_strncmp_exact first second
  exact ⟨r, order.pos.mpr (by decide), (answers 3 (by decide)).1⟩

end MOKernel
