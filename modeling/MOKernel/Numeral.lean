import Mathlib

/-!
# Numerals

The text of a number in a base, most significant digit first, over any alphabet of
digits.  `IsNumeral` describes the text by its digits, its leading digit and its value,
and `isNumeral_iff` says that only the text that repeated division gives meets it.
-/

namespace MOKernel

variable {α : Type}

/-- The text of `n` in base `b`. -/
def numeral (digit : Nat → α) (b n : Nat) : List α :=
  if n = 0 then [digit 0] else (Nat.digits b n).reverse.map digit

/-- The number a text denotes in base `b`. -/
def numeralValue (digitValue : α → Nat) (b : Nat) (s : List α) : Nat :=
  Nat.ofDigits b (s.reverse.map digitValue)

/-- `s` is the numeral of `n` in base `b`: it has a digit and nothing but digits, a zero
leads only when it is all, and the digits denote `n`. -/
structure IsNumeral (digit : Nat → α) (digitValue : α → Nat) (b n : Nat) (s : List α) : Prop where
  digits : ∀ c ∈ s, ∃ d < b, c = digit d
  nonempty : s ≠ []
  leading : s.head? = some (digit 0) → s = [digit 0]
  value : numeralValue digitValue b s = n

theorem numeral_zero (digit : Nat → α) (b : Nat) : numeral digit b 0 = [digit 0] := rfl

theorem numeral_of_ne_zero (digit : Nat → α) (b : Nat) {n : Nat} (nonzero : n ≠ 0) :
    numeral digit b n = (Nat.digits b n).reverse.map digit := if_neg nonzero

/-- Alphabets that agree below the base give the same text. -/
theorem numeral_congr {digit digit' : Nat → α} {b : Nat} (base : 1 < b)
    (agree : ∀ d < b, digit d = digit' d) (n : Nat) : numeral digit b n = numeral digit' b n := by
  rcases eq_or_ne n 0 with rfl | nonzero
  · rw [numeral_zero, numeral_zero, agree 0 (by omega)]
  · rw [numeral_of_ne_zero _ _ nonzero, numeral_of_ne_zero _ _ nonzero]
    refine List.map_congr_left fun d member => agree d ?_
    exact Nat.digits_lt_base base (List.mem_reverse.mp member)

/-- A number below `b ^ k` has at most `k` digits. -/
theorem length_numeral_le (digit : Nat → α) {b n k : Nat} (base : 1 < b) (some : 0 < k)
    (lt : n < b ^ k) : (numeral digit b n).length ≤ k := by
  rcases eq_or_ne n 0 with rfl | nonzero
  · exact some
  · rw [numeral_of_ne_zero _ _ nonzero, List.length_map, List.length_reverse]
    exact (Nat.digits_length_le_iff base n).mpr lt

section Reading

variable {digit : Nat → α} {digitValue : α → Nat} {b : Nat}

/-- Reading back what was written, digit by digit. -/
theorem map_digitValue_map_digit (reads : ∀ d < b, digitValue (digit d) = d) {ds : List Nat}
    (small : ∀ d ∈ ds, d < b) : (ds.map digit).map digitValue = ds := by
  rw [List.map_map]
  calc ds.map (digitValue ∘ digit) = ds.map id :=
        List.map_congr_left fun d member => reads d (small d member)
    _ = ds := List.map_id ds

theorem map_digit_map_digitValue (reads : ∀ d < b, digitValue (digit d) = d) {s : List α}
    (digits : ∀ c ∈ s, ∃ d < b, c = digit d) : (s.map digitValue).map digit = s := by
  rw [List.map_map]
  calc s.map (digit ∘ digitValue) = s.map id := by
        refine List.map_congr_left fun c member => ?_
        obtain ⟨d, lt, rfl⟩ := digits c member
        exact congrArg digit (reads d lt)
    _ = s := List.map_id s

theorem isNumeral_numeral (base : 1 < b) (reads : ∀ d < b, digitValue (digit d) = d) (n : Nat) :
    IsNumeral digit digitValue b n (numeral digit b n) := by
  rcases eq_or_ne n 0 with rfl | nonzero
  · rw [numeral_zero]
    exact {
      digits := fun c member => ⟨0, by omega, List.mem_singleton.mp member⟩
      nonempty := List.cons_ne_nil _ _
      leading := fun _ => rfl
      value := by simp [numeralValue, reads 0 (by omega)] }
  · have small : ∀ d ∈ Nat.digits b n, d < b := fun d member => Nat.digits_lt_base base member
    have some : Nat.digits b n ≠ [] := Nat.digits_ne_nil_iff_ne_zero.mpr nonzero
    rw [numeral_of_ne_zero _ _ nonzero]
    exact {
      digits := fun c member => by
        obtain ⟨d, digit, rfl⟩ := List.mem_map.mp member
        exact ⟨d, small d (List.mem_reverse.mp digit), rfl⟩
      nonempty := by simpa using some
      leading := fun zero => by
        -- the digit of the highest power is not zero
        have top := Nat.getLast_digit_ne_zero b nonzero
        rw [List.head?_map, List.head?_reverse, List.getLast?_eq_getLast_of_ne_nil some,
          Option.map_some, Option.some_inj] at zero
        have value := congrArg digitValue zero
        rw [reads _ (small _ (List.getLast_mem some)), reads 0 (by omega)] at value
        exact absurd value top
      value := by
        rw [numeralValue, ← List.map_reverse, List.reverse_reverse,
          map_digitValue_map_digit reads small, Nat.ofDigits_digits] }

/-- A numeral is determined by its number. -/
theorem IsNumeral.eq (base : 1 < b) (reads : ∀ d < b, digitValue (digit d) = d) {n : Nat}
    {s : List α} (is : IsNumeral digit digitValue b n s) : s = numeral digit b n := by
  by_cases zero : s.head? = some (digit 0)
  · have alone := is.leading zero
    have value := is.value
    rw [alone] at value ⊢
    obtain rfl : 0 = n := by simpa [numeralValue, reads 0 (by omega)] using value
    rfl
  · have digits : Nat.digits b n = (s.map digitValue).reverse := by
      rw [← is.value, numeralValue, List.map_reverse]
      refine Nat.digits_ofDigits b base _ (fun d member => ?_) fun some top => zero ?_
      · obtain ⟨c, inside, rfl⟩ := List.mem_map.mp (List.mem_reverse.mp member)
        obtain ⟨d, lt, rfl⟩ := is.digits c inside
        rwa [reads d lt]
      · obtain ⟨c, rest, rfl⟩ := List.exists_cons_of_ne_nil is.nonempty
        obtain ⟨d, lt, rfl⟩ := is.digits c List.mem_cons_self
        rw [List.getLast_reverse, List.head_map, List.head_cons, reads d lt] at top
        rw [List.head?_cons, top]
    have nonzero : n ≠ 0 := by
      rw [← Nat.digits_ne_nil_iff_ne_zero (b := b), digits]
      simpa using is.nonempty
    rw [numeral_of_ne_zero _ _ nonzero, digits, List.reverse_reverse,
      map_digit_map_digitValue reads is.digits]

/-- The numeral is the one text that meets the description. -/
theorem isNumeral_iff (base : 1 < b) (reads : ∀ d < b, digitValue (digit d) = d) {n : Nat}
    {s : List α} : IsNumeral digit digitValue b n s ↔ s = numeral digit b n :=
  ⟨IsNumeral.eq base reads, fun same => same ▸ isNumeral_numeral base reads n⟩

end Reading

end MOKernel
