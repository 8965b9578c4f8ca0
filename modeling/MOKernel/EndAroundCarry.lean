import Mathlib

/-!
# End-around carries

`endAround B n` folds the part of `n` at and above the base `B` back into the low
digit until nothing is left above it.  For every base `B > 1` the result is a
digit congruent to `n` modulo `B - 1`, and it is zero only when `n` is.  The two
digits that are zero modulo `B - 1` are therefore told apart, which is what
makes the complement of a sum complete it (`endAround_add_complement`).
-/

namespace MOKernel

/-- Fold carries above the base back into the low digit. -/
def endAround (B n : Nat) : Nat :=
  if _carry : 1 < B ∧ B ≤ n then endAround B (n % B + n / B) else n
termination_by n
decreasing_by
  have split := Nat.div_add_mod n B
  have quotient : 0 < n / B := Nat.div_pos _carry.2 (by omega)
  nlinarith [Nat.mul_le_mul_right (n / B) _carry.1]

section EndAround

variable {B : Nat}

theorem endAround_of_lt {n : Nat} (lt : n < B) : endAround B n = n := by
  rw [endAround, dif_neg (by omega)]

theorem endAround_step {n : Nat} (base : 1 < B) (le : B ≤ n) :
    endAround B n = endAround B (n % B + n / B) := by
  rw [endAround, dif_pos ⟨base, le⟩]

/-- The result is a digit. -/
theorem endAround_lt (base : 1 < B) (n : Nat) : endAround B n < B := by
  fun_induction endAround B n with
  | case1 n _ ih => exact ih
  | case2 n stop => omega

/-- One fold keeps the residue: the base is 1 modulo `B - 1`. -/
theorem fold_modEq (base : 1 < B) (n : Nat) : n % B + n / B ≡ n [MOD B - 1] := by
  have one : B ≡ 1 [MOD B - 1] := (Nat.modEq_iff_dvd' base.le).mpr dvd_rfl |>.symm
  calc n % B + n / B = 1 * (n / B) + n % B := by ring
    _ ≡ B * (n / B) + n % B [MOD B - 1] := (one.symm.mul_right _).add_right _
    _ = n := Nat.div_add_mod n B

theorem endAround_modEq (base : 1 < B) (n : Nat) : endAround B n ≡ n [MOD B - 1] := by
  fun_induction endAround B n with
  | case1 n _ ih => exact ih.trans (fold_modEq base n)
  | case2 n _ => rfl

theorem endAround_eq_zero_iff (base : 1 < B) (n : Nat) : endAround B n = 0 ↔ n = 0 := by
  fun_induction endAround B n with
  | case1 n step ih =>
    rw [ih]
    have quotient : 0 < n / B := Nat.div_pos step.2 (by omega)
    omega
  | case2 n _ => rfl

/-- A digit with the residue of `n`, and zero only when `n` is, is the fold of `n`. -/
theorem endAround_unique (base : 1 < B) {n digit : Nat} (lt : digit < B)
    (residue : digit ≡ n [MOD B - 1]) (zero : digit = 0 ↔ n = 0) : endAround B n = digit := by
  have foldLt := endAround_lt base n
  have foldZero := endAround_eq_zero_iff base n
  have same : endAround B n ≡ digit [MOD B - 1] := (endAround_modEq base n).trans residue.symm
  -- two digits of one residue differ only as the two zeros
  have wrap {x y : Nat} (xLt : x < B) (modEq : x ≡ y [MOD B - 1]) (less : y < x)
      (zeros : x = 0 ↔ y = 0) : False := by
    have divides : B - 1 ∣ x - y := (Nat.modEq_iff_dvd' less.le).mp modEq.symm
    have large := Nat.le_of_dvd (by omega) divides
    omega
  rcases Nat.lt_trichotomy (endAround B n) digit with less | equal | more
  · exact (wrap lt same.symm less (zero.trans foldZero.symm)).elim
  · exact equal
  · exact (wrap foldLt same more (foldZero.trans zero.symm)).elim

/-- A sum may be folded before more is added. -/
theorem endAround_endAround_add (base : 1 < B) (n m : Nat) :
    endAround B (endAround B n + m) = endAround B (n + m) := by
  refine (endAround_unique base (endAround_lt base _) ?_ ?_).symm
  · calc endAround B (endAround B n + m) ≡ endAround B n + m [MOD B - 1] := endAround_modEq base _
      _ ≡ n + m [MOD B - 1] := (endAround_modEq base n).add_right m
  · rw [endAround_eq_zero_iff base, Nat.add_eq_zero_iff, endAround_eq_zero_iff base,
      Nat.add_eq_zero_iff]

/-- Adding the complement of the folded sum to the sum gives the all-ones digit. -/
theorem endAround_add_complement (base : 1 < B) (n : Nat) :
    endAround B (n + (B - 1 - endAround B n)) = B - 1 := by
  have digit := endAround_lt base n
  set total := n + (B - 1 - endAround B n) with totalEq
  -- the total is a multiple of `B - 1` ...
  have residue : total ≡ 0 [MOD B - 1] := by
    calc total ≡ endAround B n + (B - 1 - endAround B n) [MOD B - 1] :=
          (endAround_modEq base n).symm.add_right _
      _ = B - 1 := by omega
      _ ≡ 0 [MOD B - 1] := by simp [Nat.ModEq]
  -- ... but not zero
  have nonzero : total ≠ 0 := by
    intro zero
    have nZero : n = 0 := by omega
    have foldZero : endAround B n = 0 := (endAround_eq_zero_iff base n).mpr nZero
    omega
  have foldNonzero : endAround B total ≠ 0 := (endAround_eq_zero_iff base total).not.mpr nonzero
  have foldLt := endAround_lt base total
  have divides : B - 1 ∣ endAround B total :=
    (Nat.modEq_zero_iff_dvd).mp ((endAround_modEq base total).trans residue)
  exact le_antisymm (by omega) (Nat.le_of_dvd (Nat.pos_of_ne_zero foldNonzero) divides)

end EndAround

end MOKernel
