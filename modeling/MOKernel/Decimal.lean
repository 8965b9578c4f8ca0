import MOKernel.Numeral

/-!
# Decimal text

`decimalValue` is the number an ASCII digit string denotes, leading zeros and the
empty string included, and `decimalText` the usual text of a number.  A scanner
meets the digits from the left, so its step is `decimalValue_concat`; a printer
divides, so its digits are `Nat.digits`.
-/

namespace MOKernel

def IsDigit (c : UInt8) : Prop := 48 ≤ c ∧ c ≤ 57

instance : DecidablePred IsDigit := fun c => inferInstanceAs (Decidable (48 ≤ c ∧ c ≤ 57))

/-- Every character is a digit. -/
def IsDigits (s : List UInt8) : Prop := ∀ c ∈ s, IsDigit c

instance : DecidablePred IsDigits := fun s => List.decidableBAll IsDigit s

def digitOf (c : UInt8) : Nat := c.toNat - 48

/-- The number a digit string denotes. -/
def decimalValue (s : List UInt8) : Nat := Nat.ofDigits 10 (s.reverse.map digitOf)

/-- The text of a number. -/
def decimalText (n : Nat) : List UInt8 :=
  if n = 0 then [48] else (Nat.digits 10 n).reverse.map fun d => UInt8.ofNat (48 + d)

theorem IsDigit.digitOf_le {c : UInt8} (digit : IsDigit c) : digitOf c ≤ 9 := by
  have le : c.toNat ≤ 57 := UInt8.le_iff_toNat_le.mp digit.2
  rw [digitOf]
  omega

theorem IsDigit.toNat_eq {c : UInt8} (digit : IsDigit c) : c.toNat = 48 + digitOf c := by
  have le : 48 ≤ c.toNat := UInt8.le_iff_toNat_le.mp digit.1
  rw [digitOf]
  omega

@[simp] theorem isDigits_nil : IsDigits [] := by simp [IsDigits]

@[simp] theorem isDigits_append {s t : List UInt8} :
    IsDigits (s ++ t) ↔ IsDigits s ∧ IsDigits t := by
  simp [IsDigits, or_imp, forall_and]

@[simp] theorem isDigits_cons {c : UInt8} {s : List UInt8} :
    IsDigits (c :: s) ↔ IsDigit c ∧ IsDigits s := by
  simp [IsDigits]

/-- A character that is no digit does not occur among digits. -/
theorem IsDigits.not_mem {s : List UInt8} (digits : IsDigits s) {c : UInt8} (other : ¬IsDigit c) :
    c ∉ s := fun member => other (digits c member)

@[simp] theorem decimalValue_nil : decimalValue [] = 0 := rfl

theorem decimalValue_concat (s : List UInt8) (c : UInt8) :
    decimalValue (s ++ [c]) = 10 * decimalValue s + digitOf c := by
  rw [decimalValue, List.reverse_append, List.reverse_singleton, List.singleton_append,
    List.map_cons, Nat.ofDigits_cons, decimalValue]
  exact Nat.add_comm _ _

/-- The step of a scanner with a 32-bit accumulator. -/
theorem ofNat_decimalValue_concat (s : List UInt8) {c : UInt8} (digit : IsDigit c) :
    UInt32.ofNat (decimalValue (s ++ [c])) =
      UInt32.ofNat (decimalValue s) * 10 + (c - 48).toUInt32 := by
  have value : (c - 48).toNat = digitOf c := by
    rw [UInt8.toNat_sub_of_le _ _ digit.1, digit.toNat_eq]
    exact Nat.add_sub_cancel_left _ _
  apply UInt32.toNat_inj.mp
  simp only [decimalValue_concat, UInt32.toNat_ofNat', UInt32.toNat_add, UInt32.toNat_mul,
    UInt8.toNat_toUInt32, UInt32.reduceToNat, value]
  omega

theorem decimalValue_append (s t : List UInt8) :
    decimalValue (s ++ t) = decimalValue s * 10 ^ t.length + decimalValue t := by
  rw [decimalValue, List.reverse_append, List.map_append, Nat.ofDigits_append, List.length_map,
    List.length_reverse, decimalValue, decimalValue]
  ring

/-- More digits do not make a number smaller. -/
theorem decimalValue_le_append (s t : List UInt8) : decimalValue s ≤ decimalValue (s ++ t) := by
  rw [decimalValue_append]
  exact (Nat.le_mul_of_pos_right _ (by positivity)).trans (Nat.le_add_right _ _)

/-! ## Printing and reading back -/

theorem isDigit_ofNat {d : Nat} (lt : d < 10) :
    IsDigit (UInt8.ofNat (48 + d)) ∧ digitOf (UInt8.ofNat (48 + d)) = d := by
  have value : (UInt8.ofNat (48 + d)).toNat = 48 + d := by
    rw [UInt8.toNat_ofNat', Nat.mod_eq_of_lt (by omega)]
  refine ⟨⟨UInt8.le_iff_toNat_le.mpr ?_, UInt8.le_iff_toNat_le.mpr ?_⟩, ?_⟩
  · rw [value]
    exact Nat.le_add_right 48 d
  · rw [value]
    change 48 + d ≤ 57
    omega
  · rw [digitOf, value, Nat.add_sub_cancel_left]

/-- The decimal text is the numeral in base 10. -/
theorem isNumeral_decimalText (n : Nat) :
    IsNumeral (fun d => UInt8.ofNat (48 + d)) digitOf 10 n (decimalText n) :=
  isNumeral_numeral (by decide) (fun _ lt => (isDigit_ofNat lt).2) n

theorem isDigits_decimalText (n : Nat) : IsDigits (decimalText n) := by
  intro c member
  obtain ⟨d, lt, rfl⟩ := (isNumeral_decimalText n).digits c member
  exact (isDigit_ofNat lt).1

theorem decimalValue_decimalText (n : Nat) : decimalValue (decimalText n) = n :=
  (isNumeral_decimalText n).value

end MOKernel
