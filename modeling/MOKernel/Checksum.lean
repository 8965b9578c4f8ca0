import MOKernel.ByteOrder
import MOKernel.EndAroundCarry

/-!
# The IP checksum

`ip_checksum` adds the little-endian 16-bit words of a buffer in a 32-bit
accumulator, folds the carries and complements.  `wordSum` is the sum without a
width; on buffers of at most 65535 bytes the accumulator holds it exactly, so
the result is the complement of its end-around fold (`toNat_ipChecksum`).
`checksum_verifies`: a buffer whose checksum field was zero verifies after the
checksum is stored there.
-/

namespace MOKernel

/-- The accumulation loop; an odd last byte is added as it is. -/
def sumWords (sum : UInt32) : List UInt8 → UInt32
  | a :: b :: rest => sumWords (sum + (ofLe16 a b).toUInt32) rest
  | [a] => sum + a.toUInt32
  | [] => sum

/-- `while (sum >> 16) sum = (sum & 0xFFFF) + (sum >> 16);` -/
def foldCarries (sum : UInt32) : UInt32 :=
  if _carry : sum >>> 16 ≠ 0 then foldCarries ((sum &&& (0xFFFF : UInt32)) + (sum >>> 16))
  else sum
termination_by sum.toNat
decreasing_by
  have high : sum.toNat / 65536 ≠ 0 := by
    intro zero
    apply _carry
    apply UInt32.toNat_inj.mp
    simpa [Nat.shiftRight_eq_div_pow] using zero
  have lt := sum.toNat_lt
  have low : sum.toNat &&& 65535 = sum.toNat % 65536 := Nat.and_two_pow_sub_one_eq_mod _ 16
  simp only [UInt32.toNat_add, UInt32.toNat_and, UInt32.toNat_shiftRight, UInt32.reduceToNat,
    Nat.reduceMod, Nat.reducePow, Nat.shiftRight_eq_div_pow, low]
  rw [Nat.mod_eq_of_lt (by omega)]
  omega

/-- `ip_checksum`; the buffer's length is its `len` argument. -/
def ipChecksum (data : List UInt8) : UInt16 := (~~~ foldCarries (sumWords 0 data)).toUInt16

/-- The unbounded sum of the little-endian words. -/
def wordSum : List UInt8 → Nat
  | a :: b :: rest => a.toNat + 256 * b.toNat + wordSum rest
  | [a] => a.toNat
  | [] => 0

theorem wordSum_le (data : List UInt8) : wordSum data ≤ 65535 * ((data.length + 1) / 2) := by
  fun_induction wordSum data with
  | case1 a b rest ih =>
    have la := a.toNat_lt
    have lb := b.toNat_lt
    simp only [List.length_cons]
    omega
  | case2 a =>
    have la := a.toNat_lt
    simp only [List.length_singleton]
    omega
  | case3 => simp

theorem toNat_sumWords (sum : UInt32) (data : List UInt8) :
    (sumWords sum data).toNat = (sum.toNat + wordSum data) % 4294967296 := by
  fun_induction sumWords sum data with
  | case1 sum a b rest ih =>
    rw [ih, wordSum, UInt32.toNat_add, UInt16.toNat_toUInt32, toNat_ofLe16]
    omega
  | case2 sum a => simp [wordSum]
  | case3 sum => simp [wordSum, Nat.mod_eq_of_lt sum.toNat_lt]

theorem toNat_foldCarries (sum : UInt32) :
    (foldCarries sum).toNat = endAround 65536 sum.toNat := by
  fun_induction foldCarries sum with
  | case1 sum carry ih =>
    have high : 65536 ≤ sum.toNat := by
      by_contra small
      apply carry
      apply UInt32.toNat_inj.mp
      simp [Nat.shiftRight_eq_div_pow]
      omega
    have lt := sum.toNat_lt
    have low : sum.toNat &&& 65535 = sum.toNat % 65536 := Nat.and_two_pow_sub_one_eq_mod _ 16
    rw [ih, endAround_step (by decide) high]
    simp only [UInt32.toNat_add, UInt32.toNat_and, UInt32.toNat_shiftRight, UInt32.reduceToNat,
      Nat.reduceMod, Nat.reducePow, Nat.shiftRight_eq_div_pow, low]
    rw [Nat.mod_eq_of_lt (by omega)]
  | case2 sum stop =>
    have small : sum.toNat < 65536 := by
      have zero := congrArg UInt32.toNat (not_not.mp stop)
      simp [Nat.shiftRight_eq_div_pow] at zero
      omega
    rw [endAround_of_lt small]

theorem length_bound_wordSum {data : List UInt8} (short : data.length < 65536) :
    wordSum data < 4294967296 := by
  have le := wordSum_le data
  omega

/-- The checksum is the complement of the end-around fold of the words. -/
theorem toNat_ipChecksum {data : List UInt8} (short : data.length < 65536) :
    (ipChecksum data).toNat = 65535 - endAround 65536 (wordSum data) := by
  have digit := endAround_lt (B := 65536) (by decide) (wordSum data)
  have total : (foldCarries (sumWords 0 data)).toNat = endAround 65536 (wordSum data) := by
    rw [toNat_foldCarries, toNat_sumWords]
    simp [Nat.mod_eq_of_lt (length_bound_wordSum short)]
  simp only [ipChecksum, UInt32.toNat_toUInt16, UInt32.toNat_not, total]
  norm_num [UInt32.size]
  omega

/-- A buffer verifies when its words fold to the all-ones digit. -/
theorem ipChecksum_eq_zero_iff {data : List UInt8} (short : data.length < 65536) :
    ipChecksum data = 0 ↔ endAround 65536 (wordSum data) = 65535 := by
  have digit := endAround_lt (B := 65536) (by decide) (wordSum data)
  rw [← UInt16.toNat_inj, toNat_ipChecksum short]
  simp only [UInt16.toNat_zero]
  omega

/-! ## Storing the checksum -/

/-- Words add up over a prefix of even length. -/
theorem wordSum_append {front : List UInt8} (even : front.length % 2 = 0) (back : List UInt8) :
    wordSum (front ++ back) = wordSum front + wordSum back := by
  fun_induction wordSum front with
  | case1 a b rest ih =>
    simp only [List.length_cons] at even
    simp only [List.cons_append, wordSum, ih (by omega)]
    omega
  | case2 a => simp at even
  | case3 => simp

/-- **Filling in the checksum.**  A buffer with two zero bytes at an even position
verifies after the checksum is stored over them. -/
theorem checksum_verifies {front back : List UInt8} (even : front.length % 2 = 0)
    (short : (front ++ [0, 0] ++ back).length < 65536) :
    ipChecksum (front ++ le16 (ipChecksum (front ++ [0, 0] ++ back)) ++ back) = 0 := by
  set sum := ipChecksum (front ++ [0, 0] ++ back) with sumEq
  have value : sum.toNat = 65535 - endAround 65536 (wordSum front + wordSum back) := by
    rw [sumEq, toNat_ipChecksum short, List.append_assoc, wordSum_append even]
    simp [wordSum]
  have stored : wordSum (front ++ le16 sum ++ back) =
      wordSum front + wordSum back + sum.toNat := by
    have word := congrArg UInt16.toNat (ofLe16_le16 sum)
    rw [toNat_ofLe16] at word
    rw [List.append_assoc, wordSum_append even]
    simp only [le16, List.cons_append, List.nil_append, wordSum]
    omega
  have short' : (front ++ le16 sum ++ back).length < 65536 := by
    simp only [List.length_append, List.length_cons, List.length_nil, length_le16] at short ⊢
    exact short
  rw [ipChecksum_eq_zero_iff short', stored, value]
  exact endAround_add_complement (by decide) _

end MOKernel
