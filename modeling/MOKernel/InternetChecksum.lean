import MOKernel.Checksum
import MOKernel.NetStack

/-!
# The Internet checksum

`internetChecksum` is the checksum as networks define it: the complement of the
one's complement sum of the big-endian words, an odd last byte padded with zero
on the right.  `ip_checksum` adds little-endian words and defers the carries;
stored in memory the two give the same bytes (`ipChecksum_refines`).  The reason is
that swapping the bytes of a word multiplies it by 256 modulo 65535, and that the
two zeros of that modulus are kept apart on both sides.

`ipChecksum_fill`: a checksum stored at any even offset of a buffer verifies.
-/

namespace MOKernel

/-! ## One's complement addition -/

/-- Add two words and add the carry back in. -/
def onesAdd (x y : UInt16) : UInt16 :=
  UInt16.ofNat ((x.toNat + y.toNat) % 65536 + (x.toNat + y.toNat) / 65536)

/-- The one's complement sum of the big-endian words of a buffer. -/
def onesSum (sum : UInt16) : List UInt8 → UInt16
  | a :: b :: rest => onesSum (onesAdd sum (ofLe16 b a)) rest
  | [a] => onesAdd sum (ofLe16 0 a)
  | [] => sum

def internetChecksum (data : List UInt8) : UInt16 := ~~~ onesSum 0 data

/-- The sum of the big-endian words, without a width. -/
def wordSumBe : List UInt8 → Nat
  | a :: b :: rest => 256 * a.toNat + b.toNat + wordSumBe rest
  | [a] => 256 * a.toNat
  | [] => 0

theorem toNat_onesAdd (x y : UInt16) :
    (onesAdd x y).toNat = endAround 65536 (x.toNat + y.toNat) := by
  have lx := x.toNat_lt
  have ly := y.toNat_lt
  have digit : (x.toNat + y.toNat) % 65536 + (x.toNat + y.toNat) / 65536 < 65536 := by omega
  have folded : endAround 65536 (x.toNat + y.toNat) =
      (x.toNat + y.toNat) % 65536 + (x.toNat + y.toNat) / 65536 := by
    rcases Nat.lt_or_ge (x.toNat + y.toNat) 65536 with small | large
    · rw [endAround_of_lt small]
      omega
    · rw [endAround_step (by decide) large, endAround_of_lt digit]
  rw [onesAdd, UInt16.toNat_ofNat', Nat.mod_eq_of_lt digit, folded]

/-- Carries added at every step come to the same as carries folded at the end. -/
theorem toNat_onesSum (sum : UInt16) (data : List UInt8) :
    (onesSum sum data).toNat = endAround 65536 (sum.toNat + wordSumBe data) := by
  fun_induction onesSum sum data with
  | case1 sum a b rest ih =>
    rw [ih, toNat_onesAdd, endAround_endAround_add (by decide), toNat_ofLe16, wordSumBe]
    congr 1
    omega
  | case2 sum a =>
    rw [toNat_onesAdd, toNat_ofLe16, wordSumBe]
    simp
  | case3 sum => rw [wordSumBe, Nat.add_zero, endAround_of_lt sum.toNat_lt]

/-! ## Both byte orders -/

/-- Reading the words the other way round multiplies the sum by 256. -/
theorem wordSumBe_modEq (data : List UInt8) :
    wordSumBe data ≡ 256 * wordSum data [MOD 65535] := by
  fun_induction wordSum data with
  | case1 a b rest ih =>
    have word : 256 * a.toNat + b.toNat ≡ 256 * (a.toNat + 256 * b.toNat) [MOD 65535] := by
      refine (Nat.modEq_iff_dvd' (by omega)).mpr ⟨b.toNat, ?_⟩
      omega
    calc wordSumBe (a :: b :: rest) = 256 * a.toNat + b.toNat + wordSumBe rest := rfl
      _ ≡ 256 * (a.toNat + 256 * b.toNat) + 256 * wordSum rest [MOD 65535] := word.add ih
      _ = 256 * (a.toNat + 256 * b.toNat + wordSum rest) := by ring
  | case2 a => rfl
  | case3 => rfl

theorem wordSumBe_eq_zero_iff (data : List UInt8) : wordSumBe data = 0 ↔ wordSum data = 0 := by
  fun_induction wordSum data with
  | case1 a b rest ih =>
    rw [wordSumBe]
    omega
  | case2 a => simp [wordSumBe]
  | case3 => simp [wordSumBe]

/-- The two folded sums have each other's bytes. -/
theorem endAround_wordSumBe (data : List UInt8) :
    endAround 65536 (wordSumBe data) =
      endAround 65536 (wordSum data) / 256 + 256 * (endAround 65536 (wordSum data) % 256) := by
  set folded := endAround 65536 (wordSum data) with foldedEq
  have digit : folded < 65536 := endAround_lt (by decide) _
  have zero : folded = 0 ↔ wordSum data = 0 := endAround_eq_zero_iff (by decide) _
  apply endAround_unique (by decide)
  · omega
  · -- `256 * folded` has the same residue as the swapped bytes of `folded`
    have swap : folded / 256 + 256 * (folded % 256) ≡ 256 * folded [MOD 65535] := by
      refine (Nat.modEq_iff_dvd' (by omega)).mpr ⟨folded / 256, ?_⟩
      omega
    calc folded / 256 + 256 * (folded % 256) ≡ 256 * folded [MOD 65535] := swap
      _ ≡ 256 * wordSum data [MOD 65535] := (endAround_modEq (by decide) _).mul_left 256
      _ ≡ wordSumBe data [MOD 65535] := (wordSumBe_modEq data).symm
  · rw [wordSumBe_eq_zero_iff, ← zero]
    omega

/-- Within the length an `u16` can give, the code's checksum has the bytes of the
reference in the other order. -/
theorem ipChecksum_eq_htons {data : List UInt8} (short : data.length < 65536) :
    ipChecksum data = htons (internetChecksum data) := by
  set folded := endAround 65536 (wordSum data) with foldedEq
  have digit : folded < 65536 := endAround_lt (by decide) _
  have reference : (internetChecksum data).toNat =
      65535 - (folded / 256 + 256 * (folded % 256)) := by
    rw [internetChecksum, UInt16.toNat_not, toNat_onesSum, UInt16.toNat_zero, Nat.zero_add,
      endAround_wordSumBe, ← foldedEq]
    norm_num [UInt16.size]
  apply UInt16.toNat_inj.mp
  rw [toNat_ipChecksum short, ← foldedEq, toNat_htons, reference]
  omega

/-! ## The fold loop -/

/-- The body of the fold loop. -/
def foldCarry (sum : UInt32) : UInt32 := (sum &&& (0xFFFF : UInt32)) + (sum >>> 16)

/-- One fold adds without overflow. -/
theorem toNat_foldCarry (sum : UInt32) :
    (foldCarry sum).toNat = sum.toNat % 65536 + sum.toNat / 65536 := by
  have lt := sum.toNat_lt
  have low : sum.toNat &&& 65535 = sum.toNat % 65536 := Nat.and_two_pow_sub_one_eq_mod _ 16
  simp only [foldCarry, UInt32.toNat_add, UInt32.toNat_and, UInt32.toNat_shiftRight,
    UInt32.reduceToNat, Nat.reduceMod, Nat.reducePow, Nat.shiftRight_eq_div_pow, low]
  rw [Nat.mod_eq_of_lt (by omega)]

theorem shiftRight_eq_zero_iff (sum : UInt32) : sum >>> 16 = 0 ↔ sum.toNat < 65536 := by
  rw [← UInt32.toNat_inj]
  simp only [UInt32.toNat_shiftRight, UInt32.reduceToNat, Nat.reduceMod, Nat.reducePow,
    Nat.shiftRight_eq_div_pow]
  omega

theorem foldCarries_of_done {sum : UInt32} (done : sum >>> 16 = 0) : foldCarries sum = sum := by
  rw [foldCarries, dif_neg (not_not.mpr done)]

theorem foldCarries_step {sum : UInt32} (more : sum >>> 16 ≠ 0) :
    foldCarries sum = foldCarries (foldCarry sum) := by
  rw [foldCarries, dif_pos more, foldCarry]

/-- Two folds empty the upper half of any accumulator. -/
theorem foldCarry_twice (sum : UInt32) : foldCarry (foldCarry sum) >>> 16 = 0 := by
  have lt := sum.toNat_lt
  rw [shiftRight_eq_zero_iff, toNat_foldCarry, toNat_foldCarry]
  omega

/-- The loop leaves after at most two rounds. -/
theorem foldCarries_rounds (sum : UInt32) :
    ∃ rounds ≤ 2, foldCarries sum = foldCarry^[rounds] sum ∧ foldCarry^[rounds] sum >>> 16 = 0 := by
  rcases eq_or_ne (sum >>> 16) 0 with done | more
  · exact ⟨0, by decide, foldCarries_of_done done, done⟩
  rcases eq_or_ne (foldCarry sum >>> 16) 0 with done | more'
  · refine ⟨1, by decide, ?_, done⟩
    rw [foldCarries_step more, foldCarries_of_done done, Function.iterate_one]
  · refine ⟨2, le_rfl, ?_, foldCarry_twice sum⟩
    rw [foldCarries_step more, foldCarries_step more', foldCarries_of_done (foldCarry_twice sum)]
    rfl

/-! ## The refinement -/

/-- The accumulator is exact after every word of a buffer an `u16` length can give. -/
theorem sumWords_exact {data : List UInt8} (short : data.length ≤ 65535) (words : Nat) :
    (sumWords 0 (data.take (2 * words))).toNat = wordSum (data.take (2 * words)) := by
  have prefixShort : (data.take (2 * words)).length < 65536 := by
    rw [List.length_take]
    omega
  rw [toNat_sumWords, UInt32.toNat_zero, Nat.zero_add,
    Nat.mod_eq_of_lt (length_bound_wordSum prefixShort)]

/-- **`ip_checksum` is the Internet checksum.**  Stored little-endian it has the
bytes of the big-endian checksum; the accumulator never wraps, neither while adding
nor while folding, and the fold loop ends. -/
theorem ipChecksum_refines (data : List UInt8) (short : data.length ≤ 65535) :
    le16 (ipChecksum data) = be16 (internetChecksum data) ∧
      (∀ words, (sumWords 0 (data.take (2 * words))).toNat = wordSum (data.take (2 * words))) ∧
      (sumWords 0 data).toNat = wordSum data ∧
      (∀ sum, (foldCarry sum).toNat = sum.toNat % 65536 + sum.toNat / 65536) ∧
      ∃ rounds, foldCarries (sumWords 0 data) = foldCarry^[rounds] (sumWords 0 data) ∧
        foldCarry^[rounds] (sumWords 0 data) >>> 16 = 0 := by
  refine ⟨?_, sumWords_exact short, ?_, toNat_foldCarry, ?_⟩
  · rw [ipChecksum_eq_htons (Nat.lt_succ_of_le short), le16_htons]
  · have whole := sumWords_exact short data.length
    rwa [List.take_of_length_le (by omega)] at whole
  · obtain ⟨rounds, -, result, done⟩ := foldCarries_rounds (sumWords 0 data)
    exact ⟨rounds, result, done⟩

theorem ipChecksum_refines_odd :
    le16 (ipChecksum [0x45, 0x00, 0xFF]) = be16 (internetChecksum [0x45, 0x00, 0xFF]) :=
  (ipChecksum_refines [0x45, 0x00, 0xFF] (by decide)).1

/-! ## Filling in a checksum -/

/-- A stored field lies between what was before and behind it. -/
theorem storeU16_eq_append {buf : List UInt8} {off : Nat} (fits : off + 2 ≤ buf.length)
    (w : UInt16) : storeU16 buf off w = buf.take off ++ le16 w ++ buf.drop (off + 2) := by
  have front : (buf.take off).length = off := by
    rw [List.length_take]
    omega
  have field : buf.drop off = buf[off] :: buf[off + 1] :: buf.drop (off + 2) := by
    rw [List.drop_eq_getElem_cons (by omega), List.drop_eq_getElem_cons (by omega)]
  have offsets : off + 1 - off = 1 := by omega
  conv_lhs => rw [storeU16, ← List.take_append_drop off buf]
  rw [List.set_append_right _ _ front.le, List.set_append_right _ _ (by omega), front, field,
    Nat.sub_self, offsets]
  simp only [List.set_cons_zero, List.set_cons_succ, le16, List.append_assoc, List.cons_append,
    List.nil_append]

theorem length_storeU16 (buf : List UInt8) (off : Nat) (w : UInt16) :
    (storeU16 buf off w).length = buf.length := by
  simp [storeU16]

/-- **A filled-in checksum verifies.**  The field at an even offset is cleared, the
checksum of the buffer stored there, and the result sums to zero. -/
theorem ipChecksum_fill (buf : List UInt8) (k : Nat) (even : k % 2 = 0)
    (fits : k + 2 ≤ buf.length) (short : buf.length ≤ 65535) :
    ipChecksum (storeU16 (storeU16 buf k 0) k (ipChecksum (storeU16 buf k 0))) = 0 := by
  have cleared : storeU16 buf k 0 = buf.take k ++ [0, 0] ++ buf.drop (k + 2) :=
    storeU16_eq_append fits 0
  have front : (buf.take k).length = k := by
    rw [List.length_take]
    omega
  have length : (buf.take k ++ [0, 0] ++ buf.drop (k + 2)).length < 65536 := by
    rw [← cleared, length_storeU16]
    omega
  -- the second store overwrites the two zeros and nothing else
  have stored (w : UInt16) :
      storeU16 (storeU16 buf k 0) k w = buf.take k ++ le16 w ++ buf.drop (k + 2) := by
    have before : (storeU16 buf k 0).take k = buf.take k := by
      rw [cleared, List.append_assoc, List.take_left' front]
    have behind : (storeU16 buf k 0).drop (k + 2) = buf.drop (k + 2) := by
      rw [cleared, List.drop_left' (by rw [List.length_append, front]; rfl)]
    rw [storeU16_eq_append (by rwa [length_storeU16]), before, behind]
  rw [stored, cleared]
  exact checksum_verifies (by rwa [front]) length

theorem ipChecksum_fill_zeros :
    ipChecksum (storeU16 (storeU16 [0, 0, 0] 0 0) 0 (ipChecksum (storeU16 [0, 0, 0] 0 0))) = 0 :=
  ipChecksum_fill [0, 0, 0] 0 rfl (by decide) (by decide)

end MOKernel
