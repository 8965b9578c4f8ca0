import Mathlib

/-!
# Byte order

The machine is little-endian: a 16-bit or 32-bit word is stored low byte first
(`le16`, `le32`) and loaded the same way (`ofLe16`, `ofLe32`).  `htons` and `htonl`
reverse the bytes of a word, so a converted word lies in memory in network order.
-/

namespace MOKernel

def htons (h : UInt16) : UInt16 := (h >>> 8) ||| (h <<< 8)

def ntohs (n : UInt16) : UInt16 := htons n

def htonl (h : UInt32) : UInt32 :=
  ((h &&& 0xFF000000) >>> 24) ||| ((h &&& 0x00FF0000) >>> 8) |||
    ((h &&& 0x0000FF00) <<< 8) ||| ((h &&& 0x000000FF) <<< 24)

def ntohl (n : UInt32) : UInt32 := htonl n

/-- The 16-bit word whose bytes in memory are `a`, `b`. -/
def ofLe16 (a b : UInt8) : UInt16 := a.toUInt16 ||| (b.toUInt16 <<< 8)

/-- The 32-bit word whose bytes in memory are `a`, `b`, `c`, `d`. -/
def ofLe32 (a b c d : UInt8) : UInt32 :=
  a.toUInt32 ||| (b.toUInt32 <<< 8) ||| (c.toUInt32 <<< 16) ||| (d.toUInt32 <<< 24)

def le16 (w : UInt16) : List UInt8 := [w.toUInt8, (w >>> 8).toUInt8]

def le32 (w : UInt32) : List UInt8 :=
  [w.toUInt8, (w >>> 8).toUInt8, (w >>> 16).toUInt8, (w >>> 24).toUInt8]

/-- A 16-bit word in network order. -/
def be16 (w : UInt16) : List UInt8 := [(w >>> 8).toUInt8, w.toUInt8]

@[simp] theorem length_le16 (w : UInt16) : (le16 w).length = 2 := rfl

@[simp] theorem length_le32 (w : UInt32) : (le32 w).length = 4 := rfl

/-! ## Values -/

/-- Disjoint bits: a shifted word or a word below the shift is their sum. -/
theorem or_shiftLeft_eq_add {a b k : Nat} (lt : a < 2 ^ k) : a ||| b <<< k = a + 2 ^ k * b := by
  rw [Nat.or_comm, ← Nat.shiftLeft_add_eq_or_of_lt lt, Nat.shiftLeft_eq]
  ring

/-- The `n` bits from bit `k` on, masked. -/
theorem and_mask_shiftLeft (x n k : Nat) :
    x &&& (2 ^ n - 1) <<< k = (x / 2 ^ k % 2 ^ n) <<< k := by
  rw [← Nat.shiftRight_eq_div_pow, ← Nat.and_two_pow_sub_one_eq_mod, Nat.shiftLeft_and_distrib]
  refine Nat.eq_of_testBit_eq fun i => ?_
  simp only [Nat.testBit_and, Nat.testBit_shiftLeft, Nat.testBit_shiftRight]
  rcases Nat.lt_or_ge i k with below | above
  · simp [Nat.not_le.mpr below]
  · simp [above, Nat.add_sub_cancel' above]

theorem toNat_ofLe16 (a b : UInt8) : (ofLe16 a b).toNat = a.toNat + 256 * b.toNat := by
  have la := a.toNat_lt
  have lb := b.toNat_lt
  have high : b.toNat <<< 8 % 65536 = b.toNat <<< 8 :=
    Nat.mod_eq_of_lt (by rw [Nat.shiftLeft_eq]; omega)
  simp only [ofLe16, UInt16.toNat_or, UInt8.toNat_toUInt16, UInt16.toNat_shiftLeft,
    UInt16.reduceToNat, Nat.reduceMod, Nat.reducePow, high]
  exact or_shiftLeft_eq_add la

theorem toNat_ofLe32 (a b c d : UInt8) :
    (ofLe32 a b c d).toNat =
      a.toNat + 256 * b.toNat + 65536 * c.toNat + 16777216 * d.toNat := by
  have la := a.toNat_lt
  have lb := b.toNat_lt
  have lc := c.toNat_lt
  have ld := d.toNat_lt
  have shift {x k : Nat} (lt : x * 2 ^ k < 4294967296) : x <<< k % 4294967296 = x <<< k :=
    Nat.mod_eq_of_lt (by rwa [Nat.shiftLeft_eq])
  simp only [ofLe32, UInt32.toNat_or, UInt8.toNat_toUInt32, UInt32.toNat_shiftLeft,
    UInt32.reduceToNat, Nat.reduceMod, Nat.reducePow]
  have two : a.toNat ||| b.toNat <<< 8 = a.toNat + 256 * b.toNat := or_shiftLeft_eq_add la
  have three : a.toNat + 256 * b.toNat ||| c.toNat <<< 16 =
      a.toNat + 256 * b.toNat + 65536 * c.toNat := or_shiftLeft_eq_add (by omega)
  have four : a.toNat + 256 * b.toNat + 65536 * c.toNat ||| d.toNat <<< 24 =
      a.toNat + 256 * b.toNat + 65536 * c.toNat + 16777216 * d.toNat :=
    or_shiftLeft_eq_add (by omega)
  rw [shift (by omega), shift (by omega), shift (by omega), two, three, four]

/-- A stored 16-bit word loads back. -/
@[simp] theorem ofLe16_le16 (w : UInt16) : ofLe16 w.toUInt8 (w >>> 8).toUInt8 = w := by
  apply UInt16.toNat_inj.mp
  have lt := w.toNat_lt
  simp only [toNat_ofLe16, UInt16.toNat_toUInt8, UInt16.toNat_shiftRight, UInt16.reduceToNat,
    Nat.reduceMod, Nat.reducePow, Nat.shiftRight_eq_div_pow]
  omega

/-- A stored 32-bit word loads back. -/
@[simp] theorem ofLe32_le32 (w : UInt32) :
    ofLe32 w.toUInt8 (w >>> 8).toUInt8 (w >>> 16).toUInt8 (w >>> 24).toUInt8 = w := by
  apply UInt32.toNat_inj.mp
  have lt := w.toNat_lt
  simp only [toNat_ofLe32, UInt32.toNat_toUInt8, UInt32.toNat_shiftRight, UInt32.reduceToNat,
    Nat.reduceMod, Nat.reducePow, Nat.shiftRight_eq_div_pow]
  omega

/-! ## Conversions reverse the bytes -/

theorem htons_ofLe16 (a b : UInt8) : htons (ofLe16 a b) = ofLe16 b a := by
  have la := a.toNat_lt
  have lb := b.toNat_lt
  have word := toNat_ofLe16 a b
  have high : ofLe16 a b >>> 8 = b.toUInt16 := by
    apply UInt16.toNat_inj.mp
    simp only [UInt16.toNat_shiftRight, UInt16.reduceToNat, Nat.reduceMod,
      Nat.shiftRight_eq_div_pow, Nat.reducePow, UInt8.toNat_toUInt16, word]
    omega
  have low : ofLe16 a b <<< 8 = a.toUInt16 <<< 8 := by
    apply UInt16.toNat_inj.mp
    simp only [UInt16.toNat_shiftLeft, UInt16.reduceToNat, Nat.reduceMod, Nat.shiftLeft_eq,
      Nat.reducePow, UInt8.toNat_toUInt16, word]
    omega
  rw [htons, high, low, ofLe16]

theorem htonl_ofLe32 (a b c d : UInt8) : htonl (ofLe32 a b c d) = ofLe32 d c b a := by
  have la := a.toNat_lt
  have lb := b.toNat_lt
  have lc := c.toNat_lt
  have ld := d.toNat_lt
  have word := toNat_ofLe32 a b c d
  have byte {mask : UInt32} {v k : Nat} (bits : mask.toNat = (2 ^ 8 - 1) <<< k)
      (value : (ofLe32 a b c d).toNat / 2 ^ k % 2 ^ 8 = v) :
      (ofLe32 a b c d &&& mask).toNat = v * 2 ^ k := by
    rw [UInt32.toNat_and, bits, and_mask_shiftLeft, value, Nat.shiftLeft_eq]
  have top : (ofLe32 a b c d &&& 0xFF000000) >>> 24 = d.toUInt32 := by
    apply UInt32.toNat_inj.mp
    rw [UInt32.toNat_shiftRight, byte (v := d.toNat) (k := 24) rfl (by rw [word]; omega),
      Nat.shiftRight_eq_div_pow, UInt8.toNat_toUInt32]
    simp only [UInt32.reduceToNat, Nat.reduceMod, Nat.reducePow]
    omega
  have third : (ofLe32 a b c d &&& 0x00FF0000) >>> 8 = c.toUInt32 <<< 8 := by
    apply UInt32.toNat_inj.mp
    rw [UInt32.toNat_shiftRight, byte (v := c.toNat) (k := 16) rfl (by rw [word]; omega),
      Nat.shiftRight_eq_div_pow, UInt32.toNat_shiftLeft, Nat.shiftLeft_eq, UInt8.toNat_toUInt32]
    simp only [UInt32.reduceToNat, Nat.reduceMod, Nat.reducePow]
    omega
  have second : (ofLe32 a b c d &&& 0x0000FF00) <<< 8 = b.toUInt32 <<< 16 := by
    apply UInt32.toNat_inj.mp
    rw [UInt32.toNat_shiftLeft, byte (v := b.toNat) (k := 8) rfl (by rw [word]; omega),
      UInt32.toNat_shiftLeft, Nat.shiftLeft_eq, Nat.shiftLeft_eq, UInt8.toNat_toUInt32]
    simp only [UInt32.reduceToNat, Nat.reduceMod, Nat.reducePow]
    omega
  have low : (ofLe32 a b c d &&& 0x000000FF) <<< 24 = a.toUInt32 <<< 24 := by
    apply UInt32.toNat_inj.mp
    rw [UInt32.toNat_shiftLeft, byte (v := a.toNat) (k := 0) rfl (by rw [word]; omega),
      UInt32.toNat_shiftLeft, Nat.shiftLeft_eq, Nat.shiftLeft_eq, UInt8.toNat_toUInt32]
    simp only [UInt32.reduceToNat, Nat.reduceMod, Nat.reducePow]
    omega
  rw [htonl, top, third, second, low, ofLe32]

theorem toNat_htons (w : UInt16) : (htons w).toNat = w.toNat / 256 + 256 * (w.toNat % 256) := by
  have lt := w.toNat_lt
  conv_lhs => rw [← ofLe16_le16 w, htons_ofLe16, toNat_ofLe16]
  simp only [UInt16.toNat_toUInt8, UInt16.toNat_shiftRight, UInt16.reduceToNat, Nat.reduceMod,
    Nat.reducePow, Nat.shiftRight_eq_div_pow]
  omega

@[simp] theorem ntohs_htons (w : UInt16) : ntohs (htons w) = w := by
  rw [ntohs, ← ofLe16_le16 w, htons_ofLe16, htons_ofLe16]

@[simp] theorem ntohl_htonl (w : UInt32) : ntohl (htonl w) = w := by
  rw [ntohl, ← ofLe32_le32 w, htonl_ofLe32, htonl_ofLe32]

@[simp] theorem htonl_ntohl (w : UInt32) : htonl (ntohl w) = w := ntohl_htonl w

theorem le16_ofLe16 (a b : UInt8) : le16 (ofLe16 a b) = [a, b] := by
  have la := a.toNat_lt
  have lb := b.toNat_lt
  have low : (ofLe16 a b).toUInt8 = a := by
    apply UInt8.toNat_inj.mp
    rw [UInt16.toNat_toUInt8, toNat_ofLe16]
    omega
  have high : (ofLe16 a b >>> 8).toUInt8 = b := by
    apply UInt8.toNat_inj.mp
    simp only [UInt16.toNat_toUInt8, UInt16.toNat_shiftRight, UInt16.reduceToNat, Nat.reduceMod,
      Nat.reducePow, Nat.shiftRight_eq_div_pow, toNat_ofLe16]
    omega
  rw [le16, low, high]

theorem le32_ofLe32 (a b c d : UInt8) : le32 (ofLe32 a b c d) = [a, b, c, d] := by
  have la := a.toNat_lt
  have lb := b.toNat_lt
  have lc := c.toNat_lt
  have ld := d.toNat_lt
  have byte {e : UInt8} {k : UInt32} (value : (ofLe32 a b c d).toNat / 2 ^ (k.toNat % 32) % 256 =
      e.toNat) : (ofLe32 a b c d >>> k).toUInt8 = e := by
    apply UInt8.toNat_inj.mp
    rw [UInt32.toNat_toUInt8, UInt32.toNat_shiftRight, Nat.shiftRight_eq_div_pow]
    exact value
  have first : (ofLe32 a b c d).toUInt8 = a := by
    apply UInt8.toNat_inj.mp
    rw [UInt32.toNat_toUInt8, toNat_ofLe32]
    omega
  unfold le32
  rw [toNat_ofLe32] at byte
  rw [first, byte (e := b) (k := 8) ?_, byte (e := c) (k := 16) ?_, byte (e := d) (k := 24) ?_]
  all_goals simp only [UInt32.reduceToNat, Nat.reduceMod, Nat.reducePow]; omega

/-- A converted word is stored in network order. -/
theorem le16_htons (w : UInt16) : le16 (htons w) = be16 w := by
  conv_lhs => rw [← ofLe16_le16 w, htons_ofLe16, le16_ofLe16]
  rfl

end MOKernel
