import MOKernel.ParseIp

/-!
# Printed numbers

`kprint_dec` of `net.c` and `kprint_hex` of `kernel.c` with their buffers.  Both take the
digits of a number from its low end into an array and give them out from the other side.
An access behind the end of an array is `none`, so a result says that there was none; what
the arrays hold before is arbitrary.
-/

namespace MOKernel

/-! ## Arrays being filled -/

/-- A `char` array and the index of its first free byte. -/
structure CharBuf (n : Nat) where
  bytes : Vector UInt8 n
  idx : Nat
  inside : idx ≤ n

variable {n m : Nat}

namespace CharBuf

def start (bytes : Vector UInt8 n) : CharBuf n := ⟨bytes, 0, n.zero_le⟩

/-- `buf[idx++] = c;` -/
def put (buf : CharBuf n) (c : UInt8) : Option (CharBuf n) :=
  if room : buf.idx < n then some ⟨buf.bytes.set buf.idx c, buf.idx + 1, room⟩ else none

/-- The bytes stored so far. -/
def filled (buf : CharBuf n) : List UInt8 := buf.bytes.toList.take buf.idx

@[simp] theorem filled_start (bytes : Vector UInt8 n) : (start bytes).filled = [] := rfl

@[simp] theorem length_filled (buf : CharBuf n) : buf.filled.length = buf.idx := by
  simp [filled, buf.inside]

theorem idx_eq {buf : CharBuf n} {s : List UInt8} (filled : buf.filled = s) :
    buf.idx = s.length := by
  rw [← filled, length_filled]

theorem filled_set (buf : CharBuf n) (c : UInt8) (room : buf.idx < n) :
    (CharBuf.mk (buf.bytes.set buf.idx c) (buf.idx + 1) room).filled = buf.filled ++ [c] :=
  take_set_succ buf.bytes c room

theorem put_of_room {buf : CharBuf n} (room : buf.idx < n) (c : UInt8) :
    ∃ buf', buf.put c = some buf' ∧ buf'.filled = buf.filled ++ [c] :=
  ⟨_, dif_pos room, filled_set buf c room⟩

end CharBuf

/-- `while (v) { buf[idx++] = low(v); v = next(v); }` -/
def fillDigits (low : UInt32 → UInt8) (next : UInt32 → UInt32) (buf : CharBuf n) (v : UInt32) :
    Option (CharBuf n) :=
  if v ≠ 0 then
    if room : buf.idx < n then
      fillDigits low next ⟨buf.bytes.set buf.idx (low v), buf.idx + 1, room⟩ (next v)
    else none
  else some buf
termination_by n - buf.idx

/-- `while (i--) { char s[2] = {buf[i], '\0'}; kprint(s); }` -/
def emitBack (bytes : Vector UInt8 n) : Nat → Option (List UInt8)
  | 0 => some []
  | i + 1 => do
    let c ← bytes[i]?
    let rest ← emitBack bytes i
    pure (cstr [c, 0] ++ rest)

/-- `while(temp_idx > 0) { buf[idx++] = temp_buf[--temp_idx]; }` -/
def copyBack (bytes : Vector UInt8 n) (buf : CharBuf m) : Nat → Option (CharBuf m)
  | 0 => some buf
  | i + 1 => do
    let c ← bytes[i]?
    let buf ← buf.put c
    copyBack bytes buf i

/-! ## The two functions -/

/-- `kprint_dec`: the characters it prints, with the array it is given. -/
def kprintDecIn (buf : Vector UInt8 12) (v : UInt32) : Option (List UInt8) :=
  if v = 0 then some (ascii "0")
  else do
    let out ← fillDigits (fun v => (48 + v % 10).toUInt8) (fun v => v / 10) (.start buf) v
    emitBack out.bytes out.idx

def hexChar (nibble : UInt8) : UInt8 :=
  if nibble < 10 then nibble + 48 else nibble - 10 + 65

/-- The digits of `kprint_hex`, by way of `temp_buf`. -/
def putHex (tempBuf : Vector UInt8 16) (out : CharBuf 16) (val : UInt32) : Option (CharBuf 16) :=
  if val = 0 then out.put 48
  else do
    let temp ← fillDigits (fun temp => hexChar (temp &&& 0xF).toUInt8) (fun temp => temp >>> 4)
      (.start tempBuf) val
    copyBack temp.bytes out temp.idx

/-- `kprint_hex`, with its arrays `buf` and `temp_buf`. -/
def kprintHex (buf tempBuf : Vector UInt8 16) (val : UInt32) : Option (List UInt8) := do
  let out ← (CharBuf.start buf).put 48
  let out ← out.put 120
  let out ← putHex tempBuf out val
  let out ← out.put 0
  pure (cstr out.bytes.toList)

/-! ## The loops -/

/-- The digit loop stores the digits of the number, least significant first. -/
theorem fillDigits_spec {low : UInt32 → UInt8} {next : UInt32 → UInt32} {digit : Nat → UInt8}
    {b : Nat} (base : 1 < b) (low_eq : ∀ v, low v = digit (v.toNat % b))
    (next_eq : ∀ v, (next v).toNat = v.toNat / b) (buf : CharBuf n) (v : UInt32)
    (fits : buf.idx + (Nat.digits b v.toNat).length ≤ n) :
    ∃ buf', fillDigits low next buf v = some buf' ∧
      buf'.filled = buf.filled ++ (Nat.digits b v.toNat).map digit := by
  fun_induction fillDigits low next buf v with
  | case1 buf v more room ih =>
    have pos : 0 < v.toNat := Nat.pos_of_ne_zero (toNat_ne_zero more)
    rw [Nat.digits_def' base pos, List.length_cons, ← next_eq] at fits
    obtain ⟨buf', run, filled⟩ := ih (by simpa only [Nat.add_assoc, Nat.add_comm 1] using fits)
    refine ⟨buf', run, ?_⟩
    rw [filled, CharBuf.filled_set, Nat.digits_def' base pos, List.map_cons, ← next_eq, ← low_eq,
      List.append_assoc, List.singleton_append]
  | case2 buf v more full =>
    have pos : 0 < v.toNat := Nat.pos_of_ne_zero (toNat_ne_zero more)
    rw [Nat.digits_def' base pos, List.length_cons] at fits
    omega
  | case3 buf v stop =>
    obtain rfl : v = 0 := not_not.mp stop
    exact ⟨buf, rfl, by simp⟩

theorem take_toList_succ (bytes : Vector UInt8 n) {k : Nat} (lt : k < n) :
    bytes.toList.take (k + 1) = bytes.toList.take k ++ [bytes[k]] := by
  rw [List.take_succ_eq_append_getElem (by simpa using lt), Vector.getElem_toList]

/-- The bytes come out in reverse, one string of one character after the other. -/
theorem emitBack_spec (bytes : Vector UInt8 n) {k : Nat} (le : k ≤ n)
    (nulFree : (0 : UInt8) ∉ bytes.toList.take k) :
    emitBack bytes k = some (bytes.toList.take k).reverse := by
  induction k with
  | zero => rfl
  | succ k ih =>
    rw [take_toList_succ bytes le, List.mem_append, List.mem_singleton, not_or] at nulFree
    have alone : cstr [bytes[k], 0] = [bytes[k]] :=
      cstr_append_nul (s := [bytes[k]]) (by simpa using nulFree.2) []
    rw [emitBack, Vector.getElem?_eq_getElem le, ih (Nat.le_of_lt le) nulFree.1,
      take_toList_succ bytes le]
    simp [alone]

/-- The same into a second array. -/
theorem copyBack_spec (bytes : Vector UInt8 n) (buf : CharBuf m) {k : Nat} (le : k ≤ n)
    (fits : buf.idx + k ≤ m) :
    ∃ buf', copyBack bytes buf k = some buf' ∧
      buf'.filled = buf.filled ++ (bytes.toList.take k).reverse := by
  induction k generalizing buf with
  | zero => exact ⟨buf, rfl, by simp⟩
  | succ k ih =>
    obtain ⟨mid, put, filled⟩ :=
      CharBuf.put_of_room (show buf.idx < m by omega) bytes[k]
    have idx : mid.idx = buf.idx + 1 := by
      rw [CharBuf.idx_eq filled, List.length_append, buf.length_filled]
      rfl
    obtain ⟨buf', copied, filled'⟩ := ih mid (Nat.le_of_lt le) (by omega)
    refine ⟨buf', ?_, ?_⟩
    · rw [copyBack, Vector.getElem?_eq_getElem le]
      simp [put, copied]
    · rw [filled', filled, take_toList_succ bytes le]
      simp

/-! ## The digits -/

/-- The digits of every base up to 16, with capital letters. -/
def digitChars : List UInt8 := ascii "0123456789ABCDEF"

def digitChar (d : Nat) : UInt8 := digitChars.getD d 0

/-- The number a digit stands for. -/
def charDigit (c : UInt8) : Nat := digitChars.idxOf c

theorem charDigit_digitChar {b : Nat} (base : b ≤ 16) : ∀ d < b, charDigit (digitChar d) = d := by
  have all : ∀ d < 16, charDigit (digitChar d) = d := by decide
  exact fun d lt => all d (lt_of_lt_of_le lt base)

theorem digitChar_ne_nul {b : Nat} (base : b ≤ 16) : ∀ d < b, digitChar d ≠ 0 := by
  have all : ∀ d < 16, digitChar d ≠ 0 := by decide
  exact fun d lt => all d (lt_of_lt_of_le lt base)

/-- `'0' + (v % 10)` is the last digit in base 10. -/
theorem decChar_eq (v : UInt32) : (48 + v % 10).toUInt8 = digitChar (v.toNat % 10) := by
  have all : ∀ d < 10, UInt8.ofNat (48 + d) = digitChar d := by decide
  rw [toUInt8_lastDigit]
  exact all _ (Nat.mod_lt _ (by decide))

/-- The low four bits are the last digit in base 16. -/
theorem hexChar_eq (v : UInt32) : hexChar (v &&& 0xF).toUInt8 = digitChar (v.toNat % 16) := by
  have all : ∀ d < 16, hexChar (UInt8.ofNat d) = digitChar d := by decide
  have nibble : (v &&& 0xF).toUInt8 = UInt8.ofNat (v.toNat % 16) := by
    apply UInt8.toNat_inj.mp
    have low : v.toNat &&& 15 = v.toNat % 16 := Nat.and_two_pow_sub_one_eq_mod v.toNat 4
    rw [UInt32.toNat_toUInt8, UInt32.toNat_and, UInt8.toNat_ofNat']
    exact congrArg (· % 2 ^ 8) low
  rw [nibble, all _ (Nat.mod_lt _ (by decide))]

theorem toNat_shiftRight_four (v : UInt32) : (v >>> 4).toNat = v.toNat / 16 := by
  rw [UInt32.toNat_shiftRight]
  exact Nat.shiftRight_eq_div_pow v.toNat 4

/-! ## What is printed -/

theorem nulFree_digits {b : Nat} (one : 1 < b) (base : b ≤ 16) (v : Nat) :
    (0 : UInt8) ∉ (Nat.digits b v).map digitChar := by
  intro member
  obtain ⟨d, digit, nul⟩ := List.mem_map.mp member
  exact digitChar_ne_nul base d (Nat.digits_lt_base one digit) nul

/-- `kprint_dec` prints the numeral in base 10 and stays in its array. -/
theorem kprintDecIn_eq (buf : Vector UInt8 12) (v : UInt32) :
    kprintDecIn buf v = some (numeral digitChar 10 v.toNat) := by
  rcases eq_or_ne v 0 with rfl | nonzero
  · rfl
  have nonzero' := toNat_ne_zero nonzero
  have few : (Nat.digits 10 v.toNat).length ≤ 10 :=
    (Nat.digits_length_le_iff (by decide) _).mpr (lt_trans v.toNat_lt (by decide))
  have fits : (CharBuf.start buf).idx + (Nat.digits 10 v.toNat).length ≤ 12 := by
    change 0 + _ ≤ 12
    omega
  obtain ⟨out, run, filled⟩ := fillDigits_spec (by decide) decChar_eq
    (fun v => UInt32.toNat_div v 10) (.start buf) v fits
  rw [CharBuf.filled_start, List.nil_append] at filled
  have free := nulFree_digits (by decide) (by decide : 10 ≤ 16) v.toNat
  rw [← filled] at free
  rw [kprintDecIn, if_neg nonzero, run, Option.bind_eq_bind, Option.bind_some,
    emitBack_spec out.bytes out.inside free, numeral_of_ne_zero _ _ nonzero', List.map_reverse,
    ← filled, CharBuf.filled]

theorem putHex_spec (tempBuf : Vector UInt8 16) {out : CharBuf 16} (val : UInt32)
    (room : out.idx + 8 ≤ 16) :
    ∃ out', putHex tempBuf out val = some out' ∧
      out'.filled = out.filled ++ numeral digitChar 16 val.toNat := by
  rcases eq_or_ne val 0 with rfl | nonzero
  · exact CharBuf.put_of_room (by omega) 48
  have nonzero' := toNat_ne_zero nonzero
  have few : (Nat.digits 16 val.toNat).length ≤ 8 :=
    (Nat.digits_length_le_iff (by decide) _).mpr val.toNat_lt
  have fits : (CharBuf.start tempBuf).idx + (Nat.digits 16 val.toNat).length ≤ 16 := by
    change 0 + _ ≤ 16
    omega
  obtain ⟨temp, run, filled⟩ :=
    fillDigits_spec (by decide) hexChar_eq toNat_shiftRight_four (.start tempBuf) val fits
  rw [CharBuf.filled_start, List.nil_append] at filled
  have count : temp.idx = (Nat.digits 16 val.toNat).length := by
    rw [CharBuf.idx_eq filled, List.length_map]
  obtain ⟨out', copied, filled'⟩ := copyBack_spec temp.bytes out temp.inside (by omega)
  refine ⟨out', ?_, ?_⟩
  · rw [putHex, if_neg nonzero, run]
    exact copied
  · rw [filled', ← CharBuf.filled, filled, numeral_of_ne_zero _ _ nonzero', List.map_reverse]

theorem nulFree_numeral {b : Nat} (one : 1 < b) (base : b ≤ 16) (v : Nat) :
    (0 : UInt8) ∉ numeral digitChar b v := by
  intro member
  obtain ⟨d, lt, nul⟩ := (isNumeral_numeral one (charDigit_digitChar base) v).digits 0 member
  exact digitChar_ne_nul base d lt nul.symm

/-- `kprint_hex` prints `0x` and the numeral in base 16 and stays in its arrays. -/
theorem kprintHex_eq (buf tempBuf : Vector UInt8 16) (val : UInt32) :
    kprintHex buf tempBuf val = some (ascii "0x" ++ numeral digitChar 16 val.toNat) := by
  have few : (numeral digitChar 16 val.toNat).length ≤ 8 :=
    length_numeral_le digitChar (by decide) (by decide) val.toNat_lt
  have room : (CharBuf.start buf).idx < 16 := Nat.succ_pos 15
  obtain ⟨zero, putZero, filled⟩ := CharBuf.put_of_room room 48
  have idx : zero.idx = 1 := CharBuf.idx_eq filled
  obtain ⟨ex, putEx, filled'⟩ := CharBuf.put_of_room (by omega : zero.idx < 16) 120
  rw [filled, CharBuf.filled_start] at filled'
  have idx' : ex.idx = 2 := CharBuf.idx_eq filled'
  obtain ⟨digits, putDigits, text⟩ := putHex_spec tempBuf val (by omega : ex.idx + 8 ≤ 16)
  rw [filled'] at text
  have idxText : digits.idx = 2 + (numeral digitChar 16 val.toNat).length := by
    rw [CharBuf.idx_eq text, List.length_append]
    rfl
  obtain ⟨out, putNul, whole⟩ := CharBuf.put_of_room (by omega : digits.idx < 16) 0
  rw [text] at whole
  have free : (0 : UInt8) ∉ ascii "0x" ++ numeral digitChar 16 val.toNat := by
    rw [List.mem_append, not_or]
    exact ⟨by decide, nulFree_numeral (by decide) le_rfl val.toNat⟩
  have string : cstr out.bytes.toList = ascii "0x" ++ numeral digitChar 16 val.toNat :=
    cstr_of_take free whole
  simp only [kprintHex, putZero, putEx, putDigits, putNul, Option.bind_eq_bind, Option.bind_some,
    string]
  rfl

/-- What `kprint_dec` prints is the decimal numeral and nothing else. -/
theorem kprintDecIn_iff (buf : Vector UInt8 12) (v : UInt32) (s : List UInt8) :
    kprintDecIn buf v = some s ↔ IsNumeral digitChar charDigit 10 v.toNat s := by
  rw [kprintDecIn_eq, isNumeral_iff (by decide) (charDigit_digitChar (by decide)),
    Option.some.injEq, eq_comm]

theorem kprintHex_iff (buf tempBuf : Vector UInt8 16) (val : UInt32) (s : List UInt8) :
    kprintHex buf tempBuf val = some (ascii "0x" ++ s) ↔
      IsNumeral digitChar charDigit 16 val.toNat s := by
  rw [kprintHex_eq, isNumeral_iff (by decide) (charDigit_digitChar le_rfl), Option.some.injEq,
    List.append_cancel_left_eq, eq_comm]

/-- With or without its array, `kprint_dec` prints the same. -/
theorem kprintDecIn_eq_kprintDec (buf : Vector UInt8 12) (v : UInt32) :
    kprintDecIn buf v = some (kprintDec v) := by
  have alphabet : ∀ d < 10, digitChar d = UInt8.ofNat (48 + d) := by decide
  rw [kprintDecIn_eq, kprintDec_eq, numeral_congr (by decide) alphabet]
  rfl

/-- **Printed numbers are numerals.**  For every number `kprint_dec` prints the decimal and
`kprint_hex` after `0x` the hexadecimal numeral: capital digits of the base, no leading
zero but for 0 itself, and the number as their value.  Neither leaves its arrays. -/
theorem number_printing (v : UInt32) :
    (∀ buf : Vector UInt8 12, ∃ s, kprintDecIn buf v = some s ∧
      IsNumeral digitChar charDigit 10 v.toNat s ∧ (v = 0 → s = ascii "0")) ∧
    ∀ buf tempBuf : Vector UInt8 16, ∃ s, kprintHex buf tempBuf v = some (ascii "0x" ++ s) ∧
      IsNumeral digitChar charDigit 16 v.toNat s ∧ (v = 0 → s = ascii "0") := by
  refine ⟨fun buf => ?_, fun buf tempBuf => ?_⟩
  · have printed := kprintDecIn_eq buf v
    refine ⟨_, printed, (kprintDecIn_iff buf v _).mp printed, ?_⟩
    rintro rfl
    rfl
  · have printed := kprintHex_eq buf tempBuf v
    refine ⟨_, printed, (kprintHex_iff buf tempBuf v _).mp printed, ?_⟩
    rintro rfl
    rfl

end MOKernel
