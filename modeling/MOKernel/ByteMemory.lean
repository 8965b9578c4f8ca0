import MOKernel.ByteOrder

/-!
# Byte memory

A memory is a function from addresses to bytes.  `storeAt` stores consecutive bytes,
`store32` a little-endian word, `storeTable` an array of words; a load sees the last
store that covers it and nothing else.

A `ByteBus` is memory behind an access path that may fault: every access of a byte
either succeeds or fails with the address that could not be accessed.
-/

namespace MOKernel

abbrev ByteMemory := Nat → UInt8

variable {mem : ByteMemory}

/-- Store bytes at an offset. -/
def storeAt (mem : ByteMemory) (off : Nat) (bytes : List UInt8) : ByteMemory :=
  fun i => if off ≤ i then bytes.getD (i - off) (mem i) else mem i

theorem storeAt_of_mem {off : Nat} {bytes : List UInt8} {i : Nat} (lt : i < bytes.length) :
    storeAt mem off bytes (off + i) = bytes[i] := by
  simp [storeAt, lt]

theorem storeAt_of_notMem {off : Nat} {bytes : List UInt8} {i : Nat}
    (outside : i < off ∨ off + bytes.length ≤ i) : storeAt mem off bytes i = mem i := by
  rw [storeAt]
  split
  · rw [List.getD_eq_default]
    omega
  · rfl

/-- Two stores one behind the other are one store. -/
theorem storeAt_append (mem : ByteMemory) (off : Nat) (front back : List UInt8) :
    storeAt mem off (front ++ back) =
      storeAt (storeAt mem off front) (off + front.length) back := by
  funext i
  rcases Nat.lt_or_ge i (off + front.length) with early | late
  · have before : storeAt (storeAt mem off front) (off + front.length) back i =
        storeAt mem off front i := storeAt_of_notMem (.inl early)
    rw [before, storeAt, storeAt]
    split
    · rw [List.getD_append _ _ _ _ (by omega)]
    · rfl
  · have untouched : storeAt mem off front i = mem i := storeAt_of_notMem (.inr late)
    rw [storeAt, if_pos (by omega), storeAt, if_pos late, untouched,
      List.getD_append_right _ _ _ _ (by omega), Nat.sub_add_eq]

/-! ## Words -/

def load32 (mem : ByteMemory) (a : Nat) : UInt32 :=
  ofLe32 (mem a) (mem (a + 1)) (mem (a + 2)) (mem (a + 3))

def store32 (mem : ByteMemory) (a : Nat) (w : UInt32) : ByteMemory := storeAt mem a (le32 w)

@[simp] theorem load32_store32 (mem : ByteMemory) (a : Nat) (w : UInt32) :
    load32 (store32 mem a w) a = w := by
  have byte (i : Nat) (lt : i < 4) : store32 mem a w (a + i) = (le32 w)[i] := storeAt_of_mem lt
  have first : store32 mem a w a = (le32 w)[0] := byte 0 (by omega)
  rw [load32, first, byte 1 (by omega), byte 2 (by omega), byte 3 (by omega)]
  exact ofLe32_le32 w

theorem load32_store32_of_disjoint {a b : Nat} (apart : b + 4 ≤ a ∨ a + 4 ≤ b) (w : UInt32) :
    load32 (store32 mem a w) b = load32 mem b := by
  have byte (i : Nat) (lt : i < 4) : store32 mem a w (b + i) = mem (b + i) :=
    storeAt_of_notMem (by rw [length_le32]; omega)
  have first : store32 mem a w b = mem b := byte 0 (by omega)
  rw [load32, first, byte 1 (by omega), byte 2 (by omega), byte 3 (by omega)]
  rfl

/-- Store the words `f 0`, …, `f (n - 1)` from `base` on, in this order. -/
def storeTable (mem : ByteMemory) (base : Nat) (f : Nat → UInt32) : Nat → ByteMemory
  | 0 => mem
  | n + 1 => store32 (storeTable mem base f n) (base + 4 * n) (f n)

theorem load32_storeTable {base i n : Nat} (f : Nat → UInt32) (lt : i < n) :
    load32 (storeTable mem base f n) (base + 4 * i) = f i := by
  induction n with
  | zero => omega
  | succ n ih =>
    rw [storeTable]
    rcases Nat.lt_succ_iff_lt_or_eq.mp lt with earlier | rfl
    · rw [load32_store32_of_disjoint (by omega), ih earlier]
    · exact load32_store32 _ _ _

theorem load32_storeTable_of_disjoint {base a n : Nat} (f : Nat → UInt32)
    (apart : a + 4 ≤ base ∨ base + 4 * n ≤ a) :
    load32 (storeTable mem base f n) a = load32 mem a := by
  induction n with
  | zero => rfl
  | succ n ih =>
    rw [storeTable, load32_store32_of_disjoint (by omega), ih (by omega)]

/-! ## Access paths -/

/-- A sequence that succeeds, taken apart. -/
theorem bind_eq_ok {ε α β : Type} {first : Except ε α} {next : α → Except ε β} {b : β} :
    (first >>= next) = .ok b ↔ ∃ a, first = .ok a ∧ next a = .ok b := by
  cases first with
  | error e => exact ⟨nofun, nofun⟩
  | ok a => exact ⟨fun ran => ⟨a, rfl, ran⟩, fun ⟨_, same, ran⟩ => by cases same; exact ran⟩

/-- Access to the bytes of a memory `M` at 32-bit addresses; a failure carries the address. -/
structure ByteBus (M : Type) where
  load : M → UInt32 → Except UInt32 UInt8
  store : M → UInt32 → UInt8 → Except UInt32 M

namespace ByteBus

variable {M : Type} (bus : ByteBus M)

/-- Store bytes one after the other. -/
def copyOut (mem : M) (dest : UInt32) : List UInt8 → Except UInt32 M
  | [] => .ok mem
  | b :: bs => do
    let mem ← bus.store mem dest b
    copyOut mem (dest + 1) bs

/-- Load `n` bytes one after the other. -/
def copyIn (mem : M) (src : UInt32) : (n : Nat) → Except UInt32 (Vector UInt8 n)
  | 0 => .ok #v[]
  | n + 1 => do
    let front ← copyIn mem src n
    let b ← bus.load mem (src + UInt32.ofNat n)
    pure (front.push b)

end ByteBus

/-! ### Memory without faults -/

/-- All of the 32-bit address space. -/
abbrev FlatMemory := UInt32 → UInt8

/-- Every access succeeds. -/
def flatBus : ByteBus FlatMemory where
  load mem addr := .ok (mem addr)
  store mem addr b := .ok (Function.update mem addr b)

/-- The `n` bytes from an address on. -/
def FlatMemory.block (mem : FlatMemory) (addr : UInt32) (n : Nat) : Vector UInt8 n :=
  Vector.ofFn fun i => mem (addr + UInt32.ofNat i.val)

theorem flatBus_copyIn (mem : FlatMemory) (src : UInt32) (n : Nat) :
    flatBus.copyIn mem src n = .ok (mem.block src n) := by
  induction n with
  | zero => rfl
  | succ n ih =>
    rw [ByteBus.copyIn, ih]
    refine congrArg Except.ok ?_
    ext i lt
    simp only [FlatMemory.block, Vector.getElem_push, Vector.getElem_ofFn]
    split
    · rfl
    · rw [show i = n by omega]

/-- A copy stores its bytes from `dest` on, round the end of the address space. -/
theorem flatBus_copyOut (mem : FlatMemory) (dest : UInt32) (bytes : List UInt8)
    (fits : bytes.length < 2 ^ 32) :
    flatBus.copyOut mem dest bytes = .ok fun addr => bytes.getD (addr - dest).toNat (mem addr) := by
  induction bytes generalizing mem dest with
  | nil => rfl
  | cons b bs ih =>
    rw [List.length_cons] at fits
    have tail := ih (Function.update mem dest b) (dest + 1) (by omega)
    refine Eq.trans (show flatBus.copyOut mem dest (b :: bs) =
      flatBus.copyOut (Function.update mem dest b) (dest + 1) bs from rfl) (tail.trans ?_)
    refine congrArg Except.ok (funext fun addr => ?_)
    have boundA := addr.toNat_lt
    have boundD := dest.toNat_lt
    by_cases here : addr = dest
    · have far : (addr - (dest + 1)).toNat = 2 ^ 32 - 1 := by
        rw [here, UInt32.toNat_sub, UInt32.toNat_add, UInt32.toNat_one]
        omega
      rw [far, List.getD_eq_default _ _ (by omega), here, UInt32.sub_self, Function.update_self]
      rfl
    · have differ : addr.toNat ≠ dest.toNat := fun same => here (UInt32.toNat_inj.mp same)
      have next : (addr - dest).toNat = (addr - (dest + 1)).toNat + 1 := by
        rw [UInt32.toNat_sub, UInt32.toNat_sub, UInt32.toNat_add, UInt32.toNat_one]
        omega
      rw [next, List.getD_cons_succ, Function.update_of_ne here]

end MOKernel
