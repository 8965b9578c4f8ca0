import MOKernel.ByteMemory
import MOKernel.Pic

/-!
# The interrupt descriptor table

`idt_init` of `kernel.c`: the gates it fills in, what it writes to the interrupt controllers
and the operand of `lidt`.  The processor finds a gate in memory, at eight bytes a vector
from the base that `lidt` has loaded; it finds each handler's address at the vector that
the controllers give for its line, and no other gate (`idt_init_gates`).
-/

namespace MOKernel

/-- `struct IDT_entry`. -/
structure IdtEntry where
  offsetLowerbits : UInt16
  selector : UInt16
  zero : UInt8
  typeAttr : UInt8
  offsetHigherbits : UInt16

/-- `IDT`; `IDT_SIZE` is 256. -/
abbrev Idt := UInt8 → IdtEntry

/-- The table in `.bss`. -/
def idtBoot : Idt := fun _ => ⟨0, 0, 0, 0, 0⟩

/-- The handlers of `start.asm`. -/
inductive Isr
  | timer
  | keyboard
  | mouse
  | pageFault
deriving DecidableEq

/-- The vector whose gate gets the handler. -/
def Isr.vector : Isr → UInt8
  | .timer => 0x20
  | .keyboard => 0x21
  | .mouse => 0x2C
  | .pageFault => 14

/-- The five assignments for a handler at `address`. -/
def setGate (idt : Idt) (v : UInt8) (address : UInt32) : Idt :=
  Function.update idt v
    { offsetLowerbits := (address &&& 0xFFFF).toUInt16
      selector := 0x08
      zero := 0
      typeAttr := 0x8E
      offsetHigherbits := ((address >>> 16) &&& 0xFFFF).toUInt16 }

/-- The gates of `idt_init`. -/
def idtInit (idt : Idt) (address : Isr → UInt32) : Idt :=
  let idt := setGate idt 0x20 (address .timer)
  let idt := setGate idt 0x21 (address .keyboard)
  let idt := setGate idt 0x2C (address .mouse)
  setGate idt 14 (address .pageFault)

/-- What `idt_init` writes to the interrupt controllers. -/
def picRemap : List (UInt16 × UInt8) :=
  [(0x20, 0x11), (0xA0, 0x11), (0x21, 0x20), (0xA1, 0x28), (0x21, 0x00), (0xA1, 0x00),
    (0x21, 0x01), (0xA1, 0x01), (0x21, 0xF8), (0xA1, 0xEF)]

/-- `idt_ptr`; an entry has 8 bytes. -/
def idtPtr (idtAddress : UInt32) : List UInt32 :=
  [(8 * 256 : UInt32) ||| ((idtAddress &&& 0xFFFF) <<< 16), idtAddress >>> 16]

/-- The packed bytes of an entry. -/
def IdtEntry.bytes (e : IdtEntry) : List UInt8 :=
  le16 e.offsetLowerbits ++ le16 e.selector ++ [e.zero, e.typeAttr] ++ le16 e.offsetHigherbits

/-! ## The processor -/

/-- What the processor reads of a gate. -/
structure Gate where
  offset : UInt32
  selector : UInt16
  typeAttr : UInt8

/-- Without the present bit an interrupt faults. -/
def Gate.Present (g : Gate) : Prop := g.typeAttr &&& 0x80 ≠ 0

/-- A 32-bit interrupt gate disables interrupts. -/
def Gate.Disables (g : Gate) : Prop := g.typeAttr &&& 0x1F = 0x0E

instance (g : Gate) : Decidable g.Present := inferInstanceAs (Decidable (¬_))
instance (g : Gate) : Decidable g.Disables := inferInstanceAs (Decidable (_ = _))

/-- The gate of a vector in the table at `base`. -/
def fetchGate (mem : ByteMemory) (base : Nat) (v : UInt8) : Gate :=
  let a := base + 8 * v.toNat
  ⟨ofLe32 (mem a) (mem (a + 1)) (mem (a + 6)) (mem (a + 7)), ofLe16 (mem (a + 2)) (mem (a + 3)),
    mem (a + 5)⟩

/-- `lidt`: the limit and the base. -/
def lidt (mem : ByteMemory) (a : Nat) : UInt16 × UInt32 :=
  (ofLe16 (mem a) (mem (a + 1)),
    ofLe32 (mem (a + 2)) (mem (a + 3)) (mem (a + 4)) (mem (a + 5)))

/-- The memory from `a` on is the array of words. -/
def WordsAt (mem : ByteMemory) (a : Nat) (ws : List UInt32) : Prop :=
  ∀ i : Fin (ws.flatMap le32).length, mem (a + i) = (ws.flatMap le32).get i

instance (mem : ByteMemory) (a : Nat) (ws : List UInt32) : Decidable (WordsAt mem a ws) :=
  inferInstanceAs (Decidable (∀ _, _))

/-- The memory from `base` on is the table. -/
def IdtAt (mem : ByteMemory) (base : Nat) (idt : Idt) : Prop :=
  ∀ (v : UInt8) (i : Fin (idt v).bytes.length), mem (base + 8 * v.toNat + i) = (idt v).bytes.get i

/-! ## The halves of an address -/

section Halves

variable (w : UInt32)

theorem toUInt16_low : (w &&& 0xFFFF).toUInt16 = w.toUInt16 := by
  apply UInt16.toNat_inj.mp
  rw [UInt32.toNat_toUInt16, UInt32.toNat_toUInt16, UInt32.toNat_and]
  exact (congrArg (· % 65536) (Nat.and_two_pow_sub_one_eq_mod w.toNat 16)).trans (Nat.mod_mod _ _)

theorem le16_toUInt16 : le16 w.toUInt16 = [w.toUInt8, (w >>> 8).toUInt8] := by
  have high : (w.toUInt16 >>> 8).toUInt8 = (w >>> 8).toUInt8 := by
    apply UInt8.toNat_inj.mp
    simp only [UInt16.toNat_toUInt8, UInt16.toNat_shiftRight, UInt32.toNat_toUInt16,
      UInt32.toNat_toUInt8, UInt32.toNat_shiftRight, UInt16.reduceToNat, UInt32.reduceToNat,
      Nat.reduceMod, Nat.reducePow, Nat.shiftRight_eq_div_pow]
    omega
  have low : w.toUInt16.toUInt8 = w.toUInt8 := by
    apply UInt8.toNat_inj.mp
    simp only [UInt16.toNat_toUInt8, UInt32.toNat_toUInt16, UInt32.toNat_toUInt8, Nat.reducePow]
    omega
  unfold le16
  rw [high, low]

theorem shiftRight_shiftRight_8 : w >>> 16 >>> 8 = w >>> 24 := by
  apply UInt32.toNat_inj.mp
  simp only [UInt32.toNat_shiftRight, UInt32.reduceToNat, Nat.reduceMod, Nat.reducePow,
    Nat.shiftRight_eq_div_pow]
  omega

end Halves

/-! ## What the processor finds -/

section Gates

variable {mem : ByteMemory} {base ptr : Nat} {idt : Idt} {address : Isr → UInt32}

/-- The bytes of a gate that has been filled in. -/
theorem bytes_setGate (idt : Idt) (v : UInt8) (a : UInt32) : (setGate idt v a v).bytes =
    [a.toUInt8, (a >>> 8).toUInt8, 0x08, 0x00, 0, 0x8E, (a >>> 16).toUInt8,
      (a >>> 24).toUInt8] := by
  have selector : le16 0x08 = [0x08, 0x00] := by decide
  rw [setGate, Function.update_self, IdtEntry.bytes, toUInt16_low, toUInt16_low]
  dsimp only
  rw [le16_toUInt16, le16_toUInt16, shiftRight_shiftRight_8, selector]
  rfl

/-- The gate of an entry, from its eight bytes. -/
theorem fetchGate_eq {v : UInt8} {b0 b1 b2 b3 b4 b5 b6 b7 : UInt8} (table : IdtAt mem base idt)
    (bytes : (idt v).bytes = [b0, b1, b2, b3, b4, b5, b6, b7]) :
    fetchGate mem base v = ⟨ofLe32 b0 b1 b6 b7, ofLe16 b2 b3, b5⟩ := by
  have byte (i : Nat) (lt : i < 8) :
      mem (base + 8 * v.toNat + i) = [b0, b1, b2, b3, b4, b5, b6, b7][i] := by
    have at_i := table v ⟨i, by rw [bytes]; exact lt⟩
    simp only [bytes, List.get_eq_getElem] at at_i
    exact at_i
  have first : mem (base + 8 * v.toNat) = b0 := byte 0 (by decide)
  unfold fetchGate
  dsimp only
  rw [first, byte 1 (by decide), byte 2 (by decide), byte 3 (by decide), byte 5 (by decide),
    byte 6 (by decide), byte 7 (by decide)]
  rfl

theorem idtInit_vector (idt : Idt) (isr : Isr) :
    idtInit idt address isr.vector = setGate idt isr.vector (address isr) isr.vector := by
  cases isr <;> rfl

theorem setGate_of_ne {v v' : UInt8} (ne : v' ≠ v) (a : UInt32) : setGate idt v a v' = idt v' :=
  Function.update_of_ne ne _ _

theorem idtInit_of_ne {v : UInt8} (other : ∀ isr : Isr, isr.vector ≠ v) :
    idtInit idt address v = idt v :=
  (setGate_of_ne (other .pageFault).symm _).trans ((setGate_of_ne (other .mouse).symm _).trans
    ((setGate_of_ne (other .keyboard).symm _).trans (setGate_of_ne (other .timer).symm _)))

/-- The two words of `idt_ptr`: the limit, then the base. -/
theorem idtPtr_eq (w : UInt32) :
    idtPtr w = [ofLe32 0 8 w.toUInt8 (w >>> 8).toUInt8,
      ofLe32 (w >>> 16).toUInt8 (w >>> 24).toUInt8 0 0] := by
  have lt := w.toNat_lt
  have half : (w &&& 0xFFFF).toNat = w.toNat % 65536 := by
    rw [UInt32.toNat_and]
    exact Nat.and_two_pow_sub_one_eq_mod w.toNat 16
  have shifted : (w.toNat % 65536) <<< 16 % 4294967296 = (w.toNat % 65536) <<< 16 :=
    Nat.mod_eq_of_lt (by rw [Nat.shiftLeft_eq]; omega)
  have limit : (8 * 256 : UInt32) = 2048 := by decide
  have low : (8 * 256 : UInt32) ||| ((w &&& 0xFFFF) <<< 16) =
      ofLe32 0 8 w.toUInt8 (w >>> 8).toUInt8 := by
    apply UInt32.toNat_inj.mp
    simp only [limit, UInt32.toNat_or, UInt32.toNat_shiftLeft, half, UInt32.reduceToNat,
      Nat.reduceMod, toNat_ofLe32, UInt32.toNat_toUInt8, UInt32.toNat_shiftRight,
      Nat.shiftRight_eq_div_pow, UInt8.reduceToNat, Nat.reducePow]
    rw [shifted, or_shiftLeft_eq_add (by omega)]
    omega
  have high : w >>> 16 = ofLe32 (w >>> 16).toUInt8 (w >>> 24).toUInt8 0 0 := by
    apply UInt32.toNat_inj.mp
    simp only [UInt32.toNat_shiftRight, UInt32.reduceToNat, Nat.reduceMod, toNat_ofLe32,
      UInt32.toNat_toUInt8, Nat.shiftRight_eq_div_pow, UInt8.reduceToNat, Nat.reducePow]
    omega
  rw [idtPtr, low, ← high]

/-- `lidt` on `idt_ptr`. -/
theorem lidt_idtPtr {w : UInt32} (operand : WordsAt mem ptr (idtPtr w)) :
    lidt mem ptr = (8 * 256, w) := by
  have bytes : (idtPtr w).flatMap le32 = [0, 8, w.toUInt8, (w >>> 8).toUInt8, (w >>> 16).toUInt8,
      (w >>> 24).toUInt8, 0, 0] := by
    rw [idtPtr_eq, List.flatMap_cons, List.flatMap_cons, List.flatMap_nil, le32_ofLe32, le32_ofLe32]
    rfl
  have byte (i : Nat) (lt : i < 8) : mem (ptr + i) = [0, 8, w.toUInt8, (w >>> 8).toUInt8,
      (w >>> 16).toUInt8, (w >>> 24).toUInt8, 0, 0][i] := by
    have at_i := operand ⟨i, by rw [bytes]; exact lt⟩
    simp only [bytes, List.get_eq_getElem] at at_i
    exact at_i
  have first : mem ptr = 0 := byte 0 (by decide)
  unfold lidt
  rw [first, byte 1 (by decide), byte 2 (by decide), byte 3 (by decide), byte 4 (by decide),
    byte 5 (by decide)]
  have limit : ofLe16 0 8 = 8 * 256 := by decide
  exact Prod.ext limit (ofLe32_le32 w)

/-- The gate of a handler, through the base that `lidt` has loaded. -/
theorem fetchGate_vector {idtAddress : UInt32} (operand : WordsAt mem ptr (idtPtr idtAddress))
    (table : IdtAt mem idtAddress.toNat (idtInit idtBoot address)) (isr : Isr) :
    fetchGate mem (lidt mem ptr).2.toNat isr.vector = ⟨address isr, 0x08, 0x8E⟩ := by
  have bytes := (congrArg IdtEntry.bytes (idtInit_vector idtBoot isr)).trans
    (bytes_setGate idtBoot isr.vector (address isr))
  rw [lidt_idtPtr operand, fetchGate_eq table bytes, ofLe32_le32]
  rfl

/-- The gates that the processor finds are those of the handlers. -/
structure GatesReady (gates : UInt8 → Gate) (address : Isr → UInt32) : Prop where
  filled : ∀ isr : Isr, gates isr.vector = ⟨address isr, 0x08, 0x8E⟩
  absent : ∀ v : UInt8, (∀ isr : Isr, isr.vector ≠ v) → ¬(gates v).Present

theorem gatesReady_idtInit {idtAddress : UInt32} (operand : WordsAt mem ptr (idtPtr idtAddress))
    (table : IdtAt mem idtAddress.toNat (idtInit idtBoot address)) :
    GatesReady (fetchGate mem (lidt mem ptr).2.toNat) address := by
  refine ⟨fetchGate_vector operand table, fun v other => ?_⟩
  have zeros : (⟨0, 0, 0, 0, 0⟩ : IdtEntry).bytes = [0, 0, 0, 0, 0, 0, 0, 0] := by decide
  have empty : (idtInit idtBoot address v).bytes = [0, 0, 0, 0, 0, 0, 0, 0] := by
    rw [idtInit_of_ne other]
    exact zeros
  rw [lidt_idtPtr operand, fetchGate_eq table empty]
  decide

/-- **The gates of `idt_init`.**  Through the base that `lidt` loads from `idt_ptr` the
processor finds at the vector of each handler an interrupt gate to the handler's address,
at every other vector no gate, and the limit covers all of them. -/
theorem idt_init_gates {idtAddress : UInt32} (operand : WordsAt mem ptr (idtPtr idtAddress))
    (table : IdtAt mem idtAddress.toNat (idtInit idtBoot address)) :
    (∀ isr : Isr, fetchGate mem (lidt mem ptr).2.toNat isr.vector = ⟨address isr, 0x08, 0x8E⟩) ∧
      (∀ v : UInt8, (∀ isr : Isr, isr.vector ≠ v) →
        ¬(fetchGate mem (lidt mem ptr).2.toNat v).Present) ∧
      ∀ v : UInt8, 8 * v.toNat + 7 ≤ (lidt mem ptr).1.toNat := by
  obtain ⟨filled, absent⟩ := gatesReady_idtInit operand table
  refine ⟨filled, absent, fun v => ?_⟩
  have lt := v.toNat_lt
  have limit : (8 * 256 : UInt16).toNat = 2048 := by decide
  rw [lidt_idtPtr operand]
  dsimp only
  omega

end Gates

/-- A memory with the operand at 0x1000 and the table at 0x2000. -/
def idtImage (address : Isr → UInt32) : ByteMemory := fun a =>
  if a < 0x2000 then ((idtPtr 0x2000).flatMap le32).getD (a - 0x1000) 0
  else (idtInit idtBoot address (UInt8.ofNat ((a - 0x2000) / 8))).bytes.getD ((a - 0x2000) % 8) 0

theorem idtImage_operand (address : Isr → UInt32) :
    WordsAt (idtImage address) 0x1000 (idtPtr 0x2000) := by
  intro i
  have lt : i.val < 8 := i.isLt
  rw [idtImage, if_pos (by omega), Nat.add_sub_cancel_left, List.getD_eq_getElem _ _ i.isLt]
  rfl

theorem idtImage_table (address : Isr → UInt32) :
    IdtAt (idtImage address) (0x2000 : UInt32).toNat (idtInit idtBoot address) := by
  intro v i
  have lt : i.val < 8 := i.isLt
  have start : (0x2000 : UInt32).toNat = 0x2000 := rfl
  have index : (0x2000 + 8 * v.toNat + i.val - 0x2000) / 8 = v.toNat := by omega
  have offset : (0x2000 + 8 * v.toNat + i.val - 0x2000) % 8 = i.val := by omega
  rw [start, idtImage, if_neg (by omega), index, offset, UInt8.ofNat_toNat,
    List.getD_eq_getElem _ _ i.isLt]
  rfl

theorem idt_init_gates_image :
    fetchGate (idtImage fun _ => 0x00101234)
        (lidt (idtImage fun _ => 0x00101234) 0x1000).2.toNat 0x20 =
      ⟨0x00101234, 0x08, 0x8E⟩ :=
  (idt_init_gates (idtImage_operand _) (idtImage_table _)).1 .timer

end MOKernel
