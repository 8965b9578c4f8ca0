import Mathlib

/-!
# Interrupt controllers

A programmable interrupt controller of the 8259 kind in fully nested mode, with edge
triggered inputs, and a pair of them of which the second is connected to input 2 of the
first.  A controller latches edges in `irr`, has in `isr` what is in service, and requests
service for the first unmasked input that comes before everything in service.

The chips of a pair learn from their third initialisation word that they are connected.
`PicWiring` says whether the pair depends on that, as discrete chips do, or behaves as
connected in any case.
-/

namespace MOKernel

/-- The inputs of a controller are numbered from 0.  The literals of all modules mention the
instance by this name. -/
theorem neZero_picInputs : NeZero 8 := inferInstance

/-- So are those of a pair. -/
theorem neZero_picLines : NeZero 16 := inferInstance

attribute [local instance] neZero_picInputs

/-- What the odd port takes next: the mask, or an initialisation word. -/
inductive PicExpect
  | mask
  | icw2
  | icw3
  | icw4
deriving DecidableEq

structure Pic where
  irr : Finset (Fin 8)
  isr : Finset (Fin 8)
  imr : UInt8
  base : UInt8
  icw3 : UInt8
  autoEoi : Bool
  single : Bool
  needsIcw4 : Bool
  expect : PicExpect
deriving DecidableEq

namespace Pic

def Masked (p : Pic) (n : Fin 8) : Prop := p.imr.toNat.testBit n.val = true

instance (p : Pic) (n : Fin 8) : Decidable (p.Masked n) := inferInstanceAs (Decidable (_ = _))

/-- An input is served before everything in service. -/
def Requests (p : Pic) (n : Fin 8) : Prop := n ∈ p.irr ∧ ¬p.Masked n ∧ ∀ m ∈ p.isr, n < m

instance (p : Pic) (n : Fin 8) : Decidable (p.Requests n) :=
  inferInstanceAs (Decidable (_ ∧ _ ∧ _))

/-- The input that the controller requests service for. -/
def request (p : Pic) : Option (Fin 8) := Fin.find? fun n => decide (p.Requests n)

/-- An edge at an input. -/
def raise (p : Pic) (n : Fin 8) : Pic := { p with irr := insert n p.irr }

/-- The processor acknowledges the request of an input. -/
def acknowledge (p : Pic) (n : Fin 8) : Pic :=
  { p with irr := p.irr.erase n, isr := if p.autoEoi then p.isr else insert n p.isr }

/-- The non-specific end of interrupt: the first input in service is done. -/
def endOfInterrupt (p : Pic) : Pic :=
  match Fin.find? fun n => decide (n ∈ p.isr) with
  | some n => { p with isr := p.isr.erase n }
  | none => p

/-- A write to the even port: the first initialisation word, the end of an interrupt, or a
command that is left out. -/
def writeCommand (p : Pic) (b : UInt8) : Pic :=
  if b &&& 0x10 ≠ 0 then
    { p with
        irr := ∅
        imr := 0
        autoEoi := false
        single := b &&& 0x02 ≠ 0
        needsIcw4 := b &&& 0x01 ≠ 0
        expect := .icw2 }
  else if b = 0x20 then p.endOfInterrupt
  else p

/-- A write to the odd port. -/
def writeData (p : Pic) (b : UInt8) : Pic :=
  match p.expect with
  | .mask => { p with imr := b }
  | .icw2 =>
    { p with
        base := b &&& 0xF8
        expect := if p.single then (if p.needsIcw4 then .icw4 else .mask) else .icw3 }
  | .icw3 => { p with icw3 := b, expect := if p.needsIcw4 then .icw4 else .mask }
  | .icw4 => { p with autoEoi := b &&& 0x02 ≠ 0, expect := .mask }

variable {p : Pic} {n : Fin 8}

theorem request_eq_some_iff :
    p.request = some n ↔ p.Requests n ∧ ∀ m, m < n → ¬p.Requests m := by
  unfold request
  rw [Fin.find?_eq_some_iff]
  simp only [decide_eq_true_eq, decide_eq_false_iff_not]

theorem request_eq_none_iff : p.request = none ↔ ∀ n, ¬p.Requests n := by
  unfold request
  rw [Fin.find?_eq_none_iff]
  simp only [decide_eq_false_iff_not]

theorem requests_of_request (requested : p.request = some n) : p.Requests n :=
  (request_eq_some_iff.mp requested).1

/-- With nothing in service every unmasked edge is a request. -/
theorem requests_of_idle (idle : p.isr = ∅) : p.Requests n ↔ n ∈ p.irr ∧ ¬p.Masked n := by
  unfold Requests
  rw [idle]
  simp

/-- The end of an interrupt when one input is in service. -/
theorem endOfInterrupt_singleton (serving : p.isr = {n}) :
    p.endOfInterrupt = { p with isr := ∅ } := by
  have found : (Fin.find? fun m => decide (m ∈ p.isr)) = some n := by
    rw [Fin.find?_eq_some_iff, serving]
    simp only [Finset.mem_singleton, decide_true, decide_eq_false_iff_not, true_and]
    exact fun m before same => before.ne same
  unfold endOfInterrupt
  rw [found, serving]
  simp

end Pic

/-! ## Two controllers -/

/-- Are the chips connected only if their third initialisation words say so? -/
inductive PicWiring
  | fixed
  | programmed
deriving DecidableEq

structure PicPair where
  master : Pic
  slave : Pic
deriving DecidableEq

namespace PicPair

/-- The third initialisation words name input 2 and identity 2. -/
def Programmed (p : PicPair) : Prop := p.master.icw3.toNat.testBit 2 = true ∧ p.slave.icw3 &&& 7 = 2

instance (p : PicPair) : Decidable p.Programmed := inferInstanceAs (Decidable (_ ∧ _))

/-- Does the slave give the vector of input 2? -/
def Cascades (wiring : PicWiring) (p : PicPair) : Prop :=
  match wiring with
  | .fixed => True
  | .programmed => p.Programmed

instance (wiring : PicWiring) (p : PicPair) : Decidable (p.Cascades wiring) := by
  cases wiring
  · exact inferInstanceAs (Decidable True)
  · exact inferInstanceAs (Decidable p.Programmed)

/-- Input 2 of the master follows the request of the slave. -/
def inputs (p : PicPair) : Pic :=
  if p.slave.request.isSome then p.master.raise 2 else p.master

/-- The processor acknowledges: the vector it is given, and the controllers after it.  A
slave that has no request any more gives its last vector. -/
def acknowledge (wiring : PicWiring) (p : PicPair) : Option (UInt8 × PicPair) :=
  p.inputs.request.map fun n : Fin 8 =>
    if n = 2 ∧ p.Cascades wiring then
      match p.slave.request with
      | some k =>
        (p.slave.base + UInt8.ofNat k.val, ⟨p.master.acknowledge 2, p.slave.acknowledge k⟩)
      | none => (p.slave.base + 7, ⟨p.master.acknowledge 2, p.slave⟩)
    else (p.master.base + UInt8.ofNat n.val, ⟨p.master.acknowledge n, p.slave⟩)

/-- An edge at one of the sixteen inputs of the pair. -/
def raise (p : PicPair) (line : Fin 16) : PicPair :=
  if low : line.val < 8 then { p with master := p.master.raise ⟨line, low⟩ }
  else { p with slave := p.slave.raise ⟨line - 8, by omega⟩ }

/-- The edge at a line is latched. -/
def Pending (p : PicPair) (line : Fin 16) : Prop :=
  if low : line.val < 8 then ⟨line, low⟩ ∈ p.master.irr
  else (⟨line - 8, by omega⟩ : Fin 8) ∈ p.slave.irr

instance (p : PicPair) (line : Fin 16) : Decidable (p.Pending line) :=
  inferInstanceAs (Decidable (dite _ _ _))

/-- A write to one of the four ports of the pair. -/
def writePort (p : PicPair) (port : UInt16) (b : UInt8) : PicPair :=
  if port = 0x20 then { p with master := p.master.writeCommand b }
  else if port = 0x21 then { p with master := p.master.writeData b }
  else if port = 0xA0 then { p with slave := p.slave.writeCommand b }
  else if port = 0xA1 then { p with slave := p.slave.writeData b }
  else p

def writePorts (p : PicPair) (writes : List (UInt16 × UInt8)) : PicPair :=
  writes.foldl (fun p write => p.writePort write.1 write.2) p

end PicPair

end MOKernel
