import Mathlib

/-!
# Text output

The console part of `kernel.c`: `kprint`, `clear_screen` and the lines that rub out the
last character.  Memory at `vidptr` is taken apart from everything else, by the offset
from `vidptr`, which wraps as the pointer does; a character cell is a byte for the
character and a byte for its attribute.  The copy of the text sent to the serial port is
left out.
-/

namespace MOKernel

structure Console where
  vidptr : UInt32 → UInt8
  currentLoc : UInt32

namespace Console

def store (con : Console) (offset : UInt32) (byte : UInt8) : Console :=
  { con with vidptr := Function.update con.vidptr offset byte }

/-- A character and its attribute. -/
def storeCell (con : Console) (offset : UInt32) (chr : UInt8) : Console :=
  (con.store offset chr).store (offset + 1) 0x07

end Console

/-- `current_loc -= 2` and a blank there, if there is a character. -/
def rubOut (con : Console) : Console :=
  if con.currentLoc ≥ 2 then
    let con := { con with currentLoc := con.currentLoc - 2 }
    con.storeCell con.currentLoc 32
  else con

def kprintChar (con : Console) (chr : UInt8) : Console :=
  if chr = 10 then { con with currentLoc := con.currentLoc + (160 - con.currentLoc % 160) }
  else if chr = 8 then rubOut con
  else
    let con := { con.store con.currentLoc chr with currentLoc := con.currentLoc + 1 }
    { con.store con.currentLoc 0x07 with currentLoc := con.currentLoc + 1 }

/-- The end of the list stands for the terminating NUL, and a NUL inside ends the string. -/
def kprint (con : Console) : List UInt8 → Console
  | [] => con
  | chr :: str => if chr = 0 then con else kprint (kprintChar con chr) str

/-- The first `n` cells of the loop of `clear_screen`. -/
def clearCells (con : Console) : Nat → Console
  | 0 => con
  | n + 1 => (clearCells con n).storeCell (2 * UInt32.ofNat n) 32

def clearScreen (con : Console) : Console :=
  { clearCells con (80 * 25) with currentLoc := 0 }

/-- What the kernel does to the text on the screen. -/
inductive TextOut
  | print (str : List UInt8)
  | rubout
  | clear
deriving DecidableEq

def textOut (con : Console) : TextOut → Console
  | .print str => kprint con str
  | .rubout => rubOut con
  | .clear => clearScreen con

def textOuts (con : Console) (outs : List TextOut) : Console := outs.foldl textOut con

/-! ## The attributes text output writes -/

def ruboutCells (con : Console) : List UInt32 :=
  if con.currentLoc ≥ 2 then [con.currentLoc - 1] else []

def charCells (con : Console) (chr : UInt8) : List UInt32 :=
  if chr = 10 then [] else if chr = 8 then ruboutCells con else [con.currentLoc + 1]

def printCells (con : Console) : List UInt8 → List UInt32
  | [] => []
  | chr :: str => if chr = 0 then [] else charCells con chr ++ printCells (kprintChar con chr) str

/-- The offsets of the attribute bytes an output writes. -/
def textCells (con : Console) : TextOut → List UInt32
  | .print str => printCells con str
  | .rubout => ruboutCells con
  | .clear => (List.range (80 * 25)).map fun n => 2 * UInt32.ofNat n + 1

def textsCells (con : Console) : List TextOut → List UInt32
  | [] => []
  | out :: outs => textCells con out ++ textsCells (textOut con out) outs

/-! ## Painting

Characters are at even offsets and attributes at odd ones, so no character overwrites an
attribute. -/

def IsAttribute (offset : UInt32) : Prop := offset.toNat % 2 = 1

/-- The output between two states of the console: the position stays at a character, the
attributes of these cells become 0x07, and no other attribute changes. -/
structure Paints (con con' : Console) (cells : List UInt32) : Prop where
  aligned : con'.currentLoc.toNat % 2 = 0
  attributes : ∀ offset ∈ cells, IsAttribute offset
  painted : ∀ offset, IsAttribute offset →
    con'.vidptr offset = if offset ∈ cells then 0x07 else con.vidptr offset

theorem Paints.refl {con : Console} (aligned : con.currentLoc.toNat % 2 = 0) :
    Paints con con [] where
  aligned := aligned
  attributes := by simp
  painted offset _ := by simp

theorem Paints.append {con mid con' : Console} {first second : List UInt32}
    (front : Paints con mid first) (back : Paints mid con' second) :
    Paints con con' (first ++ second) where
  aligned := back.aligned
  attributes offset member := by
    rcases List.mem_append.mp member with old | new
    · exact front.attributes offset old
    · exact back.attributes offset new
  painted offset odd := by
    rw [back.painted offset odd]
    by_cases new : offset ∈ second
    · rw [if_pos new, if_pos (List.mem_append_right _ new)]
    · rw [if_neg new, front.painted offset odd]
      simp only [List.mem_append, new, or_false]

theorem toNat_succ_of_even {offset : UInt32} (even : offset.toNat % 2 = 0) :
    (offset + 1).toNat = offset.toNat + 1 := by
  have bound := offset.toNat_lt
  rw [UInt32.toNat_add, UInt32.toNat_one]
  omega

theorem storeCell_vidptr {con : Console} {offset : UInt32} (even : offset.toNat % 2 = 0)
    (chr : UInt8) {other : UInt32} (odd : IsAttribute other) :
    (con.storeCell offset chr).vidptr other =
      if other ∈ [offset + 1] then 0x07 else con.vidptr other := by
  have apart : other ≠ offset := by
    rintro rfl
    exact absurd odd (by rw [IsAttribute, even]; decide)
  simp only [Console.storeCell, Console.store, List.mem_singleton]
  by_cases same : other = offset + 1
  · rw [if_pos same, same, Function.update_self]
  · rw [if_neg same, Function.update_of_ne same, Function.update_of_ne apart]

theorem paints_storeCell {con con' : Console} {offset : UInt32} (even : offset.toNat % 2 = 0)
    (chr : UInt8) (stored : con'.vidptr = (con.storeCell offset chr).vidptr)
    (aligned : con'.currentLoc.toNat % 2 = 0) : Paints con con' [offset + 1] where
  aligned := aligned
  attributes other member := by
    rw [List.mem_singleton.mp member, IsAttribute, toNat_succ_of_even even]
    omega
  painted other odd := by
    rw [stored]
    exact storeCell_vidptr even chr odd

variable {con : Console}

theorem paints_rubOut (aligned : con.currentLoc.toNat % 2 = 0) :
    Paints con (rubOut con) (ruboutCells con) := by
  rw [rubOut, ruboutCells]
  by_cases some : con.currentLoc ≥ 2
  · have le : 2 ≤ con.currentLoc.toNat := UInt32.le_iff_toNat_le.mp some
    have even : (con.currentLoc - 2).toNat % 2 = 0 := by
      rw [UInt32.toNat_sub_of_le _ _ some]
      exact (Nat.sub_mod_eq_zero_of_mod_eq (by simpa using aligned))
    have cell : con.currentLoc - 1 = con.currentLoc - 2 + 1 := by
      rw [sub_add]
      rfl
    rw [if_pos some, if_pos some, cell]
    exact paints_storeCell even 32 rfl even
  · rw [if_neg some, if_neg some]
    exact Paints.refl aligned

/-- The start of the next row. -/
theorem toNat_newline (loc : UInt32) :
    (loc + (160 - loc % 160)).toNat = (loc.toNat + (160 - loc.toNat % 160)) % 4294967296 := by
  have column : (loc % 160).toNat = loc.toNat % 160 := UInt32.toNat_mod loc 160
  have within : loc % 160 ≤ 160 := by
    rw [UInt32.le_iff_toNat_le, column]
    exact (Nat.mod_lt _ (by decide)).le
  rw [UInt32.toNat_add, UInt32.toNat_sub_of_le _ _ within, column]
  rfl

theorem paints_kprintChar (aligned : con.currentLoc.toNat % 2 = 0) (chr : UInt8) :
    Paints con (kprintChar con chr) (charCells con chr) := by
  rw [kprintChar, charCells]
  by_cases newline : chr = 10
  · rw [if_pos newline, if_pos newline]
    refine { aligned := ?_, attributes := by simp, painted := fun offset _ => by simp }
    rw [toNat_newline]
    omega
  by_cases back : chr = 8
  · rw [if_neg newline, if_neg newline, if_pos back, if_pos back]
    exact paints_rubOut aligned
  rw [if_neg newline, if_neg newline, if_neg back, if_neg back]
  refine paints_storeCell aligned chr rfl ?_
  rw [UInt32.toNat_add, toNat_succ_of_even aligned, UInt32.toNat_one]
  omega

theorem paints_kprint (aligned : con.currentLoc.toNat % 2 = 0) (str : List UInt8) :
    Paints con (kprint con str) (printCells con str) := by
  induction str generalizing con with
  | nil => exact Paints.refl aligned
  | cons chr str ih =>
    rw [kprint, printCells]
    by_cases stop : chr = 0
    · rw [if_pos stop, if_pos stop]
      exact Paints.refl aligned
    · rw [if_neg stop, if_neg stop]
      have step := paints_kprintChar aligned chr
      exact step.append (ih step.aligned)

theorem paints_clearCells (aligned : con.currentLoc.toNat % 2 = 0) (n : Nat) :
    Paints con (clearCells con n)
      ((List.range n).map fun n => 2 * UInt32.ofNat n + 1) := by
  induction n with
  | zero => exact Paints.refl aligned
  | succ n ih =>
    rw [List.range_succ, List.map_append]
    refine ih.append (paints_storeCell ?_ 32 rfl ih.aligned)
    rw [UInt32.toNat_mul]
    simp only [UInt32.reduceToNat]
    omega

theorem paints_textOut (aligned : con.currentLoc.toNat % 2 = 0) (out : TextOut) :
    Paints con (textOut con out) (textCells con out) := by
  cases out with
  | print str => exact paints_kprint aligned str
  | rubout => exact paints_rubOut aligned
  | clear =>
    have cleared := paints_clearCells aligned (80 * 25)
    exact { cleared with aligned := rfl }

/-- Text output sets the attributes of its cells to 0x07 and changes no other. -/
theorem paints_textOuts (aligned : con.currentLoc.toNat % 2 = 0) (outs : List TextOut) :
    Paints con (textOuts con outs) (textsCells con outs) := by
  induction outs generalizing con with
  | nil => exact Paints.refl aligned
  | cons out outs ih =>
    have step := paints_textOut aligned out
    exact step.append (ih step.aligned)

end MOKernel
