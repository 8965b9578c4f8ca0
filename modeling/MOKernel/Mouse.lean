import MOKernel.Console

/-!
# The mouse handler

The mouse part of `kernel.c`: the packet, the position and the cursor, which is an
inverted attribute.  `char` is signed here, so the bytes of a packet are; the other ports
are left out.

`cInt` is the value of an expression of type `int`, which an overflow does not have.  The
checked handler is `mouse_handler_main` with every intermediate value taken through `cInt`
and every access of video memory checked against its 4000 bytes.
-/

namespace MOKernel

structure Mouse where
  mouseCycle : Int
  mouseByte : Vector Int8 3
  mouseX : Int
  mouseY : Int

/-- The initial values of the globals. -/
def mouseBoot : Mouse := ⟨0, Vector.replicate _ 0, 40, 12⟩

/-- The offset of the attribute under the cursor. -/
def Mouse.pointer (mouse : Mouse) : UInt32 :=
  UInt32.ofInt ((mouse.mouseY * 80 + mouse.mouseX) * 2 + 1)

def updateMouseCursor (con : Console) (mouse : Mouse) (invert : Bool) : Console :=
  if invert then con.store mouse.pointer (con.vidptr mouse.pointer ^^^ 0x77) else con

/-- The four `if` lines that keep the position on the screen. -/
def clampMouse (mouse : Mouse) : Mouse :=
  let mouse := if mouse.mouseX < 0 then { mouse with mouseX := 0 } else mouse
  let mouse := if mouse.mouseX > 79 then { mouse with mouseX := 79 } else mouse
  let mouse := if mouse.mouseY < 0 then { mouse with mouseY := 24 } else mouse
  if mouse.mouseY > 24 then { mouse with mouseY := 24 } else mouse

/-- The third byte of a packet moves the mouse. -/
def moveMouse (mouse : Mouse) : Mouse :=
  let mouse :=
    if mouse.mouseByte[0] &&& 0x10 ≠ 0 then
      { mouse with mouseX := mouse.mouseX - (256 - mouse.mouseByte[1].toInt) }
    else { mouse with mouseX := mouse.mouseX + mouse.mouseByte[1].toInt }
  let mouse :=
    if mouse.mouseByte[0] &&& 0x20 ≠ 0 then
      { mouse with mouseY := mouse.mouseY + (256 - mouse.mouseByte[2].toInt) }
    else { mouse with mouseY := mouse.mouseY - mouse.mouseByte[2].toInt }
  clampMouse mouse

/-- The `switch` on `mouse_cycle`. -/
def mousePacket (mouse : Mouse) (byte : UInt8) : Mouse :=
  if mouse.mouseCycle = 0 then
    -- without the sync bit the byte is dropped
    if byte &&& 0x08 = 0 then mouse
    else
      { mouse with
        mouseByte := mouse.mouseByte.set 0 byte.toInt8, mouseCycle := mouse.mouseCycle + 1 }
  else if mouse.mouseCycle = 1 then
    { mouse with
      mouseByte := mouse.mouseByte.set 1 byte.toInt8, mouseCycle := mouse.mouseCycle + 1 }
  else if mouse.mouseCycle = 2 then
    { moveMouse { mouse with mouseByte := mouse.mouseByte.set 2 byte.toInt8 } with mouseCycle := 0 }
  else mouse

def mouseHandlerMain (con : Console) (mouse : Mouse) (status byte : UInt8) : Console × Mouse :=
  if status &&& 1 = 0 then (con, mouse)
  else
    let con := updateMouseCursor con mouse true
    let mouse := mousePacket mouse byte
    (updateMouseCursor con mouse true, mouse)

/-! ## The checked handler -/

/-- The value of an `int` expression; `none` is an overflow. -/
def cInt (x : Int) : Option Int :=
  if -2147483648 ≤ x ∧ x ≤ 2147483647 then some x else none

theorem cInt_eq_some {x : Int} (low : -2147483648 ≤ x) (high : x ≤ 2147483647) :
    cInt x = some x := if_pos ⟨low, high⟩

/-- A value in range is passed on. -/
theorem cInt_bind {α : Type} {x : Int} (low : -2147483648 ≤ x) (high : x ≤ 2147483647)
    (rest : Int → Option α) : (cInt x >>= rest) = rest x := by
  rw [cInt_eq_some low high]
  rfl

/-- Bytes of video memory: 25 lines of 80 cells. -/
abbrev vidSize : Int := 4000

def updateMouseCursorChecked (con : Console) (mouse : Mouse) : Option Console := do
  let row ← cInt (mouse.mouseY * 80)
  let cell ← cInt (row + mouse.mouseX)
  let pos ← cInt (cell * 2)
  let index ← cInt (pos + 1)
  if 0 ≤ index ∧ index < vidSize then
    some (con.store (UInt32.ofInt index) (con.vidptr (UInt32.ofInt index) ^^^ 0x77))
  else none

def movedXChecked (mouse : Mouse) : Option Int :=
  if mouse.mouseByte[0] &&& 0x10 ≠ 0 then do
    let back ← cInt (256 - mouse.mouseByte[1].toInt)
    cInt (mouse.mouseX - back)
  else cInt (mouse.mouseX + mouse.mouseByte[1].toInt)

def movedYChecked (mouse : Mouse) : Option Int :=
  if mouse.mouseByte[0] &&& 0x20 ≠ 0 then do
    let back ← cInt (256 - mouse.mouseByte[2].toInt)
    cInt (mouse.mouseY + back)
  else cInt (mouse.mouseY - mouse.mouseByte[2].toInt)

def moveMouseChecked (mouse : Mouse) : Option Mouse := do
  let x ← movedXChecked mouse
  let y ← movedYChecked mouse
  pure (clampMouse { mouse with mouseX := x, mouseY := y })

def mousePacketChecked (mouse : Mouse) (byte : UInt8) : Option Mouse :=
  if mouse.mouseCycle = 0 then
    if byte &&& 0x08 = 0 then some mouse
    else do
      let cycle ← cInt (mouse.mouseCycle + 1)
      pure { mouse with mouseByte := mouse.mouseByte.set 0 byte.toInt8, mouseCycle := cycle }
  else if mouse.mouseCycle = 1 then do
    let cycle ← cInt (mouse.mouseCycle + 1)
    pure { mouse with mouseByte := mouse.mouseByte.set 1 byte.toInt8, mouseCycle := cycle }
  else if mouse.mouseCycle = 2 then do
    let mouse ← moveMouseChecked { mouse with mouseByte := mouse.mouseByte.set 2 byte.toInt8 }
    pure { mouse with mouseCycle := 0 }
  else some mouse

def mouseHandlerMainChecked (con : Console) (mouse : Mouse) (status byte : UInt8) :
    Option (Console × Mouse) :=
  if status &&& 1 = 0 then some (con, mouse)
  else do
    let con ← updateMouseCursorChecked con mouse
    let mouse ← mousePacketChecked mouse byte
    let con ← updateMouseCursorChecked con mouse
    pure (con, mouse)

/-! ## The position -/

/-- The position a packet asks for, before it is clamped. -/
def movedX (mouse : Mouse) : Int :=
  if mouse.mouseByte[0] &&& 0x10 ≠ 0 then mouse.mouseX - (256 - mouse.mouseByte[1].toInt)
  else mouse.mouseX + mouse.mouseByte[1].toInt

def movedY (mouse : Mouse) : Int :=
  if mouse.mouseByte[0] &&& 0x20 ≠ 0 then mouse.mouseY + (256 - mouse.mouseByte[2].toInt)
  else mouse.mouseY - mouse.mouseByte[2].toInt

structure Mouse.OnScreen (mouse : Mouse) : Prop where
  left : 0 ≤ mouse.mouseX
  right : mouse.mouseX ≤ 79
  top : 0 ≤ mouse.mouseY
  bottom : mouse.mouseY ≤ 24

theorem mouseBoot_onScreen : mouseBoot.OnScreen := by constructor <;> decide

theorem clampMouse_mouseX (mouse : Mouse) :
    (clampMouse mouse).mouseX = max 0 (min mouse.mouseX 79) := by
  unfold clampMouse
  simp only [apply_ite Mouse.mouseX, apply_ite Mouse.mouseY, ite_self]
  split_ifs <;> omega

theorem clampMouse_mouseY (mouse : Mouse) :
    (clampMouse mouse).mouseY = if mouse.mouseY < 0 then 24 else min mouse.mouseY 24 := by
  unfold clampMouse
  simp only [apply_ite Mouse.mouseX, apply_ite Mouse.mouseY, ite_self]
  split_ifs <;> omega

theorem clampMouse_onScreen (mouse : Mouse) : (clampMouse mouse).OnScreen where
  left := by rw [clampMouse_mouseX]; omega
  right := by rw [clampMouse_mouseX]; omega
  top := by rw [clampMouse_mouseY]; split <;> omega
  bottom := by rw [clampMouse_mouseY]; split <;> omega

theorem mousePacket_onScreen {mouse : Mouse} (inside : mouse.OnScreen) (byte : UInt8) :
    (mousePacket mouse byte).OnScreen := by
  obtain ⟨left, right, top, bottom⟩ := inside
  unfold mousePacket
  split_ifs
  · exact ⟨left, right, top, bottom⟩
  · exact ⟨left, right, top, bottom⟩
  · exact ⟨left, right, top, bottom⟩
  · obtain ⟨left', right', top', bottom'⟩ := clampMouse_onScreen _
    exact ⟨left', right', top', bottom'⟩
  · exact ⟨left, right, top, bottom⟩

theorem Mouse.OnScreen.toNat_pointer {mouse : Mouse} (inside : mouse.OnScreen) :
    (mouse.pointer.toNat : Int) = (mouse.mouseY * 80 + mouse.mouseX) * 2 + 1 := by
  obtain ⟨left, right, top, bottom⟩ := inside
  rw [Mouse.pointer, UInt32.ofInt, UInt32.toNat_ofNat']
  omega

/-- The cursor is on an attribute. -/
theorem Mouse.OnScreen.pointer_odd {mouse : Mouse} (inside : mouse.OnScreen) :
    IsAttribute mouse.pointer := by
  have offset := inside.toNat_pointer
  rw [IsAttribute]
  omega

/-- It is on the screen. -/
theorem Mouse.OnScreen.pointer_lt {mouse : Mouse} (inside : mouse.OnScreen) :
    mouse.pointer.toNat < 4000 := by
  have offset := inside.toNat_pointer
  obtain ⟨left, right, top, bottom⟩ := inside
  omega

/-! ## The cursor -/

theorem xor_cancel (attr mask : UInt8) : attr ^^^ mask ^^^ mask = attr := by
  rw [UInt8.xor_assoc, UInt8.xor_self, UInt8.xor_zero]

theorem updateMouseCursor_pointer (con : Console) (mouse : Mouse) :
    (updateMouseCursor con mouse true).vidptr mouse.pointer = con.vidptr mouse.pointer ^^^ 0x77 :=
  Function.update_self ..

theorem updateMouseCursor_other (con : Console) (mouse : Mouse) {offset : UInt32}
    (apart : offset ≠ mouse.pointer) :
    (updateMouseCursor con mouse true).vidptr offset = con.vidptr offset :=
  Function.update_of_ne apart ..

/-- The attributes after the handler: the two positions exchange their inversion. -/
theorem mouseHandlerMain_cases (con : Console) (mouse : Mouse) (status byte : UInt8) :
    let outcome := mouseHandlerMain con mouse status byte
    outcome.1.currentLoc = con.currentLoc ∧
      (outcome.2.pointer = mouse.pointer ∧ outcome.1.vidptr = con.vidptr ∨
        outcome.2.pointer ≠ mouse.pointer ∧
          outcome.1.vidptr mouse.pointer = con.vidptr mouse.pointer ^^^ 0x77 ∧
          outcome.1.vidptr outcome.2.pointer = con.vidptr outcome.2.pointer ^^^ 0x77 ∧
          ∀ offset, offset ≠ mouse.pointer → offset ≠ outcome.2.pointer →
            outcome.1.vidptr offset = con.vidptr offset) := by
  rw [mouseHandlerMain]
  by_cases idle : status &&& 1 = 0
  · rw [if_pos idle]
    exact ⟨rfl, .inl ⟨rfl, rfl⟩⟩
  rw [if_neg idle]
  refine ⟨rfl, ?_⟩
  by_cases still : (mousePacket mouse byte).pointer = mouse.pointer
  · refine .inl ⟨still, funext fun offset => ?_⟩
    by_cases here : offset = mouse.pointer
    · rw [here, ← still, updateMouseCursor_pointer, still, updateMouseCursor_pointer, xor_cancel]
    · rw [updateMouseCursor_other _ _ (still ▸ here), updateMouseCursor_other _ _ here]
  · refine .inr ⟨still, ?_, ?_, fun offset notOld notNew => ?_⟩
    · rw [updateMouseCursor_other _ _ (Ne.symm still), updateMouseCursor_pointer]
    · rw [updateMouseCursor_pointer, updateMouseCursor_other _ _ still]
    · rw [updateMouseCursor_other _ _ notNew, updateMouseCursor_other _ _ notOld]

theorem mouseHandlerMain_onScreen {mouse : Mouse} (inside : mouse.OnScreen) (con : Console)
    (status byte : UInt8) : (mouseHandlerMain con mouse status byte).2.OnScreen := by
  rw [mouseHandlerMain]
  split
  · exact inside
  · exact mousePacket_onScreen inside byte

/-- The handler changes attributes alone. -/
theorem mouseHandlerMain_kept {mouse : Mouse} (inside : mouse.OnScreen) (con : Console)
    (status byte : UInt8) {offset : UInt32} (plain : ¬IsAttribute offset) :
    (mouseHandlerMain con mouse status byte).1.vidptr offset = con.vidptr offset := by
  have inside' := mouseHandlerMain_onScreen inside con status byte
  rcases (mouseHandlerMain_cases con mouse status byte).2 with ⟨_, same⟩ | ⟨_, _, _, kept⟩
  · rw [same]
  · refine kept offset ?_ ?_
    · rintro rfl
      exact plain inside.pointer_odd
    · rintro rfl
      exact plain inside'.pointer_odd

end MOKernel
