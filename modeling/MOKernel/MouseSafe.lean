import MOKernel.Mouse

/-!
# Safety of the mouse handler

`mouse_safe`: whatever bytes and status values arrive, the checked handler never fails and
agrees with the handler, the packet state and the position stay in their ranges, and a
call changes at most the attributes of the old and the new cell.
-/

namespace MOKernel

/-! ## Agreement -/

/-- The packet state is a `case` of the `switch` and the position is on the screen. -/
structure Mouse.Sound (mouse : Mouse) : Prop extends mouse.OnScreen where
  least : 0 ≤ mouse.mouseCycle
  most : mouse.mouseCycle ≤ 2

variable {mouse : Mouse}

theorem mouseBoot_sound : mouseBoot.Sound :=
  { mouseBoot_onScreen with least := by decide, most := by decide }

theorem updateMouseCursorChecked_eq (inside : mouse.OnScreen) (con : Console) :
    updateMouseCursorChecked con mouse = some (updateMouseCursor con mouse true) := by
  obtain ⟨left, right, top, bottom⟩ := inside
  rw [updateMouseCursorChecked, cInt_bind (by omega) (by omega), cInt_bind (by omega) (by omega),
    cInt_bind (by omega) (by omega), cInt_bind (by omega) (by omega),
    if_pos ⟨by omega, by simp only [vidSize]; omega⟩]
  rfl

/-- A byte of the packet. -/
theorem toInt_bounds (b : Int8) : -128 ≤ b.toInt ∧ b.toInt ≤ 127 := by
  have low := Int8.le_toInt b
  have high := Int8.toInt_lt b
  omega

theorem moveMouse_eq (mouse : Mouse) :
    moveMouse mouse = clampMouse { mouse with mouseX := movedX mouse, mouseY := movedY mouse } := by
  have x : (if mouse.mouseByte[0] &&& 0x10 ≠ 0 then
      { mouse with mouseX := mouse.mouseX - (256 - mouse.mouseByte[1].toInt) }
      else { mouse with mouseX := mouse.mouseX + mouse.mouseByte[1].toInt }) =
        { mouse with mouseX := movedX mouse } := by
    rw [movedX]
    split <;> rfl
  unfold moveMouse
  simp only [x, movedY]
  split <;> rfl

theorem movedXChecked_eq (inside : mouse.OnScreen) : movedXChecked mouse = some (movedX mouse) := by
  have byte := toInt_bounds mouse.mouseByte[1]
  obtain ⟨left, right, -, -⟩ := inside
  rw [movedXChecked, movedX]
  split
  · rw [cInt_bind (by omega) (by omega), cInt_eq_some (by omega) (by omega)]
  · rw [cInt_eq_some (by omega) (by omega)]

theorem movedYChecked_eq (inside : mouse.OnScreen) : movedYChecked mouse = some (movedY mouse) := by
  have byte := toInt_bounds mouse.mouseByte[2]
  obtain ⟨-, -, top, bottom⟩ := inside
  rw [movedYChecked, movedY]
  split
  · rw [cInt_bind (by omega) (by omega), cInt_eq_some (by omega) (by omega)]
  · rw [cInt_eq_some (by omega) (by omega)]

theorem moveMouseChecked_eq (inside : mouse.OnScreen) :
    moveMouseChecked mouse = some (moveMouse mouse) := by
  rw [moveMouseChecked, movedXChecked_eq inside, movedYChecked_eq inside, moveMouse_eq]
  rfl

theorem mousePacketChecked_eq (sound : mouse.Sound) (byte : UInt8) :
    mousePacketChecked mouse byte = some (mousePacket mouse byte) := by
  obtain ⟨inside, least, most⟩ := sound
  rw [mousePacketChecked, mousePacket]
  split
  · split
    · rfl
    · rw [cInt_bind (by omega) (by omega)]
      rfl
  · split
    · rw [cInt_bind (by omega) (by omega)]
      rfl
    · split
      · have moved : Mouse.OnScreen
            { mouse with mouseByte := mouse.mouseByte.set 2 byte.toInt8 } :=
          ⟨inside.left, inside.right, inside.top, inside.bottom⟩
        rw [moveMouseChecked_eq moved]
        rfl
      · rfl

theorem mousePacket_sound (sound : mouse.Sound) (byte : UInt8) :
    (mousePacket mouse byte).Sound := by
  have inside := mousePacket_onScreen sound.toOnScreen byte
  obtain ⟨-, least, most⟩ := sound
  suffices cycle : 0 ≤ (mousePacket mouse byte).mouseCycle ∧
      (mousePacket mouse byte).mouseCycle ≤ 2 from
    { inside with least := cycle.1, most := cycle.2 }
  rw [mousePacket]
  split
  · split
    · exact ⟨least, most⟩
    · simp only
      omega
  · split
    · simp only
      omega
    · split
      · simp only
        omega
      · exact ⟨least, most⟩

/-- The checked handler is the handler. -/
theorem mouseHandlerMainChecked_eq (sound : mouse.Sound) (con : Console) (status byte : UInt8) :
    mouseHandlerMainChecked con mouse status byte =
      some (mouseHandlerMain con mouse status byte) := by
  rw [mouseHandlerMainChecked, mouseHandlerMain]
  split
  · rfl
  · rw [updateMouseCursorChecked_eq sound.toOnScreen, mousePacketChecked_eq sound]
    simp only [Option.bind_eq_bind, Option.bind_some]
    rw [updateMouseCursorChecked_eq (mousePacket_sound sound byte).toOnScreen]
    rfl

theorem mouseHandlerMain_sound (sound : mouse.Sound) (con : Console) (status byte : UInt8) :
    (mouseHandlerMain con mouse status byte).2.Sound := by
  rw [mouseHandlerMain]
  split
  · exact sound
  · exact mousePacket_sound sound byte

/-! ## Runs -/

/-- A call of `mouse_handler_main`: what it finds on the screen, the status and the byte it
reads. -/
structure MouseCall where
  con : Console
  status : UInt8
  byte : UInt8

def MouseCall.perform (mouse : Mouse) (call : MouseCall) : Console × Mouse :=
  mouseHandlerMain call.con mouse call.status call.byte

/-- The globals after a sequence of calls. -/
def mouseRun (mouse : Mouse) (calls : List MouseCall) : Mouse :=
  calls.foldl (fun mouse call => (call.perform mouse).2) mouse

theorem mouseRun_sound (sound : mouse.Sound) (calls : List MouseCall) :
    (mouseRun mouse calls).Sound := by
  induction calls generalizing mouse with
  | nil => exact sound
  | cons call calls ih =>
    exact ih (mouseHandlerMain_sound sound call.con call.status call.byte)

/-- The net effect of a call on video memory: none if the position stays, and else the
attributes of the old and the new cell are inverted. -/
structure CursorMoved (con : Console) (mouse : Mouse) (con' : Console) (mouse' : Mouse) :
    Prop where
  location : con'.currentLoc = con.currentLoc
  still : mouse'.mouseX = mouse.mouseX → mouse'.mouseY = mouse.mouseY → con'.vidptr = con.vidptr
  moved : ¬ (mouse'.mouseX = mouse.mouseX ∧ mouse'.mouseY = mouse.mouseY) → ∀ offset,
    con'.vidptr offset = if offset = mouse.pointer ∨ offset = mouse'.pointer then
      con.vidptr offset ^^^ 0x77 else con.vidptr offset

/-- On the screen the position and the attribute under it determine each other. -/
theorem Mouse.OnScreen.pointer_eq_iff {mouse' : Mouse} (inside : mouse.OnScreen)
    (inside' : mouse'.OnScreen) :
    mouse'.pointer = mouse.pointer ↔
      mouse'.mouseX = mouse.mouseX ∧ mouse'.mouseY = mouse.mouseY := by
  have value := inside.toNat_pointer
  have value' := inside'.toNat_pointer
  obtain ⟨left, right, top, bottom⟩ := inside
  obtain ⟨left', right', top', bottom'⟩ := inside'
  rw [← UInt32.toNat_inj]
  omega

theorem mouseHandlerMain_moves (sound : mouse.Sound) (con : Console) (status byte : UInt8) :
    CursorMoved con mouse (mouseHandlerMain con mouse status byte).1
      (mouseHandlerMain con mouse status byte).2 := by
  have sound' := mouseHandlerMain_sound sound con status byte
  have same := sound.toOnScreen.pointer_eq_iff sound'.toOnScreen
  obtain ⟨location, still | ⟨apart, old, new, others⟩⟩ :=
    mouseHandlerMain_cases con mouse status byte
  · exact ⟨location, fun _ _ => still.2, fun moved => absurd (same.mp still.1) moved⟩
  · refine ⟨location, fun x y => absurd (same.mpr ⟨x, y⟩) apart, fun _ offset => ?_⟩
    split
    · rename_i touched
      rcases touched with rfl | rfl
      · exact old
      · exact new
    · rename_i untouched
      obtain ⟨notOld, notNew⟩ := not_or.mp untouched
      exact others offset notOld notNew

/-- **Safety and neutrality of the mouse handler.**  After any calls from the boot values,
with any bytes and status values and any screen, the next call overflows no `int` and
accesses no byte outside video memory, leaves the packet state and the position in
their ranges, and inverts the attributes of the old and the new cell at most. -/
theorem mouse_safe (calls : List MouseCall) (call : MouseCall) :
    let mouse := mouseRun mouseBoot calls
    mouseHandlerMainChecked call.con mouse call.status call.byte = some (call.perform mouse) ∧
      (call.perform mouse).2.Sound ∧ mouse.pointer.toNat < 4000 ∧
      (call.perform mouse).2.pointer.toNat < 4000 ∧
      CursorMoved call.con mouse (call.perform mouse).1 (call.perform mouse).2 := by
  intro mouse
  have sound : mouse.Sound := mouseRun_sound mouseBoot_sound calls
  have sound' := mouseHandlerMain_sound sound call.con call.status call.byte
  exact ⟨mouseHandlerMainChecked_eq sound _ _ _, sound', sound.toOnScreen.pointer_lt,
    sound'.toOnScreen.pointer_lt, mouseHandlerMain_moves sound _ _ _⟩

end MOKernel
