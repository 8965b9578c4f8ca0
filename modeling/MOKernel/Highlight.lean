import MOKernel.LineEditor
import MOKernel.Mouse

/-!
# The pointer highlight

The screen from `load_idt` on: text output, the keyboard and the mouse share the attributes.
`given` is no variable of the kernel; it records the attribute text output last gave each
offset, and `Highlight` says what the attributes are in its terms.

Interrupts come before `kmain` has drawn the cursor, and the mouse handler inverts the cell it
leaves and the one it reaches whether or not there is a cursor.  So the cursor is there at
first exactly if these inversions cancel on every cell (`EvenlyCrossed`), and from then on it
survives exactly the runs in which no text output reaches the cell under it, since text output
does not lift the cursor as the mouse handler does.
-/

namespace MOKernel

structure Screen where
  console : Console
  keyboard : Keyboard
  mouse : Mouse
  given : UInt32 → Option UInt8

/-- An interrupt or a text output of the kernel; `shown` is the output of the command, if
the key executes one. -/
inductive ScreenEvent
  | keyboard (status keycode : UInt8) (shown : List TextOut)
  | mouse (status byte : UInt8)
  | output (outs : List TextOut)

/-- The text output of an effect of the keyboard handler. -/
def KbdEffect.text (shown : List TextOut) : KbdEffect → List TextOut
  | .print s => [.print s]
  | .rubout => [.rubout]
  | .execute _ => shown

namespace Screen

def emit (s : Screen) (outs : List TextOut) : Screen :=
  { s with
    console := textOuts s.console outs
    given := fun offset =>
      if offset ∈ textsCells s.console outs then some 0x07 else s.given offset }

def step (s : Screen) : ScreenEvent → Option Screen
  | .keyboard status keycode shown =>
    (keyboardHandlerMain s.keyboard status keycode).map fun handled =>
      { s.emit (handled.2.flatMap (·.text shown)) with keyboard := handled.1 }
  | .mouse status byte =>
    let handled := mouseHandlerMain s.console s.mouse status byte
    some { s with console := handled.1, mouse := handled.2 }
  | .output outs => some (s.emit outs)

def run (s : Screen) : List ScreenEvent → Option Screen
  | [] => some s
  | event :: events => (s.step event).bind (·.run events)

/-- The text output of an event. -/
def texts (s : Screen) : ScreenEvent → List TextOut
  | .keyboard status keycode shown =>
    (keyboardHandlerMain s.keyboard status keycode).elim [] (·.2.flatMap (·.text shown))
  | .mouse _ _ => []
  | .output outs => outs

/-- The attributes the text output of an event writes. -/
def overwrites (s : Screen) (event : ScreenEvent) : List UInt32 :=
  textsCells s.console (s.texts event)

/-- `kmain` up to the `sti` of `load_idt`, over the text it has put out. -/
def booted (memory : UInt32 → UInt8) (text : List TextOut) : Screen :=
  Screen.emit ⟨⟨memory, 0⟩, keyboardBoot, mouseBoot, fun _ => none⟩ text

/-- `update_mouse_cursor(1)`. -/
def drawCursor (s : Screen) : Screen :=
  { s with console := updateMouseCursor s.console s.mouse true }

/-- `kmain` up to the cursor; `early` are the interrupts and the text output since `load_idt`. -/
def kmain (memory : UInt32 → UInt8) (text : List TextOut) (early : List ScreenEvent) :
    Option Screen :=
  ((booted memory text).run early).map drawCursor

/-- Has the pointer left or reached the cell an odd number of times since text output last
wrote it?  `odd` is what was so before the event. -/
def crossing (s s' : Screen) (event : ScreenEvent) (odd : UInt32 → Bool) (offset : UInt32) : Bool :=
  if offset ∈ s.overwrites event then false
  else odd offset ^^ decide (offset = s.mouse.pointer) ^^ decide (offset = s'.mouse.pointer)

/-- The same after a run. -/
def crossed (s : Screen) (odd : UInt32 → Bool) : List ScreenEvent → UInt32 → Bool
  | [] => odd
  | event :: events =>
    match s.step event with
    | none => odd
    | some s' => crossed s' (s.crossing s' event odd) events

/-- The cursor is on the screen, the attribute under it is inverted, and every other
attribute is the one text output gave it. -/
structure Highlight (s : Screen) : Prop where
  inside : s.mouse.OnScreen
  cells : ∀ offset attr, s.given offset = some attr →
    s.console.vidptr offset = if offset = s.mouse.pointer then attr ^^^ 0x77 else attr

/-- Every attribute is the one text output gave it, inverted on the cells that `odd` names. -/
def Inverted (s : Screen) (odd : UInt32 → Bool) : Prop :=
  ∀ offset attr, s.given offset = some attr →
    s.console.vidptr offset = if odd offset then attr ^^^ 0x77 else attr

/-- What holds of every screen after `kmain`, whatever the attributes are. -/
structure Sound (s : Screen) : Prop where
  aligned : s.console.currentLoc.toNat % 2 = 0
  given : ∀ offset attr, s.given offset = some attr → IsAttribute offset
  inside : s.mouse.OnScreen
  keyboard : ∃ m ed, Represents s.keyboard m ed

/-- An event is text output, or the mouse handler. -/
theorem step_cases {s s' : Screen} {event : ScreenEvent} (stepped : s.step event = some s') :
    (∃ kb, s' = { s.emit (s.texts event) with keyboard := kb }) ∨
      s.overwrites event = [] ∧ s'.given = s.given ∧ ∃ status byte,
        s'.console = (mouseHandlerMain s.console s.mouse status byte).1 ∧
        s'.mouse = (mouseHandlerMain s.console s.mouse status byte).2 := by
  cases event with
  | keyboard status keycode shown =>
    rw [step, Option.map_eq_some_iff] at stepped
    obtain ⟨handled, ran, rfl⟩ := stepped
    exact .inl ⟨handled.1, by rw [texts, ran]; rfl⟩
  | mouse status byte =>
    obtain rfl := Option.some.inj stepped
    exact .inr ⟨rfl, rfl, status, byte, rfl, rfl⟩
  | output outs =>
    obtain rfl := Option.some.inj stepped
    exact .inl ⟨s.keyboard, rfl⟩

variable {s s' : Screen} {event : ScreenEvent}

theorem Sound.paints (sound : Sound s) (outs : List TextOut) :
    Paints s.console (s.emit outs).console (textsCells s.console outs) :=
  paints_textOuts sound.aligned outs

/-- The attributes after a text output. -/
theorem Sound.emit_given (sound : Sound s) {outs : List TextOut} {offset : UInt32} {attr : UInt8}
    (given : (s.emit outs).given offset = some attr) :
    offset ∈ textsCells s.console outs ∧ attr = 0x07 ∧
        (s.emit outs).console.vidptr offset = 0x07 ∨
      offset ∉ textsCells s.console outs ∧ s.given offset = some attr ∧
        (s.emit outs).console.vidptr offset = s.console.vidptr offset := by
  have paints := sound.paints outs
  by_cases written : offset ∈ textsCells s.console outs
  · have last : some (0x07 : UInt8) = some attr := (if_pos written).symm.trans given
    refine .inl ⟨written, (Option.some.inj last).symm, ?_⟩
    rw [paints.painted _ (paints.attributes _ written), if_pos written]
  · have old : s.given offset = some attr := (if_neg written).symm.trans given
    refine .inr ⟨written, old, ?_⟩
    rw [paints.painted _ (sound.given _ _ old), if_neg written]

theorem Sound.emit (sound : Sound s) (outs : List TextOut) : Sound (s.emit outs) := by
  have paints := sound.paints outs
  refine { sound with aligned := paints.aligned, given := fun offset attr held => ?_ }
  rcases sound.emit_given held with ⟨written, _⟩ | ⟨_, old, _⟩
  · exact paints.attributes offset written
  · exact sound.given offset attr old

theorem Sound.step (sound : Sound s) (event : ScreenEvent) :
    ∃ s', s.step event = some s' ∧ Sound s' := by
  cases event with
  | keyboard status keycode shown =>
    obtain ⟨m, ed, rep⟩ := sound.keyboard
    obtain ⟨kb, effects, ran, rep'⟩ := rep.total status keycode
    refine ⟨{ s.emit (effects.flatMap (·.text shown)) with keyboard := kb }, ?_,
      { sound.emit _ with keyboard := rep' }⟩
    rw [Screen.step, ran]
    rfl
  | mouse status byte =>
    have moved := (mouseHandlerMain_cases s.console s.mouse status byte).1
    exact ⟨_, rfl, { sound with
      aligned := by rw [moved]; exact sound.aligned
      inside := mouseHandlerMain_onScreen sound.inside s.console status byte }⟩
  | output outs => exact ⟨_, rfl, sound.emit outs⟩

/-- A step whose text output leaves the cell under the cursor alone keeps the highlight. -/
theorem Highlight.step (light : Highlight s) (sound : Sound s) (stepped : s.step event = some s')
    (spared : s.mouse.pointer ∉ s.overwrites event) : Highlight s' := by
  rcases step_cases stepped with ⟨kb, rfl⟩ | ⟨_, same, status, byte, console, mouse⟩
  · refine ⟨light.inside, fun offset attr given => ?_⟩
    rcases sound.emit_given given with ⟨written, rfl, painted⟩ | ⟨_, old, kept⟩
    · have apart : offset ≠ s.mouse.pointer := fun here => spared (here ▸ written)
      exact painted.trans (if_neg apart).symm
    · exact kept.trans (light.cells offset attr old)
  · refine ⟨?_, fun offset attr given => ?_⟩
    · rw [mouse]
      exact mouseHandlerMain_onScreen light.inside s.console status byte
    rw [same] at given
    have before := light.cells offset attr given
    rw [console, mouse]
    rcases (mouseHandlerMain_cases s.console s.mouse status byte).2 with
      ⟨still, kept⟩ | ⟨moved, lifted, drawn, kept⟩
    · rw [still, kept]
      exact before
    by_cases old : offset = s.mouse.pointer
    · rw [if_pos old] at before
      rw [old, lifted, if_neg (Ne.symm moved), ← old, before, xor_cancel]
    · rw [if_neg old] at before
      by_cases new : offset = (mouseHandlerMain s.console s.mouse status byte).2.pointer
      · rw [if_pos new, new, drawn, ← new, before]
      · rw [if_neg new, kept offset old new, before]

/-- Text output into the cell under the cursor loses the highlight. -/
theorem Sound.lost (sound : Sound s) (stepped : s.step event = some s')
    (reached : s.mouse.pointer ∈ s.overwrites event) : ¬ Highlight s' := by
  rcases step_cases stepped with ⟨kb, rfl⟩ | ⟨none, _⟩
  · intro light
    have given : (s.emit (s.texts event)).given s.mouse.pointer = some 0x07 := if_pos reached
    have shown := light.cells _ _ given
    have paints := sound.paints (s.texts event)
    have plain : (s.emit (s.texts event)).console.vidptr s.mouse.pointer = 0x07 := by
      rw [paints.painted _ (paints.attributes _ reached)]
      exact if_pos reached
    exact absurd (plain.symm.trans (shown.trans (if_pos rfl))) (by decide)
  · rw [none] at reached
    cases reached

/-! ## Runs -/

theorem Sound.run (sound : Sound s) (events : List ScreenEvent) :
    ∃ s', s.run events = some s' ∧ Sound s' := by
  induction events generalizing s with
  | nil => exact ⟨s, rfl, sound⟩
  | cons event events ih =>
    obtain ⟨mid, stepped, sound₁⟩ := sound.step event
    obtain ⟨s', ran, sound₂⟩ := ih sound₁
    refine ⟨s', ?_, sound₂⟩
    rw [Screen.run, stepped]
    exact ran

theorem Sound.of_run (sound : Sound s) {events : List ScreenEvent}
    (ran : s.run events = some s') : Sound s' := by
  obtain ⟨last, ran', sound'⟩ := sound.run events
  obtain rfl := Option.some.inj (ran'.symm.trans ran)
  exact sound'

theorem sound_boot (memory : UInt32 → UInt8) :
    Sound ⟨⟨memory, 0⟩, keyboardBoot, mouseBoot, fun _ => none⟩ where
  aligned := rfl
  given _ _ given := nomatch given
  inside := mouseBoot_onScreen
  keyboard := ⟨_, _, represents_boot⟩

/-! ## Up to the cursor -/

/-- The inversions after a step. -/
theorem Inverted.step {odd : UInt32 → Bool} (inverted : s.Inverted odd) (sound : Sound s)
    (stepped : s.step event = some s') : s'.Inverted (s.crossing s' event odd) := by
  intro offset attr given
  have cleared (written : offset ∈ s.overwrites event) : s.crossing s' event odd offset = false :=
    if_pos written
  have kept (unwritten : offset ∉ s.overwrites event) : s.crossing s' event odd offset =
      (odd offset ^^ decide (offset = s.mouse.pointer) ^^ decide (offset = s'.mouse.pointer)) :=
    if_neg unwritten
  rcases step_cases stepped with ⟨kb, rfl⟩ | ⟨silent, same, status, byte, console, mouse⟩
  · rcases sound.emit_given given with ⟨written, rfl, painted⟩ | ⟨unwritten, old, shown⟩
    · rw [cleared written]
      exact painted
    · have still : (s.emit (s.texts event)).mouse.pointer = s.mouse.pointer := rfl
      rw [kept unwritten, still, Bool.xor_assoc, Bool.xor_self, Bool.xor_false]
      exact shown.trans (inverted offset attr old)
  · have unwritten : offset ∉ s.overwrites event := by
      rw [silent]
      exact List.not_mem_nil
    rw [same] at given
    have before := inverted offset attr given
    rw [kept unwritten, console, mouse]
    rcases (mouseHandlerMain_cases s.console s.mouse status byte).2 with
      ⟨still, shown⟩ | ⟨moved, lifted, drawn, shown⟩
    · rw [still, shown, Bool.xor_assoc, Bool.xor_self, Bool.xor_false]
      exact before
    by_cases old : offset = s.mouse.pointer
    · have apart : offset ≠ (mouseHandlerMain s.console s.mouse status byte).2.pointer :=
        fun new => moved (new.symm.trans old)
      rw [old] at before apart ⊢
      rw [lifted, before, decide_eq_true rfl, decide_eq_false apart, Bool.xor_false, Bool.xor_true]
      cases odd s.mouse.pointer
      · rfl
      · exact xor_cancel attr 0x77
    by_cases new : offset = (mouseHandlerMain s.console s.mouse status byte).2.pointer
    · rw [new] at before old ⊢
      rw [drawn, before, decide_eq_false old, decide_eq_true rfl, Bool.xor_false, Bool.xor_true]
      cases odd (mouseHandlerMain s.console s.mouse status byte).2.pointer
      · rfl
      · exact xor_cancel attr 0x77
    · rw [shown offset old new, before, decide_eq_false old, decide_eq_false new, Bool.xor_false,
        Bool.xor_false]

/-- The inversions after a run. -/
theorem Inverted.run {odd : UInt32 → Bool} (inverted : s.Inverted odd) (sound : Sound s)
    {events : List ScreenEvent} (ran : s.run events = some s') :
    s'.Inverted (s.crossed odd events) := by
  induction events generalizing s odd with
  | nil =>
    obtain rfl := Option.some.inj ran
    exact inverted
  | cons event events ih =>
    obtain ⟨mid, stepped, sound'⟩ := sound.step event
    rw [Screen.run, stepped] at ran
    rw [crossed, stepped]
    exact ih (inverted.step sound stepped) sound' ran

theorem sound_booted (memory : UInt32 → UInt8) (text : List TextOut) :
    Sound (booted memory text) := (sound_boot memory).emit text

theorem Sound.drawCursor (sound : Sound s) : Sound s.drawCursor :=
  { sound with aligned := sound.aligned }

end Screen

end MOKernel
