import MOKernel.Highlight

/-!
# Text output and the end of the screen

Nothing scrolls: a newline moves `current_loc` to the next row also behind the last one,
and only `clear` takes it back.  `textsStores` lists the offsets from `vidptr` that an output
stores to.  Against it stands a layout that knows nothing of the console: text set in rows
of 80 cells.  `current_loc` is twice the cell of the layout, and the stores of a run stay
inside the 80 × 25 cells exactly when its text stays on a page of 25 rows
(`text_in_buffer_iff`).
-/

namespace MOKernel

/-- `80 * 25 * 2` -/
def screenSize : Nat := 80 * 25 * 2

/-! ## The offsets text output stores to -/

def ruboutStores (con : Console) : List UInt32 :=
  if con.currentLoc ≥ 2 then [con.currentLoc - 2, con.currentLoc - 2 + 1] else []

def charStores (con : Console) (chr : UInt8) : List UInt32 :=
  if chr = 10 then []
  else if chr = 8 then ruboutStores con
  else [con.currentLoc, con.currentLoc + 1]

def printStores (con : Console) : List UInt8 → List UInt32
  | [] => []
  | chr :: str => if chr = 0 then [] else charStores con chr ++ printStores (kprintChar con chr) str

def clearStores : Nat → List UInt32
  | 0 => []
  | n + 1 => clearStores n ++ [2 * UInt32.ofNat n, 2 * UInt32.ofNat n + 1]

def textStores (con : Console) : TextOut → List UInt32
  | .print str => printStores con str
  | .rubout => ruboutStores con
  | .clear => clearStores (80 * 25)

def textsStores (con : Console) : List TextOut → List UInt32
  | [] => []
  | out :: outs => textStores con out ++ textsStores (textOut con out) outs

theorem textsStores_append (con : Console) (first second : List TextOut) :
    textsStores con (first ++ second) =
      textsStores con first ++ textsStores (textOuts con first) second := by
  induction first generalizing con with
  | nil => rfl
  | cons out outs ih =>
    rw [List.cons_append, textsStores, ih, textsStores, List.append_assoc]
    rfl

section Kept

variable {con : Console} {offset : UInt32}

theorem storeCell_kept {other : UInt32} (chr : UInt8) (apart : offset ∉ [other, other + 1]) :
    (con.storeCell other chr).vidptr offset = con.vidptr offset := by
  simp only [List.mem_cons, List.not_mem_nil, or_false, not_or] at apart
  simp only [Console.storeCell, Console.store]
  rw [Function.update_of_ne apart.2, Function.update_of_ne apart.1]

theorem rubOut_kept (apart : offset ∉ ruboutStores con) :
    (rubOut con).vidptr offset = con.vidptr offset := by
  rw [ruboutStores] at apart
  rw [rubOut]
  split at apart
  · next some =>
    rw [if_pos some]
    exact storeCell_kept 32 apart
  · next none =>
    rw [if_neg none]

theorem kprintChar_kept {chr : UInt8} (apart : offset ∉ charStores con chr) :
    (kprintChar con chr).vidptr offset = con.vidptr offset := by
  rw [charStores] at apart
  rw [kprintChar]
  split at apart
  · next newline =>
    rw [if_pos newline]
  · next newline =>
    rw [if_neg newline]
    split at apart
    · next back =>
      rw [if_pos back]
      exact rubOut_kept apart
    · next back =>
      rw [if_neg back]
      exact storeCell_kept chr apart

theorem kprint_kept {str : List UInt8} (apart : offset ∉ printStores con str) :
    (kprint con str).vidptr offset = con.vidptr offset := by
  induction str generalizing con with
  | nil => rfl
  | cons chr str ih =>
    rw [printStores] at apart
    rw [kprint]
    split at apart
    · next stop => rw [if_pos stop]
    · next stop =>
      rw [List.mem_append, not_or] at apart
      rw [if_neg stop, ih apart.2, kprintChar_kept apart.1]

theorem clearCells_kept {n : Nat} (apart : offset ∉ clearStores n) :
    (clearCells con n).vidptr offset = con.vidptr offset := by
  induction n with
  | zero => rfl
  | succ n ih =>
    rw [clearStores, List.mem_append, not_or] at apart
    rw [clearCells, storeCell_kept 32 apart.2, ih apart.1]

theorem clearScreen_kept (apart : offset ∉ clearStores (80 * 25)) :
    (clearScreen con).vidptr offset = con.vidptr offset := by
  have cleared : (clearCells con (80 * 25)).vidptr offset = con.vidptr offset :=
    clearCells_kept apart
  simpa only [clearScreen] using cleared

/-- Text output stores to these offsets and to no others. -/
theorem textOuts_kept {outs : List TextOut} (apart : offset ∉ textsStores con outs) :
    (textOuts con outs).vidptr offset = con.vidptr offset := by
  induction outs generalizing con with
  | nil => rfl
  | cons out outs ih =>
    rw [textsStores, List.mem_append, not_or] at apart
    rw [textOuts, List.foldl_cons]
    refine (ih apart.2).trans ?_
    cases out with
    | print str => exact kprint_kept apart.1
    | rubout => exact rubOut_kept apart.1
    | clear => exact clearScreen_kept apart.1

end Kept

/-! ## Inside the screen -/

/-- Every offset is one of the screen's. -/
def Inside (offsets : List UInt32) : Prop := ∀ offset ∈ offsets, offset.toNat < screenSize

instance : DecidablePred Inside := fun offsets =>
  -- the instance found for a bounded `∀` would go through every `UInt32`
  List.decidableBAll (fun offset : UInt32 => offset.toNat < screenSize) offsets

@[simp] theorem inside_nil : Inside [] := by simp [Inside]

@[simp] theorem inside_append {front back : List UInt32} :
    Inside (front ++ back) ↔ Inside front ∧ Inside back := by
  simp [Inside, or_imp, forall_and]

/-- A cell at an even offset is inside when its character is. -/
theorem inside_cell_iff {offset : UInt32} (even : offset.toNat % 2 = 0) :
    Inside [offset, offset + 1] ↔ offset.toNat < screenSize := by
  simp only [Inside, List.mem_cons, List.not_mem_nil, or_false, forall_eq_or_imp, forall_eq,
    toNat_succ_of_even even, screenSize]
  omega

/-- `clear_screen` bounds its own loop. -/
theorem inside_clearStores {n : Nat} (le : n ≤ 80 * 25) : Inside (clearStores n) := by
  induction n with
  | zero => exact inside_nil
  | succ n ih =>
    have value : (2 * UInt32.ofNat n).toNat = 2 * n := by
      rw [UInt32.toNat_mul, UInt32.toNat_ofNat']
      simp only [UInt32.reduceToNat]
      omega
    rw [clearStores, inside_append, inside_cell_iff (by rw [value]; omega), value, screenSize]
    exact ⟨ih (by omega), by omega⟩

/-! ## The layout -/

/-- The cell after a character; a newline leads to the next multiple of 80.  The cells are
counted modulo 2^31, two bytes of 32-bit address space each. -/
def charCell (cell : Nat) (chr : UInt8) : Nat :=
  if chr = 10 then (cell / 80 + 1) * 80 % 2 ^ 31
  else if chr = 8 then cell - 1
  else (cell + 1) % 2 ^ 31

def strCell (cell : Nat) : List UInt8 → Nat
  | [] => cell
  | chr :: str => if chr = 0 then cell else strCell (charCell cell chr) str

def textCell (cell : Nat) : TextOut → Nat
  | .print str => strCell cell str
  | .rubout => cell - 1
  | .clear => 0

/-- The character is set, or the character before it rubbed out, on a page of 25 rows. -/
def CharOnPage (cell : Nat) (chr : UInt8) : Prop :=
  if chr = 10 then True else if chr = 8 then cell ≤ 80 * 25 else cell < 80 * 25

def StrOnPage (cell : Nat) : List UInt8 → Prop
  | [] => True
  | chr :: str => if chr = 0 then True else CharOnPage cell chr ∧ StrOnPage (charCell cell chr) str

def TextOnPage (cell : Nat) : TextOut → Prop
  | .print str => StrOnPage cell str
  | .rubout => cell ≤ 80 * 25
  | .clear => True

/-- Set from this cell on, the text stays on the page. -/
def TextsOnPage (cell : Nat) : List TextOut → Prop
  | [] => True
  | out :: outs => TextOnPage cell out ∧ TextsOnPage (textCell cell out) outs

/-- The cell after the outputs. -/
def textsCell (cell : Nat) (outs : List TextOut) : Nat := outs.foldl textCell cell

theorem textsOnPage_append (cell : Nat) (first second : List TextOut) :
    TextsOnPage cell (first ++ second) ↔
      TextsOnPage cell first ∧ TextsOnPage (textsCell cell first) second := by
  induction first generalizing cell with
  | nil => simp [TextsOnPage, textsCell]
  | cons out outs ih =>
    rw [List.cons_append, TextsOnPage, TextsOnPage, ih, and_assoc]
    rfl

/-- `current_loc` is at this cell. -/
def AtCell (con : Console) (cell : Nat) : Prop := con.currentLoc.toNat = 2 * cell

section Layout

variable {con : Console} {cell : Nat}

theorem AtCell.even (here : AtCell con cell) : con.currentLoc.toNat % 2 = 0 := by
  rw [AtCell] at here
  omega

/-- One cell back, if there is one. -/
theorem AtCell.back (here : AtCell con cell) (some : con.currentLoc ≥ 2) :
    1 ≤ cell ∧ (con.currentLoc - 2).toNat = 2 * (cell - 1) := by
  have le : 2 ≤ con.currentLoc.toNat := UInt32.le_iff_toNat_le.mp some
  have value : (con.currentLoc - 2).toNat = con.currentLoc.toNat - 2 :=
    UInt32.toNat_sub_of_le _ _ some
  rw [AtCell] at here
  omega

theorem AtCell.first (here : AtCell con cell) (none : ¬con.currentLoc ≥ 2) : cell = 0 := by
  have small : ¬2 ≤ con.currentLoc.toNat := fun le => none (UInt32.le_iff_toNat_le.mpr le)
  rw [AtCell] at here
  omega

theorem AtCell.rubOut (here : AtCell con cell) : AtCell (MOKernel.rubOut con) (cell - 1) := by
  rw [MOKernel.rubOut]
  split
  · next some => exact (here.back some).2
  · next none =>
    rw [here.first none]
    rw [here.first none] at here
    exact here

theorem AtCell.kprintChar (here : AtCell con cell) (chr : UInt8) :
    AtCell (MOKernel.kprintChar con chr) (charCell cell chr) := by
  have bound := con.currentLoc.toNat_lt
  have loc : con.currentLoc.toNat = 2 * cell := here
  rw [MOKernel.kprintChar, charCell]
  split
  · -- the rest of the row is skipped
    rw [AtCell, toNat_newline, loc]
    omega
  · split
    · exact here.rubOut
    · rw [AtCell, UInt32.toNat_add, toNat_succ_of_even here.even, UInt32.toNat_one, loc]
      omega

theorem AtCell.kprint (here : AtCell con cell) (str : List UInt8) :
    AtCell (MOKernel.kprint con str) (strCell cell str) := by
  induction str generalizing con cell with
  | nil => exact here
  | cons chr str ih =>
    rw [MOKernel.kprint, strCell]
    split
    · exact here
    · exact ih (here.kprintChar chr)

theorem AtCell.textOut (here : AtCell con cell) (out : TextOut) :
    AtCell (MOKernel.textOut con out) (textCell cell out) := by
  cases out with
  | print str => exact here.kprint str
  | rubout => exact here.rubOut
  | clear => rfl

theorem AtCell.textOuts (here : AtCell con cell) (outs : List TextOut) :
    AtCell (MOKernel.textOuts con outs) (textsCell cell outs) := by
  induction outs generalizing con cell with
  | nil => exact here
  | cons out outs ih => exact ih (here.textOut out)

theorem inside_rubout_iff (here : AtCell con cell) :
    Inside (ruboutStores con) ↔ cell ≤ 80 * 25 := by
  rw [ruboutStores]
  split
  · next some =>
    obtain ⟨positive, back⟩ := here.back some
    rw [inside_cell_iff (by rw [back]; omega), back, screenSize]
    omega
  · next none =>
    rw [here.first none]
    simp

theorem inside_char_iff (here : AtCell con cell) (chr : UInt8) :
    Inside (charStores con chr) ↔ CharOnPage cell chr := by
  rw [charStores, CharOnPage]
  split
  · simp
  · split
    · exact inside_rubout_iff here
    · rw [inside_cell_iff here.even, here, screenSize]
      omega

theorem inside_print_iff (here : AtCell con cell) (str : List UInt8) :
    Inside (printStores con str) ↔ StrOnPage cell str := by
  induction str generalizing con cell with
  | nil => simp [printStores, StrOnPage]
  | cons chr str ih =>
    rw [printStores, StrOnPage]
    split
    · simp
    · rw [inside_append, inside_char_iff here, ih (here.kprintChar chr)]

theorem inside_text_iff (here : AtCell con cell) (out : TextOut) :
    Inside (textStores con out) ↔ TextOnPage cell out := by
  cases out with
  | print str => exact inside_print_iff here str
  | rubout => exact inside_rubout_iff here
  | clear => exact iff_of_true (inside_clearStores le_rfl) trivial

/-- **Step.**  An output stays inside exactly when its text stays on the page. -/
theorem inside_texts_iff (here : AtCell con cell) (outs : List TextOut) :
    Inside (textsStores con outs) ↔ TextsOnPage cell outs := by
  induction outs generalizing con cell with
  | nil => simp [textsStores, TextsOnPage]
  | cons out outs ih =>
    rw [textsStores, TextsOnPage, inside_append, inside_text_iff here, ih (here.textOut out)]

end Layout

/-! ## Runs -/

namespace Screen

/-- The offsets the text output of an event stores to. -/
def stores (s : Screen) (event : ScreenEvent) : List UInt32 :=
  textsStores s.console (s.texts event)

/-- The offsets the text output of a run stores to. -/
def written (s : Screen) : List ScreenEvent → List UInt32
  | [] => []
  | event :: events => s.stores event ++ (s.step event).elim [] fun s => s.written events

/-- The text output of a run. -/
def outputs (s : Screen) : List ScreenEvent → List TextOut
  | [] => []
  | event :: events => s.texts event ++ (s.step event).elim [] fun s => s.outputs events

/-- The screen before the kernel puts out anything. -/
def atReset (memory : UInt32 → UInt8) : Screen :=
  ⟨⟨memory, 0⟩, keyboardBoot, mouseBoot, fun _ => none⟩

/-- An event moves `current_loc` by its text output. -/
theorem atCell_step {s s' : Screen} {cell : Nat} {event : ScreenEvent}
    (here : AtCell s.console cell) (stepped : s.step event = some s') :
    AtCell s'.console (textsCell cell (s.texts event)) := by
  cases event with
  | keyboard status keycode shown =>
    rw [step, Option.map_eq_some_iff] at stepped
    obtain ⟨handled, ran, rfl⟩ := stepped
    rw [texts, ran]
    exact here.textOuts _
  | mouse status byte =>
    cases stepped
    have moved := (mouseHandlerMain_cases s.console s.mouse status byte).1
    rw [AtCell, moved]
    exact here
  | output outs =>
    cases stepped
    exact here.textOuts outs

theorem inside_written_iff {s : Screen} {cell : Nat} (sound : Sound s)
    (here : AtCell s.console cell) (events : List ScreenEvent) :
    Inside (s.written events) ↔ TextsOnPage cell (s.outputs events) := by
  induction events generalizing s cell with
  | nil => exact iff_of_true inside_nil trivial
  | cons event events ih =>
    obtain ⟨s', stepped, sound'⟩ := sound.step event
    rw [written, outputs, stepped, inside_append, stores, inside_texts_iff here,
      textsOnPage_append]
    exact and_congr_right fun _ => ih sound' (atCell_step here stepped)

/-- Behind the screen an event changes what its text output stores to. -/
theorem step_kept {s s' : Screen} {event : ScreenEvent} (sound : Sound s)
    (stepped : s.step event = some s') {offset : UInt32} (behind : screenSize ≤ offset.toNat)
    (apart : offset ∉ s.stores event) : s'.console.vidptr offset = s.console.vidptr offset := by
  have inside (mouse : Mouse) (there : mouse.OnScreen) : offset ≠ mouse.pointer := by
    rintro rfl
    exact absurd there.pointer_lt (Nat.not_lt.mpr behind)
  rcases step_cases stepped with ⟨kb, rfl⟩ | ⟨-, -, status, byte, console, -⟩
  · exact textOuts_kept apart
  · rw [console]
    rcases (mouseHandlerMain_cases s.console s.mouse status byte).2 with
      ⟨-, same⟩ | ⟨-, -, -, kept⟩
    · rw [same]
    · exact kept offset (inside _ sound.inside)
        (inside _ (mouseHandlerMain_onScreen sound.inside s.console status byte))

theorem run_kept {s s' : Screen} {events : List ScreenEvent} (sound : Sound s)
    (ran : s.run events = some s') {offset : UInt32} (behind : screenSize ≤ offset.toNat)
    (apart : offset ∉ s.written events) : s'.console.vidptr offset = s.console.vidptr offset := by
  induction events generalizing s with
  | nil =>
    obtain rfl := Option.some.inj ran
    rfl
  | cons event events ih =>
    obtain ⟨mid, stepped, sound'⟩ := sound.step event
    rw [run, stepped] at ran
    rw [written, stepped, Option.elim_some, List.mem_append, not_or] at apart
    exact (ih sound' ran apart.2).trans (step_kept sound stepped behind apart.1)

/-- **Console bounds.**  A run from reset never leaves the code, behind the screen it changes
only what its text output stores to, and all its text output is stored inside the screen
exactly when the text stays on a page of 25 rows. -/
theorem text_in_buffer_iff (memory : UInt32 → UInt8) (events : List ScreenEvent) :
    (∃ s, (atReset memory).run events = some s ∧
      ∀ offset, screenSize ≤ offset.toNat → offset ∉ (atReset memory).written events →
        s.console.vidptr offset = memory offset) ∧
      (Inside ((atReset memory).written events) ↔
        TextsOnPage 0 ((atReset memory).outputs events)) := by
  have sound : Sound (atReset memory) := sound_boot memory
  have here : AtCell (atReset memory).console 0 := rfl
  obtain ⟨s, ran, -⟩ := sound.run events
  exact ⟨⟨s, ran, fun _ behind apart => run_kept sound ran behind apart⟩,
    inside_written_iff sound here events⟩

/-- A character printed after 25 newlines is stored behind the last row. -/
theorem text_leaves_buffer :
    ¬Inside ((atReset fun _ => 0).written [.output [.print (List.replicate 25 10 ++ [65])]]) := by
  decide +kernel

end Screen

end MOKernel
