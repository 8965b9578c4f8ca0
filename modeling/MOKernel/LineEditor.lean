import MOKernel.Keyboard

/-!
# The line editor

What the keyboard handler is for: a line, the submitted lines, oldest first, and a
position among them.  `Modifiers.decode` turns scancodes into keys and `LineEditor.press`
says what a key does.  `Represents` ties the arrays and counters of the handler to it,
and `keyboard_refines` is the simulation over every sequence of scancodes.
-/

namespace MOKernel

/-! ## The editor -/

def lineMax : Nat := 255

inductive Key
  | char (c : UInt8)
  | backspace
  | word
  | up
  | down
  | enter
deriving DecidableEq

@[ext]
structure LineEditor where
  line : List UInt8
  past : List (List UInt8)
  pos : Nat

/-- Add a line to the submitted ones, of which the last ten stay. -/
def remember (past : List (List UInt8)) (line : List UInt8) : List (List UInt8) :=
  if line = [] then past else (past ++ [line]).drop (past.length + 1 - historyMax)

namespace LineEditor

def start : LineEditor := ⟨[], [], 0⟩

def press (ed : LineEditor) : Key → LineEditor
  | .char c => if ed.line.length < lineMax then { ed with line := ed.line ++ [c] } else ed
  | .backspace => { ed with line := ed.line.dropLast }
  | .word => { ed with line := (ed.line.rdropWhile (· == 32)).rdropWhile (· != 32) }
  | .up =>
    if 0 < ed.pos then { ed with pos := ed.pos - 1, line := ed.past.getD (ed.pos - 1) [] }
    else ed
  | .down =>
    if ed.pos < ed.past.length then
      { ed with pos := ed.pos + 1, line := ed.past.getD (ed.pos + 1) [] }
    else ed
  | .enter =>
    { line := [], past := remember ed.past ed.line, pos := (remember ed.past ed.line).length }

/-- The lines a key submits. -/
def submits (ed : LineEditor) : Key → List (List UInt8)
  | .enter => [ed.line]
  | _ => []

end LineEditor

/-- The modal state of the keyboard. -/
@[ext]
structure Modifiers where
  e0 : Bool
  ctrl : Bool
  shift : Bool

namespace Modifiers

/-- The character of a make code. -/
def mapped (m : Modifiers) (keycode : UInt8) : UInt8 :=
  (if m.shift then keyboardMapShift else keyboardMap).getD keycode.toNat 0

/-- The key of a mapped character. -/
def keyOf (m : Modifiers) (chr : UInt8) : Option Key :=
  if m.ctrl ∧ (chr = 119 ∨ chr = 87) then some .word
  else if m.ctrl ∧ (chr = 112 ∨ chr = 80) then some .up
  else if chr = 10 then some .enter
  else if chr = 8 then some .backspace
  else if chr ≠ 0 then some (.char chr)
  else none

/-- One scancode. -/
def decode (m : Modifiers) (keycode : UInt8) : Modifiers × Option Key :=
  if keycode = 0xE0 then ({ m with e0 := true }, none)
  else if m.e0 then
    ({ m with e0 := false },
      if keycode = 0x48 then some .up else if keycode = 0x50 then some .down else none)
  else if keycode = 0x1D then ({ m with ctrl := true }, none)
  else if keycode = 0x9D then ({ m with ctrl := false }, none)
  else if keycode = 0x2A ∨ keycode = 0x36 then ({ m with shift := true }, none)
  else if keycode = 0xAA ∨ keycode = 0xB6 then ({ m with shift := false }, none)
  else if keycode &&& 0x80 ≠ 0 then (m, none)
  else (m, m.keyOf (m.mapped keycode))

end Modifiers

/-- Editor and modifiers after status and scancode bytes, and the lines submitted. -/
def editorRun (m : Modifiers) (ed : LineEditor) :
    List (UInt8 × UInt8) → (Modifiers × LineEditor) × List (List UInt8)
  | [] => ((m, ed), [])
  | (status, keycode) :: events =>
    if status &&& 0x01 = 0 then editorRun m ed events
    else
      let decoded := m.decode keycode
      let rest := editorRun decoded.1 (decoded.2.elim ed ed.press) events
      (rest.1, decoded.2.elim [] ed.submits ++ rest.2)

/-! ## The handler by keys -/

def Keyboard.modifiers (kb : Keyboard) : Modifiers :=
  ⟨kb.e0Pressed, kb.ctrlPressed, kb.shiftPressed⟩

def Keyboard.withModifiers (kb : Keyboard) (m : Modifiers) : Keyboard :=
  { kb with e0Pressed := m.e0, ctrlPressed := m.ctrl, shiftPressed := m.shift }

/-- The branch of the handler for a key. -/
def Keyboard.act (kb : Keyboard) : Key → Option (Keyboard × List KbdEffect)
  | .char c => some (cmdPut kb c)
  | .backspace =>
    if kb.cmdLen > 0 then some ({ kb with cmdLen := kb.cmdLen - 1 }, [.rubout])
    else some (kb, [])
  | .word => backspaceWord kb
  | .up => historyUp kb
  | .down => historyDown kb
  | .enter => enterLine kb

def Keyboard.perform (kb : Keyboard) : Option Key → Option (Keyboard × List KbdEffect)
  | none => some (kb, [])
  | some key => kb.act key

/-- The branches of the handler for a mapped character. -/
theorem perform_keyOf (kb : Keyboard) (chr : UInt8) :
    kb.perform (kb.modifiers.keyOf chr) =
      if kb.ctrlPressed ∧ (chr = 119 ∨ chr = 87) then backspaceWord kb
      else if kb.ctrlPressed ∧ (chr = 112 ∨ chr = 80) then historyUp kb
      else if chr = 10 then enterLine kb
      else if chr = 8 then
        if kb.cmdLen > 0 then some ({ kb with cmdLen := kb.cmdLen - 1 }, [.rubout])
        else some (kb, [])
      else if chr ≠ 0 then some (cmdPut kb chr)
      else some (kb, []) := by
  unfold Modifiers.keyOf
  rw [apply_ite kb.perform]
  refine ite_congr rfl (fun _word => rfl) fun _ => ?_
  rw [apply_ite kb.perform]
  refine ite_congr rfl (fun _up => rfl) fun _ => ?_
  rw [apply_ite kb.perform]
  refine ite_congr rfl (fun _enter => rfl) fun _ => ?_
  rw [apply_ite kb.perform]
  refine ite_congr rfl (fun _backspace => rfl) fun _ => ?_
  rw [apply_ite kb.perform]
  exact ite_congr rfl (fun _plain => rfl) fun _ => rfl

/-- The handler decodes the scancode and acts on the key. -/
theorem keyboardHandlerMain_eq (kb : Keyboard) (status keycode : UInt8) :
    keyboardHandlerMain kb status keycode =
      if status &&& 0x01 = 0 then some (kb, [])
      else (kb.withModifiers (kb.modifiers.decode keycode).1).perform
        (kb.modifiers.decode keycode).2 := by
  unfold keyboardHandlerMain
  refine ite_congr rfl (fun _ => rfl) fun _ => ?_
  let act (decoded : Modifiers × Option Key) : Option (Keyboard × List KbdEffect) :=
    (kb.withModifiers decoded.1).perform decoded.2
  change _ = act (kb.modifiers.decode keycode)
  unfold Modifiers.decode
  rw [apply_ite act]
  refine ite_congr rfl (fun _announce => rfl) fun _ => ?_
  rw [apply_ite act]
  refine ite_congr rfl (fun _extended => ?_) fun _ => ?_
  · -- the release codes are neither Up nor Down
    by_cases up : keycode = 0x48
    · rw [up]
      rfl
    by_cases down : keycode = 0x50
    · rw [down]
      rfl
    simp only [if_neg up, if_neg down, ite_self]
    rfl
  rw [apply_ite act]
  refine ite_congr rfl (fun _ctrl => rfl) fun _ => ?_
  rw [apply_ite act]
  refine ite_congr rfl (fun _ctrlUp => rfl) fun _ => ?_
  rw [apply_ite act]
  refine ite_congr rfl (fun _shift => rfl) fun _ => ?_
  rw [apply_ite act]
  refine ite_congr rfl (fun _shiftUp => rfl) fun _ => ?_
  rw [apply_ite act]
  refine ite_congr rfl (fun _release => rfl) fun _ => ?_
  exact (perform_keyOf kb (kb.modifiers.mapped keycode)).symm

/-! ## The representation -/

/-- The commands among the effects. -/
def executed (effects : List KbdEffect) : List (List UInt8) :=
  effects.filterMap fun
    | .execute cmd => some cmd
    | _ => none

@[simp] theorem executed_append (first second : List KbdEffect) :
    executed (first ++ second) = executed first ++ executed second :=
  List.filterMap_append

@[simp] theorem executed_rubouts (n : Nat) : executed (List.replicate n .rubout) = [] := by
  induction n with
  | zero => rfl
  | succ n ih => exact ih

/-- The first rows hold these strings, each with its NUL. -/
def RowsHold (rows : Fin historyMax → CmdRow) (past : List (List UInt8)) : Prop :=
  ∀ (j : Fin historyMax) text, past[j.val]? = some text →
    cstr (rows j).toList = text ∧ (0 : UInt8) ∈ (rows j).toList

/-- The globals hold this editor. -/
structure Represents (kb : Keyboard) (m : Modifiers) (ed : LineEditor) : Prop where
  modifiers : kb.modifiers = m
  len : kb.cmdLen = ed.line.length
  short : ed.line.length ≤ lineMax
  line : kb.cmdBuffer.toList.take ed.line.length = ed.line
  nulFree : (0 : UInt8) ∉ ed.line
  count : kb.historyCount = ed.past.length
  few : ed.past.length ≤ historyMax
  rows : RowsHold kb.history ed.past
  index : kb.historyIndex = ed.pos
  pos : ed.pos ≤ ed.past.length

theorem represents_boot : Represents keyboardBoot ⟨false, false, false⟩ LineEditor.start where
  modifiers := rfl
  len := rfl
  short := Nat.zero_le _
  line := rfl
  nulFree := List.not_mem_nil
  count := rfl
  few := Nat.zero_le _
  rows j text entry := by cases entry
  index := rfl
  pos := Nat.le_refl _

/-- A key does in the globals what it does in the editor, and submits the same lines. -/
def Simulates (m : Modifiers) (outcome : Option (Keyboard × List KbdEffect)) (ed : LineEditor)
    (submitted : List (List UInt8)) : Prop :=
  ∃ kb effects, outcome = some (kb, effects) ∧ Represents kb m ed ∧ executed effects = submitted

variable {kb : Keyboard} {m : Modifiers} {ed : LineEditor}

theorem Represents.withModifiers (rep : Represents kb m ed) (m' : Modifiers) :
    Represents (kb.withModifiers m') m' ed :=
  { rep with modifiers := rfl }

/-! ## The line -/

/-- A change of the line alone. -/
theorem Represents.withLine (rep : Represents kb m ed) {buf : CmdRow} {n : Nat}
    {line : List UInt8} (len : n = line.length) (short : line.length ≤ lineMax)
    (held : buf.toList.take line.length = line) (nulFree : (0 : UInt8) ∉ line) :
    Represents { kb with cmdBuffer := buf, cmdLen := n } m { ed with line := line } :=
  { rep with len := len, short := short, line := held, nulFree := nulFree }

/-- A change to the front of the line. -/
theorem Represents.cutLine (rep : Represents kb m ed) {line : List UInt8}
    (front : line <+: ed.line) :
    Represents { kb with cmdLen := line.length } m { ed with line := line } := by
  obtain ⟨rest, whole⟩ := front
  have held := rep.line
  rw [← whole] at held
  refine rep.withLine rfl ?_ ?_ fun member => rep.nulFree ?_
  · have short := rep.short
    rw [← whole, List.length_append] at short
    omega
  · have cut := congrArg (List.take line.length) held
    rw [List.take_take, List.take_left, Nat.min_eq_left (by simp)] at cut
    exact cut
  · rw [← whole]
    exact List.mem_append_left _ member

theorem cmdPut_of_room {c : UInt8} (room : kb.cmdLen < lineMax) :
    cmdPut kb c = ({ kb with
      cmdBuffer := kb.cmdBuffer.set kb.cmdLen c (lt_trans room (by decide))
      cmdLen := kb.cmdLen + 1 }, [.print [c]]) :=
  dif_pos room

theorem cmdPut_of_full {c : UInt8} (full : ¬ kb.cmdLen < lineMax) : cmdPut kb c = (kb, []) :=
  dif_neg full

theorem Represents.cmdPut (rep : Represents kb m ed) {c : UInt8} (nonzero : c ≠ 0)
    (room : ed.line.length < lineMax) :
    Represents (cmdPut kb c).1 m { ed with line := ed.line ++ [c] } ∧
      executed (cmdPut kb c).2 = [] := by
  have len := rep.len
  rw [cmdPut_of_room (by rw [len]; exact room)]
  refine ⟨rep.withLine ?_ ?_ ?_ ?_, rfl⟩
  · rw [len, List.length_append, List.length_singleton]
  · rw [List.length_append, List.length_singleton]
    exact room
  · have shown := take_set_succ kb.cmdBuffer c (show kb.cmdLen < cmdBufferSize by
      rw [len]
      exact lt_trans room (by decide))
    have grown : (ed.line ++ [c]).length = kb.cmdLen + 1 := by
      rw [List.length_append, List.length_singleton, len]
    exact (congrArg (fun n => List.take n _) grown).trans (shown.trans (by rw [len, rep.line]))
  · intro member
    rcases List.mem_append.mp member with old | new
    · exact rep.nulFree old
    · exact nonzero (List.mem_singleton.mp new).symm

theorem Represents.cmdClearDisplay (rep : Represents kb m ed) :
    Represents (cmdClearDisplay kb).1 m { ed with line := [] } ∧
      executed (cmdClearDisplay kb).2 = [] :=
  ⟨rep.cutLine (List.nil_prefix : [] <+: ed.line), executed_rubouts _⟩

theorem Represents.cmdPutAll (rep : Represents kb m ed) {str : List UInt8}
    (nulFree : (0 : UInt8) ∉ str) (fits : ed.line.length + str.length ≤ lineMax) :
    Represents (cmdPutAll kb str).1 m { ed with line := ed.line ++ str } ∧
      executed (cmdPutAll kb str).2 = [] := by
  induction str generalizing kb ed with
  | nil =>
    rw [List.append_nil]
    exact ⟨rep, rfl⟩
  | cons c str ih =>
    rw [List.length_cons] at fits
    obtain ⟨put, quiet⟩ := rep.cmdPut (List.ne_of_not_mem_cons nulFree).symm (by omega)
    obtain ⟨rest, quiet'⟩ := ih put (List.not_mem_of_not_mem_cons nulFree)
      (by simp only [List.length_append, List.length_singleton]; omega)
    rw [List.append_assoc, List.singleton_append] at rest
    refine ⟨rest, ?_⟩
    rw [MOKernel.cmdPutAll, executed_append, quiet, quiet', List.nil_append]

/-- `cmd_set` replaces the line. -/
theorem Represents.cmdSet (rep : Represents kb m ed) {str : List UInt8}
    (nulFree : (0 : UInt8) ∉ str) (fits : str.length ≤ lineMax) :
    Represents (cmdSet kb str).1 m { ed with line := str } ∧ executed (cmdSet kb str).2 = [] := by
  obtain ⟨cleared, quiet⟩ := rep.cmdClearDisplay
  obtain ⟨set, quiet'⟩ := cleared.cmdPutAll nulFree (by simpa using fits)
  refine ⟨set, ?_⟩
  rw [MOKernel.cmdSet, executed_append, quiet, quiet', List.nil_append]

/-- A loop of `backspace_word` drops the matching characters at the end of the line. -/
theorem dropBack_eq {buf : CmdRow} (drop : UInt8 → Bool) {line : List UInt8}
    (short : line.length ≤ lineMax) (held : buf.toList.take line.length = line) :
    dropBack buf drop line.length = some (line.rdropWhile drop).length := by
  induction line using List.reverseRecOn with
  | nil => rfl
  | append_singleton line c ih =>
    rw [List.length_append, List.length_singleton] at short held ⊢
    have inside : line.length < cmdBufferSize := lt_of_lt_of_le (Nat.lt_succ_self _)
      (short.trans (by decide))
    have last : buf[line.length]? = some c := by
      have entry := congrArg (·[line.length]?) held
      rw [List.getElem?_take_of_lt (Nat.lt_succ_self _), List.getElem?_append_right le_rfl,
        Nat.sub_self, Vector.getElem?_toList] at entry
      exact entry
    have front : buf.toList.take line.length = line := by
      have cut := congrArg (List.take line.length) held
      rwa [List.take_take, List.take_left, Nat.min_eq_left (Nat.le_succ _)] at cut
    rw [dropBack, last]
    by_cases dropped : drop c
    · rw [List.rdropWhile_concat_pos _ _ _ dropped]
      simp only [if_pos dropped]
      exact ih (by omega) front
    · rw [List.rdropWhile_concat_neg _ _ _ dropped]
      simp only [if_neg dropped, List.length_append, List.length_singleton]

/-! ## Keys -/

theorem Represents.backspace (rep : Represents kb m ed) :
    Simulates m (kb.act .backspace) (ed.press .backspace) [] := by
  have len := rep.len
  rw [Keyboard.act]
  split
  · refine ⟨_, _, rfl, ?_, rfl⟩
    have cut := rep.cutLine (List.dropLast_prefix ed.line)
    rw [List.length_dropLast, ← len] at cut
    exact cut
  · rename_i none
    have empty : ed.line = [] := List.eq_nil_of_length_eq_zero (by omega)
    refine ⟨_, _, rfl, ?_, rfl⟩
    rw [LineEditor.press, empty, List.dropLast_nil, ← empty]
    exact rep

/-- `backspace_word` rubs out what the editor drops. -/
theorem Represents.act_word (rep : Represents kb m ed) :
    kb.act .word = some ({ kb with cmdLen := (ed.press .word).line.length },
      List.replicate (kb.cmdLen - (ed.press .word).line.length) .rubout) := by
  have spaces := rep.cutLine (List.rdropWhile_prefix (· == 32) ed.line)
  have first := dropBack_eq (· == 32) rep.short rep.line
  have second := dropBack_eq (· != 32) spaces.short spaces.line
  rw [Keyboard.act, backspaceWord, rep.len, first]
  simp only [Option.bind_eq_bind, Option.bind_some, second]
  rfl

theorem Represents.word (rep : Represents kb m ed) :
    Simulates m (kb.act .word) (ed.press .word) [] := by
  have spaces := rep.cutLine (List.rdropWhile_prefix (· == 32) ed.line)
  have word := spaces.cutLine (List.rdropWhile_prefix (· != 32) _)
  exact ⟨_, _, rep.act_word, word, executed_rubouts _⟩

/-- A row of the history is a string that fits the line. -/
theorem Represents.row (rep : Represents kb m ed) {j : Nat} {text : List UInt8}
    (entry : ed.past[j]? = some text) :
    historyString kb j = some text ∧ (0 : UInt8) ∉ text ∧ text.length ≤ lineMax := by
  obtain ⟨lt, _⟩ := List.getElem?_eq_some_iff.mp entry
  have inside : j < historyMax := lt_of_lt_of_le lt rep.few
  obtain ⟨held, terminated⟩ := rep.rows ⟨j, inside⟩ text entry
  refine ⟨?_, held ▸ cstr_nulFree _, ?_⟩
  · rw [historyString, dif_pos inside]
    simp only [terminated, if_true, held]
  · have short := length_cstr_lt terminated
    rw [held, Vector.length_toList] at short
    exact Nat.lt_succ_iff.mp short

/-- Behind the submitted lines there is the empty one. -/
theorem Represents.pastLine (rep : Represents kb m ed) (j : Nat) :
    (0 : UInt8) ∉ ed.past.getD j [] ∧ (ed.past.getD j []).length ≤ lineMax := by
  rcases lt_or_ge j ed.past.length with inside | behind
  · have entry : ed.past[j]? = some (ed.past.getD j []) := by
      rw [List.getD_eq_getElem _ _ inside, List.getElem?_eq_getElem inside]
    exact (rep.row entry).2
  · rw [List.getD_eq_default _ _ behind]
    exact ⟨List.not_mem_nil, Nat.zero_le _⟩

theorem Represents.moveTo (rep : Represents kb m ed) {j : Nat} (within : j ≤ ed.past.length) :
    Represents { kb with historyIndex := j } m { ed with pos := j } :=
  { rep with index := rfl, pos := within }

/-- Recall of a submitted line. -/
theorem Represents.recall (rep : Represents kb m ed) {j : Nat} (inside : j < ed.past.length) :
    (historyString { kb with historyIndex := j } j).map
        (MOKernel.cmdSet { kb with historyIndex := j }) =
      some (MOKernel.cmdSet { kb with historyIndex := j } (ed.past.getD j [])) := by
  have entry : ed.past[j]? = some (ed.past.getD j []) := by
    rw [List.getD_eq_getElem _ _ inside, List.getElem?_eq_getElem inside]
  rw [((rep.moveTo inside.le).row entry).1, Option.map_some]

theorem Represents.act_up (rep : Represents kb m ed) :
    kb.act .up = some (if 0 < ed.pos then
      MOKernel.cmdSet { kb with historyIndex := ed.pos - 1 } (ed.past.getD (ed.pos - 1) [])
    else (kb, [])) := by
  have index := rep.index
  have pos := rep.pos
  have count := rep.count
  rw [Keyboard.act, historyUp]
  rcases Nat.eq_zero_or_pos ed.pos with top | below
  · rw [if_neg (by omega : ¬ kb.historyIndex > 0), ite_self, if_neg (by omega)]
  · rw [if_neg (by omega), if_pos (by omega), if_pos below, index]
    exact rep.recall (by omega)

theorem Represents.act_down (rep : Represents kb m ed) :
    kb.act .down = some (if ed.pos < ed.past.length then
      MOKernel.cmdSet { kb with historyIndex := ed.pos + 1 } (ed.past.getD (ed.pos + 1) [])
    else (kb, [])) := by
  have index := rep.index
  have pos := rep.pos
  have count := rep.count
  rw [Keyboard.act, historyDown]
  rcases lt_trichotomy (ed.pos + 1) ed.past.length with recalled | last | bottom
  · rw [if_neg (by omega), if_pos (by omega), if_pos (by omega), index]
    exact rep.recall recalled
  · rw [if_neg (by omega), if_neg (by omega), if_pos (by omega), if_pos (by omega), index,
      List.getD_eq_default _ _ last.ge]
  · rw [if_neg (by omega : ¬ kb.historyIndex < kb.historyCount - 1),
      if_neg (by omega : ¬ ed.pos < ed.past.length)]
    rcases Nat.eq_zero_or_pos kb.historyCount with none | some
    · rw [if_pos none]
    · rw [if_neg (by omega), if_neg (by omega)]

/-- The line of another position. -/
theorem Represents.seek (rep : Represents kb m ed) {j : Nat} (within : j ≤ ed.past.length) :
    Simulates m (some (MOKernel.cmdSet { kb with historyIndex := j } (ed.past.getD j [])))
      { ed with pos := j, line := ed.past.getD j [] } [] := by
  obtain ⟨nulFree, fits⟩ := rep.pastLine j
  obtain ⟨set, quiet⟩ := (rep.moveTo within).cmdSet nulFree fits
  exact ⟨_, _, rfl, set, quiet⟩

theorem Represents.up (rep : Represents kb m ed) :
    Simulates m (kb.act .up) (ed.press .up) [] := by
  have pos := rep.pos
  rw [rep.act_up, LineEditor.press]
  split
  · exact rep.seek (by omega)
  · exact ⟨kb, [], rfl, rep, rfl⟩

theorem Represents.down (rep : Represents kb m ed) :
    Simulates m (kb.act .down) (ed.press .down) [] := by
  rw [rep.act_down, LineEditor.press]
  split
  · next above => exact rep.seek above
  · exact ⟨kb, [], rfl, rep, rfl⟩

/-! ## Enter -/

/-- A line stored in the row after the last. -/
theorem RowsHold.append {rows : Fin historyMax → CmdRow} {past : List (List UInt8)}
    (held : RowsHold rows past) {line : List UInt8} (nulFree : (0 : UInt8) ∉ line)
    (short : line.length ≤ lineMax) (room : past.length < historyMax) (old : CmdRow) :
    RowsHold (Function.update rows ⟨past.length, room⟩ (overwrite old (line ++ [0])))
      (past ++ [line]) := by
  intro j text entry
  rcases lt_trichotomy j.val past.length with before | last | after
  · rw [List.getElem?_append_left before] at entry
    rw [Function.update_of_ne (Fin.ne_of_val_ne before.ne)]
    exact held j text entry
  · rw [last, List.getElem?_concat_length, Option.some.injEq] at entry
    obtain rfl : j = ⟨past.length, room⟩ := Fin.ext last
    rw [Function.update_self, ← entry]
    exact cstr_overwrite old nulFree (Nat.lt_succ_iff.mpr short)
  · rw [List.getElem?_eq_none (by rw [List.length_append, List.length_singleton]; omega)] at entry
    cases entry

/-- A full history moves up by one row. -/
theorem RowsHold.shift {rows : Fin historyMax → CmdRow} {past : List (List UInt8)}
    (held : RowsHold rows past) (full : past.length = historyMax) :
    ∃ rows', shiftRows rows = some rows' ∧ RowsHold rows' (past.drop 1) := by
  have terminated (j : Fin historyMax) : (0 : UInt8) ∈ (rows j).toList :=
    (held j _ (List.getElem?_eq_getElem (full.symm ▸ j.isLt))).2
  refine ⟨_, if_pos fun j _ => terminated j, fun j text entry => ?_⟩
  rw [List.getElem?_drop, Nat.add_comm] at entry
  obtain ⟨lt, _⟩ := List.getElem?_eq_some_iff.mp entry
  have next : j.val + 1 < historyMax := lt.trans_eq full
  have above := held ⟨j.val + 1, next⟩ text entry
  have short := length_cstr_lt above.2
  rw [Vector.length_toList] at short
  rw [dif_pos next, ← above.1]
  exact cstr_overwrite (rows j) (cstr_nulFree _) short

/-- The history takes the submitted line. -/
theorem rememberLine_eq (kb : Keyboard) {past : List (List UInt8)} {line : List UInt8}
    (held : RowsHold kb.history past) (count : kb.historyCount = past.length)
    (few : past.length ≤ historyMax) (len : kb.cmdLen = line.length)
    (stored : kb.cmdBuffer.toList.take (kb.cmdLen + 1) = line ++ [0])
    (nulFree : (0 : UInt8) ∉ line) (short : line.length ≤ lineMax) :
    ∃ rows, rememberLine kb = some { kb with
        history := rows
        historyCount := (remember past line).length } ∧
      RowsHold rows (remember past line) := by
  cases line with
  | nil =>
    refine ⟨kb.history, ?_, held⟩
    rw [rememberLine, if_neg (by rw [len]; exact lt_irrefl _), remember, if_pos rfl, ← count]
  | cons c line =>
    have some : kb.cmdLen > 0 := by rw [len]; exact Nat.succ_pos _
    rw [rememberLine, if_pos some, stored, remember, if_neg (List.cons_ne_nil _ _)]
    rcases Nat.lt_or_ge past.length historyMax with room | full
    · have kept : past.length + 1 - historyMax = 0 := Nat.sub_eq_zero_of_le room
      rw [dif_pos (count ▸ room), kept, List.drop_zero]
      refine ⟨_, ?_, held.append nulFree short room (kb.history ⟨past.length, room⟩)⟩
      simp only [count, List.length_append, List.length_singleton]
    · have all : past.length = historyMax := le_antisymm few full
      obtain ⟨rows, shifted, moved⟩ := held.shift all
      have last : (past.drop 1).length = 9 := by
        rw [List.length_drop, all]
        rfl
      have dropped : past.length + 1 - historyMax = 1 := by rw [all]; rfl
      have front : (past ++ [c :: line]).drop 1 = past.drop 1 ++ [c :: line] :=
        List.drop_append_of_le_length (by rw [all]; decide)
      rw [dif_neg (by omega), shifted, Option.map_some, dropped, front]
      have room : (past.drop 1).length < historyMax := by rw [last]; decide
      have spot : (⟨(past.drop 1).length, room⟩ : Fin historyMax) = 9 := Fin.ext last
      have appended := moved.append nulFree short room (rows 9)
      rw [spot] at appended
      refine ⟨_, ?_, appended⟩
      rw [List.length_append, last, count, all]
      rfl

theorem length_remember {past : List (List UInt8)} (line : List UInt8)
    (few : past.length ≤ historyMax) : (remember past line).length ≤ historyMax := by
  rw [remember]
  split
  · exact few
  · rw [List.length_drop, List.length_append, List.length_singleton]
    omega

theorem Represents.enter (rep : Represents kb m ed) :
    Simulates m (kb.act .enter) (ed.press .enter) [ed.line] := by
  have short := rep.short
  have inside : kb.cmdLen < cmdBufferSize := by
    rw [rep.len]
    exact Nat.lt_succ_iff.mpr short
  have stored : (kb.cmdBuffer.set kb.cmdLen 0 inside).toList.take (kb.cmdLen + 1) =
      ed.line ++ [0] := by
    rw [take_set_succ, rep.len, rep.line]
  have submitted : cstr (kb.cmdBuffer.set kb.cmdLen 0 inside).toList = ed.line :=
    cstr_of_take rep.nulFree stored
  obtain ⟨rows, remembered, held⟩ :=
    rememberLine_eq { kb with cmdBuffer := kb.cmdBuffer.set kb.cmdLen 0 inside }
      rep.rows rep.count rep.few rep.len stored rep.nulFree short
  have run : kb.act .enter = some ({ kb with
        cmdBuffer := kb.cmdBuffer.set kb.cmdLen 0 inside
        cmdLen := 0
        history := rows
        historyCount := (remember ed.past ed.line).length
        historyIndex := (remember ed.past ed.line).length },
      [.print (ascii "\n"), .execute (cstr (kb.cmdBuffer.set kb.cmdLen 0 inside).toList),
        .print (ascii "OS> ")]) := by
    rw [Keyboard.act, enterLine, dif_pos inside]
    exact congrArg (Option.map _) remembered
  refine ⟨_, _, run, ?_, ?_⟩
  · exact {
      modifiers := rep.modifiers
      len := rfl
      short := Nat.zero_le _
      line := rfl
      nulFree := List.not_mem_nil
      count := rfl
      few := length_remember ed.line rep.few
      rows := held
      index := rfl
      pos := Nat.le_refl _ }
  · exact congrArg (fun text => [text]) submitted

/-! ## Runs -/

theorem Represents.char (rep : Represents kb m ed) {c : UInt8} (nonzero : c ≠ 0) :
    Simulates m (kb.act (.char c)) (ed.press (.char c)) [] := by
  rw [LineEditor.press]
  by_cases room : ed.line.length < lineMax
  · rw [if_pos room]
    obtain ⟨put, quiet⟩ := rep.cmdPut nonzero room
    exact ⟨_, _, rfl, put, quiet⟩
  · rw [if_neg room]
    refine ⟨kb, [], ?_, rep, rfl⟩
    rw [Keyboard.act, cmdPut_of_full (by rw [rep.len]; exact room)]

theorem keyOf_char_ne_zero {chr c : UInt8} (mapped : m.keyOf chr = some (.char c)) : c ≠ 0 := by
  rw [Modifiers.keyOf] at mapped
  split_ifs at mapped with word up enter backspace plain <;> cases mapped
  exact plain

theorem decode_char_ne_zero {keycode c : UInt8}
    (decoded : (m.decode keycode).2 = some (.char c)) : c ≠ 0 := by
  rw [Modifiers.decode] at decoded
  split_ifs at decoded <;> first | exact keyOf_char_ne_zero decoded | cases decoded

/-- The handler does what the editor does, for one scancode. -/
theorem Represents.handler (rep : Represents kb m ed) (keycode : UInt8) :
    Simulates (m.decode keycode).1
      ((kb.withModifiers (m.decode keycode).1).perform (m.decode keycode).2)
      ((m.decode keycode).2.elim ed ed.press) ((m.decode keycode).2.elim [] ed.submits) := by
  have moved := rep.withModifiers (m.decode keycode).1
  cases pressed : (m.decode keycode).2 with
  | none => exact ⟨_, [], rfl, moved, rfl⟩
  | some key =>
    cases key with
    | char c => exact moved.char (decode_char_ne_zero pressed)
    | backspace => exact moved.backspace
    | word => exact moved.word
    | up => exact moved.up
    | down => exact moved.down
    | enter => exact moved.enter

/-- The handler leaves no array and keeps the globals an editor. -/
theorem Represents.total (rep : Represents kb m ed) (status keycode : UInt8) :
    ∃ kb' effects, keyboardHandlerMain kb status keycode = some (kb', effects) ∧
      ∃ m' ed', Represents kb' m' ed' := by
  rw [keyboardHandlerMain_eq, rep.modifiers]
  split
  · exact ⟨kb, [], rfl, m, ed, rep⟩
  · obtain ⟨kb', effects, ran, rep', _⟩ := rep.handler keycode
    exact ⟨kb', effects, ran, _, _, rep'⟩

theorem Represents.run (rep : Represents kb m ed) (events : List (UInt8 × UInt8)) :
    Simulates (editorRun m ed events).1.1 (keyboardRun kb events) (editorRun m ed events).1.2
      (editorRun m ed events).2 := by
  induction events generalizing kb m ed with
  | nil => exact ⟨kb, [], rfl, rep, rfl⟩
  | cons event events ih =>
    obtain ⟨status, keycode⟩ := event
    have step := keyboardHandlerMain_eq kb status keycode
    rw [editorRun, keyboardRun]
    by_cases idle : status &&& 0x01 = 0
    · rw [if_pos idle] at step
      obtain ⟨kb', effects, ran, rep', same⟩ := ih rep
      rw [if_pos idle, step]
      refine ⟨kb', effects, ?_, rep', same⟩
      simp only [Option.bind_eq_bind, Option.bind_some, ran]
      rfl
    · obtain ⟨mid, first, handled, rep₁, same₁⟩ := rep.handler keycode
      obtain ⟨kb', rest, ran, rep₂, same₂⟩ := ih rep₁
      rw [if_neg idle, rep.modifiers, handled] at step
      rw [if_neg idle, step]
      refine ⟨kb', first ++ rest, ?_, rep₂, ?_⟩
      · simp only [Option.bind_eq_bind, Option.bind_some, ran]
        rfl
      · rw [executed_append, same₁, same₂]

/-- After every sequence of scancodes the handler has left no array, has executed the
submitted lines, and its globals hold the line, the history and the position of the
editor, within their bounds. -/
theorem keyboard_refines (events : List (UInt8 × UInt8)) :
    ∃ kb effects, keyboardRun keyboardBoot events = some (kb, effects) ∧
      let (_, ed) := (editorRun ⟨false, false, false⟩ LineEditor.start events).1
      executed effects = (editorRun ⟨false, false, false⟩ LineEditor.start events).2 ∧
      kb.cmdLen = ed.line.length ∧ kb.cmdBuffer.toList.take kb.cmdLen = ed.line ∧
      kb.historyCount = ed.past.length ∧
      (∀ j : Fin historyMax, j.val < kb.historyCount →
        cstr (kb.history j).toList = ed.past.getD j.val [] ∧ (0 : UInt8) ∈ (kb.history j).toList) ∧
      kb.historyIndex = ed.pos ∧
      kb.cmdLen ≤ 255 ∧ kb.historyIndex ≤ kb.historyCount ∧ kb.historyCount ≤ 10 := by
  obtain ⟨kb, effects, ran, rep, same⟩ := represents_boot.run events
  refine ⟨kb, effects, ran, same, rep.len, ?_, rep.count, fun j below => ?_, rep.index, ?_, ?_, ?_⟩
  · rw [rep.len]
    exact rep.line
  · rw [rep.count] at below
    rw [List.getD_eq_getElem _ _ below]
    exact rep.rows j _ (List.getElem?_eq_getElem below)
  · rw [rep.len]
    exact rep.short
  · rw [rep.index, rep.count]
    exact rep.pos
  · rw [rep.count]
    exact rep.few

end MOKernel
