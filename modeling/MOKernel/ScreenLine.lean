import MOKernel.ConsoleBounds

/-!
# The edited line on the screen

The handler keeps the line twice, in `cmd_buffer` and on the screen, by code paths with
loops and guards of their own.  `Edits` says which effects take one line to another, and
every key but Enter does such an edit (`Represents.edits`).  `Shows` says that a console
has put a text behind another console and kept what was before it.  Edits keep the shown
line (`Shows.edits`); Enter starts an empty one behind a new prompt.
-/

namespace MOKernel

/-! ## Edits -/

/-- `kprint` gives the character a cell. -/
def Typable (c : UInt8) : Prop := c ≠ 0 ∧ c ≠ 8 ∧ c ≠ 10

instance : DecidablePred Typable := fun c =>
  inferInstanceAs (Decidable (c ≠ 0 ∧ c ≠ 8 ∧ c ≠ 10))

/-- The effects echo, character by character, how one line becomes the other. -/
inductive Edits : List UInt8 → List KbdEffect → List UInt8 → Prop
  | done {line : List UInt8} : Edits line [] line
  | put {line line' : List UInt8} {c : UInt8} {effects : List KbdEffect} (typable : Typable c)
      (rest : Edits (line ++ [c]) effects line') : Edits line (.print [c] :: effects) line'
  | rub {line line' : List UInt8} {c : UInt8} {effects : List KbdEffect}
      (rest : Edits line effects line') : Edits (line ++ [c]) (.rubout :: effects) line'

theorem Edits.append {line mid line' : List UInt8} {first second : List KbdEffect}
    (front : Edits line first mid) (back : Edits mid second line') :
    Edits line (first ++ second) line' := by
  induction front with
  | done => exact back
  | put typable _ ih => exact .put typable (ih back)
  | rub _ ih => exact .rub (ih back)

theorem edits_prints {str : List UInt8} (typable : ∀ c ∈ str, Typable c) (line : List UInt8) :
    Edits line (str.map fun c => .print [c]) (line ++ str) := by
  induction str generalizing line with
  | nil =>
    rw [List.append_nil]
    exact .done
  | cons c str ih =>
    obtain ⟨first, rest⟩ := List.forall_mem_cons.mp typable
    have echoed := ih rest (line ++ [c])
    rw [List.append_assoc, List.singleton_append] at echoed
    exact .put first echoed

theorem edits_rubouts (line rest : List UInt8) :
    Edits (line ++ rest) (List.replicate rest.length .rubout) line := by
  induction rest using List.reverseRecOn with
  | nil =>
    rw [List.append_nil]
    exact .done
  | append_singleton rest c ih =>
    rw [← List.append_assoc, List.length_append, List.length_singleton, List.replicate_succ]
    exact .rub ih

theorem edits_cut {line line' : List UInt8} (front : line' <+: line) :
    Edits line (List.replicate (line.length - line'.length) .rubout) line' := by
  obtain ⟨rest, rfl⟩ := front
  have cut := edits_rubouts line' rest
  rwa [List.length_append, Nat.add_sub_cancel_left]

/-- A key types no character that `kprint` treats in a way of its own. -/
def Key.Plain : Key → Prop
  | .char c => Typable c
  | _ => True

/-- Every line of the editor has been typed. -/
structure LineEditor.Typed (ed : LineEditor) : Prop where
  line : ∀ c ∈ ed.line, Typable c
  past : ∀ text ∈ ed.past, ∀ c ∈ text, Typable c

namespace LineEditor

variable {ed : LineEditor}

theorem Typed.cut (typed : ed.Typed) {line : List UInt8} (front : line <+: ed.line) :
    Typed { ed with line := line } :=
  { typed with line := fun c member => typed.line c (front.subset member) }

theorem Typed.getD (typed : ed.Typed) (j : Nat) : ∀ c ∈ ed.past.getD j [], Typable c := by
  intro c member
  rcases lt_or_ge j ed.past.length with inside | outside
  · rw [List.getD_eq_getElem _ _ inside] at member
    exact typed.past _ (List.getElem_mem inside) c member
  · rw [List.getD_eq_default _ _ outside] at member
    cases member

theorem Typed.remember (typed : ed.Typed) :
    ∀ text ∈ MOKernel.remember ed.past ed.line, ∀ c ∈ text, Typable c := by
  intro text member
  rw [MOKernel.remember] at member
  split at member
  · exact typed.past text member
  · rcases List.mem_append.mp (List.mem_of_mem_drop member) with old | new
    · exact typed.past text old
    · rw [List.mem_singleton.mp new]
      exact typed.line

theorem Typed.press (typed : ed.Typed) {key : Key} (plain : key.Plain) : (ed.press key).Typed := by
  cases key with
  | char c =>
    rw [LineEditor.press]
    split
    · refine { typed with line := fun c' member => ?_ }
      rcases List.mem_append.mp member with old | new
      · exact typed.line c' old
      · rw [List.mem_singleton.mp new]
        exact plain
    · exact typed
  | backspace => exact typed.cut (List.dropLast_prefix ed.line)
  | word =>
    exact typed.cut ((List.rdropWhile_prefix _ _).trans (List.rdropWhile_prefix _ _))
  | up =>
    rw [LineEditor.press]
    split
    · exact ⟨typed.getD _, typed.past⟩
    · exact typed
  | down =>
    rw [LineEditor.press]
    split
    · exact ⟨typed.getD _, typed.past⟩
    · exact typed
  | enter => exact ⟨List.forall_mem_nil _, typed.remember⟩

end LineEditor

section Keys

variable {kb : Keyboard} {m : Modifiers} {ed : LineEditor}

theorem keyOf_plain {chr : UInt8} {key : Key} (mapped : m.keyOf chr = some key) : key.Plain := by
  rw [Modifiers.keyOf] at mapped
  split_ifs at mapped with word up enter backspace plain <;> cases mapped
  · trivial
  · trivial
  · trivial
  · trivial
  · exact ⟨plain, backspace, enter⟩

theorem decode_plain {keycode : UInt8} {key : Key} (decoded : (m.decode keycode).2 = some key) :
    key.Plain := by
  rw [Modifiers.decode] at decoded
  split_ifs at decoded <;>
    first | exact keyOf_plain decoded | (cases decoded; trivial)

theorem cmdPutAll_prints {str : List UInt8} (fits : kb.cmdLen + str.length ≤ lineMax) :
    (cmdPutAll kb str).2 = str.map fun c => .print [c] := by
  induction str generalizing kb with
  | nil => rfl
  | cons c str ih =>
    rw [List.length_cons] at fits
    have room : kb.cmdLen < lineMax := by omega
    rw [cmdPutAll, cmdPut_of_room room]
    simp only [List.map_cons, List.singleton_append, List.cons.injEq, true_and]
    exact ih (by simp only; omega)

/-- `cmd_set` rubs the line out and types the other. -/
theorem Represents.edits_cmdSet (rep : Represents kb m ed) {str : List UInt8}
    (typable : ∀ c ∈ str, Typable c) (fits : str.length ≤ lineMax) :
    Edits ed.line (MOKernel.cmdSet kb str).2 str := by
  have typed : (MOKernel.cmdPutAll (MOKernel.cmdClearDisplay kb).1 str).2 =
      str.map fun c => .print [c] :=
    cmdPutAll_prints (by simpa [MOKernel.cmdClearDisplay] using fits)
  rw [MOKernel.cmdSet, typed, MOKernel.cmdClearDisplay, rep.len]
  exact (edits_rubouts [] ed.line).append (edits_prints typable [])

theorem Represents.edits_seek (rep : Represents kb m ed) (typed : ed.Typed) {j : Nat}
    (within : j ≤ ed.past.length) :
    Edits ed.line (MOKernel.cmdSet { kb with historyIndex := j } (ed.past.getD j [])).2
      (ed.past.getD j []) :=
  (rep.moveTo within).edits_cmdSet (typed.getD j) (rep.pastLine j).2

theorem Represents.edits_char (rep : Represents kb m ed) {c : UInt8} (typable : Typable c)
    {kb' : Keyboard} {effects : List KbdEffect} (acted : kb.act (.char c) = some (kb', effects)) :
    Edits ed.line effects (ed.press (.char c)).line := by
  rw [LineEditor.press]
  rcases lt_or_ge ed.line.length lineMax with room | full
  · rw [Keyboard.act, cmdPut_of_room (by rw [rep.len]; exact room)] at acted
    cases acted
    rw [if_pos room]
    exact .put typable .done
  · rw [Keyboard.act, cmdPut_of_full (by rw [rep.len]; exact full.not_gt)] at acted
    cases acted
    rw [if_neg full.not_gt]
    exact .done

theorem Represents.edits_backspace (rep : Represents kb m ed) {kb' : Keyboard}
    {effects : List KbdEffect} (acted : kb.act .backspace = some (kb', effects)) :
    Edits ed.line effects (ed.press .backspace).line := by
  rw [LineEditor.press]
  rcases List.eq_nil_or_concat' ed.line with empty | ⟨line, c, last⟩
  · rw [Keyboard.act, if_neg (by rw [rep.len, empty]; decide)] at acted
    cases acted
    rw [empty]
    exact .done
  · rw [Keyboard.act, if_pos (by rw [rep.len, last]; simp)] at acted
    cases acted
    rw [last, List.dropLast_concat]
    exact .rub .done

theorem Represents.edits_up (rep : Represents kb m ed) (typed : ed.Typed) {kb' : Keyboard}
    {effects : List KbdEffect} (acted : kb.act .up = some (kb', effects)) :
    Edits ed.line effects (ed.press .up).line := by
  have pos := rep.pos
  rw [rep.act_up] at acted
  rw [LineEditor.press]
  split at acted
  · next below =>
    cases acted
    rw [if_pos below]
    exact rep.edits_seek typed (by omega)
  · next top =>
    cases acted
    rw [if_neg top]
    exact .done

theorem Represents.edits_down (rep : Represents kb m ed) (typed : ed.Typed) {kb' : Keyboard}
    {effects : List KbdEffect} (acted : kb.act .down = some (kb', effects)) :
    Edits ed.line effects (ed.press .down).line := by
  rw [rep.act_down] at acted
  rw [LineEditor.press]
  split at acted
  · next above =>
    cases acted
    rw [if_pos above]
    exact rep.edits_seek typed above
  · next bottom =>
    cases acted
    rw [if_neg bottom]
    exact .done

/-- **Step.**  Every key but Enter edits the line. -/
theorem Represents.edits (rep : Represents kb m ed) (typed : ed.Typed) {key : Key}
    (plain : key.Plain) (inLine : key ≠ .enter) {kb' : Keyboard} {effects : List KbdEffect}
    (acted : kb.act key = some (kb', effects)) : Edits ed.line effects (ed.press key).line := by
  cases key with
  | char c => exact rep.edits_char plain acted
  | backspace => exact rep.edits_backspace acted
  | word =>
    rw [rep.act_word] at acted
    cases acted
    rw [rep.len]
    exact edits_cut ((List.rdropWhile_prefix _ _).trans (List.rdropWhile_prefix _ _))
  | up => exact rep.edits_up typed acted
  | down => exact rep.edits_down typed acted
  | enter => exact absurd rfl inLine

end Keys

/-! ## The text on the screen -/

/-- A character is in the even byte of its cell. -/
def IsChar (offset : UInt32) : Prop := offset.toNat % 2 = 0

/-- `con` has put `text` where `base` was about to print, has kept the characters before it,
and has at most blanked some behind it. -/
structure Shows (base con : Console) (text : List UInt8) : Prop where
  aligned : IsChar base.currentLoc
  loc : con.currentLoc.toNat = base.currentLoc.toNat + 2 * text.length
  text : ∀ offset k c, text[k]? = some c → offset.toNat = base.currentLoc.toNat + 2 * k →
    con.vidptr offset = c
  before : ∀ offset, IsChar offset → offset.toNat < base.currentLoc.toNat →
    con.vidptr offset = base.vidptr offset
  after : ∀ offset, IsChar offset → con.currentLoc.toNat ≤ offset.toNat →
    con.vidptr offset = base.vidptr offset ∨ con.vidptr offset = 32

/-- The `n` characters before `current_loc`. -/
def charsBefore (con : Console) (n : Nat) : List UInt8 :=
  (List.range n).map fun k => con.vidptr (con.currentLoc - 2 * UInt32.ofNat (n - k))

section Shows

variable {base con con' : Console} {line line' : List UInt8}

theorem shows_nil (aligned : IsChar base.currentLoc) : Shows base base [] where
  aligned := aligned
  loc := rfl
  text _ _ _ entry := nomatch entry
  before _ _ _ := rfl
  after _ _ _ := .inl rfl

theorem Shows.isChar (shows : Shows base con line) : IsChar con.currentLoc := by
  have aligned := shows.aligned
  have loc := shows.loc
  rw [IsChar] at aligned ⊢
  omega

/-- The bytes of the text are characters. -/
theorem Shows.char_of_place (shows : Shows base con line) {offset : UInt32} {k : Nat}
    (place : offset.toNat = base.currentLoc.toNat + 2 * k) : IsChar offset := by
  have aligned := shows.aligned
  rw [IsChar] at aligned ⊢
  omega

/-- Only characters matter. -/
theorem Shows.congr (shows : Shows base con line) (loc : con'.currentLoc = con.currentLoc)
    (chars : ∀ offset, IsChar offset → con'.vidptr offset = con.vidptr offset) :
    Shows base con' line where
  aligned := shows.aligned
  loc := by rw [loc]; exact shows.loc
  text offset k c entry place := by
    have aligned := shows.aligned
    rw [IsChar] at aligned
    rw [chars offset (by rw [IsChar]; omega)]
    exact shows.text offset k c entry place
  before offset char front := by
    rw [chars offset char]
    exact shows.before offset char front
  after offset char back := by
    rw [loc] at back
    rw [chars offset char]
    exact shows.after offset char back

theorem storeCell_here {offset : UInt32} (char : IsChar offset) (chr : UInt8) :
    (con.storeCell offset chr).vidptr offset = chr := by
  have apart : offset ≠ offset + 1 := by
    intro same
    have value := congrArg UInt32.toNat same
    rw [toNat_succ_of_even char] at value
    omega
  simp only [Console.storeCell, Console.store]
  rw [Function.update_of_ne apart, Function.update_self]

theorem storeCell_apart {offset other : UInt32} (char : IsChar offset) (chr : UInt8)
    (char' : IsChar other) (apart : other.toNat ≠ offset.toNat) :
    (con.storeCell offset chr).vidptr other = con.vidptr other := by
  refine storeCell_kept chr fun member => ?_
  rw [IsChar] at char char'
  rcases List.mem_cons.mp member with rfl | next
  · exact apart rfl
  · have value := congrArg UInt32.toNat (List.mem_singleton.mp next)
    rw [toNat_succ_of_even char] at value
    omega

/-- A printed character stands behind the text. -/
theorem Shows.put (shows : Shows base con line) {c : UInt8} (typable : Typable c)
    (room : con.currentLoc.toNat < screenSize) : Shows base (kprintChar con c) (line ++ [c]) := by
  obtain ⟨_, notBack, notNewline⟩ := typable
  have here := shows.isChar
  have loc := shows.loc
  have next : (con.currentLoc + 1 + 1).toNat = con.currentLoc.toNat + 2 := by
    rw [UInt32.toNat_add, toNat_succ_of_even here, UInt32.toNat_one]
    rw [screenSize] at room
    omega
  rw [kprintChar, if_neg notNewline, if_neg notBack]
  exact {
    aligned := shows.aligned
    loc := by
      rw [List.length_append, List.length_singleton]
      exact next.trans (by omega)
    text := fun offset k chr entry place => by
      have char := shows.char_of_place place
      rcases lt_trichotomy k line.length with old | new | outside
      · rw [List.getElem?_append_left old] at entry
        exact (storeCell_apart here c char (by omega)).trans (shows.text offset k chr entry place)
      · rw [new, List.getElem?_concat_length, Option.some.injEq] at entry
        obtain rfl : offset = con.currentLoc := UInt32.toNat_inj.mp (by omega)
        exact (storeCell_here here c).trans entry
      · rw [List.getElem?_eq_none (by simp only [List.length_append, List.length_singleton]; omega)]
          at entry
        cases entry
    before := fun offset char front =>
      (storeCell_apart here c char (by omega)).trans (shows.before offset char front)
    after := fun offset char back => by
      have behind : con.currentLoc.toNat + 2 ≤ offset.toNat := next.symm.trans_le back
      have kept : (con.storeCell con.currentLoc c).vidptr offset = con.vidptr offset :=
        storeCell_apart here c char (by omega)
      exact (shows.after offset char (by omega)).imp kept.trans kept.trans }

/-- A character rubbed out leaves a blank behind the text. -/
theorem Shows.rub {c : UInt8} (shows : Shows base con (line ++ [c])) :
    Shows base (rubOut con) line := by
  have here := shows.isChar
  have loc := shows.loc
  rw [List.length_append, List.length_singleton] at loc
  have some : con.currentLoc ≥ 2 :=
    UInt32.le_iff_toNat_le.mpr (show 2 ≤ con.currentLoc.toNat by omega)
  have less : (con.currentLoc - 2).toNat = con.currentLoc.toNat - 2 :=
    UInt32.toNat_sub_of_le _ _ some
  have back : (con.currentLoc - 2).toNat = base.currentLoc.toNat + 2 * line.length := by omega
  have char' : IsChar (con.currentLoc - 2) := by
    rw [IsChar] at here ⊢
    omega
  rw [rubOut, if_pos some]
  exact {
    aligned := shows.aligned
    loc := back
    text := fun offset k chr entry place => by
      obtain ⟨inside, _⟩ := List.getElem?_eq_some_iff.mp entry
      have char := shows.char_of_place place
      refine (storeCell_apart char' 32 char (by omega)).trans (shows.text offset k chr ?_ place)
      rw [List.getElem?_append_left inside, entry]
    before := fun offset char front =>
      (storeCell_apart char' 32 char (by omega)).trans (shows.before offset char front)
    after := fun offset char behind => by
      rcases eq_or_ne offset (con.currentLoc - 2) with rfl | apart
      · exact .inr (storeCell_here char' 32)
      · have different : offset.toNat ≠ (con.currentLoc - 2).toNat :=
          fun same => apart (UInt32.toNat_inj.mp same)
        have kept : (con.storeCell (con.currentLoc - 2) 32).vidptr offset = con.vidptr offset :=
          storeCell_apart char' 32 char different
        have beyond : (con.currentLoc - 2).toNat ≤ offset.toNat := behind
        rw [IsChar] at here char
        exact (shows.after offset char (by omega)).imp kept.trans kept.trans }

theorem Shows.print (shows : Shows base con line) {str : List UInt8}
    (typable : ∀ c ∈ str, Typable c) (inside : Inside (printStores con str)) :
    Shows base (kprint con str) (line ++ str) := by
  induction str generalizing con line with
  | nil =>
    rw [List.append_nil]
    exact shows
  | cons c str ih =>
    obtain ⟨first, rest⟩ := List.forall_mem_cons.mp typable
    have cell : charStores con c = [con.currentLoc, con.currentLoc + 1] := by
      rw [charStores, if_neg first.2.2, if_neg first.2.1]
    rw [printStores, if_neg first.1, inside_append, cell] at inside
    have put := shows.put first (inside.1 _ List.mem_cons_self)
    have printed := ih put rest inside.2
    rw [List.append_assoc, List.singleton_append] at printed
    rw [kprint, if_neg first.1]
    exact printed

/-- **Step.**  The echo of an edit shows the edited line. -/
theorem Shows.edits {prompt : List UInt8} {effects : List KbdEffect} {shown : List TextOut}
    (edits : Edits line effects line') (shows : Shows base con (prompt ++ line))
    (inside : Inside (textsStores con (effects.flatMap (·.text shown)))) :
    Shows base (textOuts con (effects.flatMap (·.text shown))) (prompt ++ line') := by
  induction edits generalizing con with
  | done => exact shows
  | @put line _ c effects typable _ ih =>
    rw [List.flatMap_cons, KbdEffect.text, List.singleton_append] at inside ⊢
    rw [textsStores, inside_append] at inside
    have typed : ∀ c' ∈ [c], Typable c' := by simpa using typable
    have printed := shows.print typed inside.1
    rw [List.append_assoc] at printed
    exact ih printed inside.2
  | @rub line _ c effects _ ih =>
    rw [List.flatMap_cons, KbdEffect.text, List.singleton_append] at inside ⊢
    rw [textsStores, inside_append] at inside
    rw [← List.append_assoc] at shows
    exact ih shows.rub inside.2

theorem Shows.charsBefore (shows : Shows base con line) : charsBefore con line.length = line := by
  have loc := shows.loc
  have bound := con.currentLoc.toNat_lt
  refine List.ext_getElem (by simp [MOKernel.charsBefore]) fun k _ inside => ?_
  have twice : (2 * UInt32.ofNat (line.length - k)).toNat = 2 * (line.length - k) := by
    rw [UInt32.toNat_mul, UInt32.toNat_ofNat']
    simp only [UInt32.reduceToNat]
    omega
  have fits : 2 * UInt32.ofNat (line.length - k) ≤ con.currentLoc := by
    rw [UInt32.le_iff_toNat_le, twice]
    omega
  simp only [MOKernel.charsBefore, List.getElem_map, List.getElem_range]
  refine shows.text _ k _ (List.getElem?_eq_getElem inside) ?_
  rw [UInt32.toNat_sub_of_le _ _ fits, twice]
  omega

end Shows

/-! ## Runs -/

theorem enterLine_effects {kb kb' : Keyboard} {effects : List KbdEffect}
    (entered : enterLine kb = some (kb', effects)) :
    ∃ cmd, effects = [.print (ascii "\n"), .execute cmd, .print (ascii "OS> ")] := by
  rw [enterLine] at entered
  split at entered
  · obtain ⟨stored, _, same⟩ := Option.map_eq_some_iff.mp entered
    cases same
    exact ⟨_, rfl⟩
  · cases entered

/-- One interrupt edits the line, or submits it and starts an empty one. -/
theorem Represents.handled {kb : Keyboard} {m : Modifiers} {ed : LineEditor}
    (rep : Represents kb m ed) (typed : ed.Typed) (status keycode : UInt8) :
    ∃ kb' effects m' ed', keyboardHandlerMain kb status keycode = some (kb', effects) ∧
      Represents kb' m' ed' ∧ ed'.Typed ∧
      (executed effects = [] ∧ Edits ed.line effects ed'.line ∨
        effects = [.print (ascii "\n"), .execute ed.line, .print (ascii "OS> ")] ∧
          ed'.line = []) := by
  rw [keyboardHandlerMain_eq, rep.modifiers]
  split
  · exact ⟨kb, [], m, ed, rfl, rep, typed, .inl ⟨rfl, .done⟩⟩
  · obtain ⟨kb', effects, ran, rep', submitted⟩ := rep.handler keycode
    have moved := rep.withModifiers (m.decode keycode).1
    refine ⟨kb', effects, _, _, ran, rep', ?_⟩
    cases pressed : (m.decode keycode).2 with
    | none =>
      rw [pressed] at ran
      cases ran
      exact ⟨typed, .inl ⟨rfl, .done⟩⟩
    | some key =>
      rw [pressed] at ran submitted
      have plain := decode_plain pressed
      refine ⟨typed.press plain, ?_⟩
      rcases eq_or_ne key .enter with rfl | inLine
      · obtain ⟨cmd, rfl⟩ := enterLine_effects ran
        obtain rfl : cmd = ed.line := List.singleton_inj.mp submitted
        exact .inr ⟨rfl, rfl⟩
      · have quiet : ed.submits key = [] := by
          cases key <;> first | rfl | exact absurd rfl inLine
        exact .inl ⟨submitted.trans quiet, moved.edits typed plain inLine ran⟩

namespace Screen

/-- A keyboard or mouse interrupt. -/
def IsInput : ScreenEvent → Prop
  | .output _ => False
  | _ => True

/-- The console on which the event prints a prompt, after the output of the command. -/
def prompts (s : Screen) : ScreenEvent → Option Console
  | .keyboard status keycode shown =>
    (keyboardHandlerMain s.keyboard status keycode).bind fun handled =>
      if executed handled.2 = [] then none
      else some (textOuts s.console (.print (ascii "\n") :: shown))
  | _ => none

/-- The console on which the run has printed its last prompt, `base` if it prints none. -/
def lastPrompt (s : Screen) (base : Console) : List ScreenEvent → Option Console
  | [] => some base
  | event :: events =>
    (s.step event).bind fun s' => s'.lastPrompt ((s.prompts event).getD base) events

/-- The keyboard edits a typed line. -/
structure Ready (s : Screen) : Prop where
  sound : Sound s
  typed : ∃ m ed, Represents s.keyboard m ed ∧ ed.Typed

/-- The line being edited is behind the prompt printed on `base`. -/
structure Echoes (s : Screen) (base : Console) : Prop where
  sound : Sound s
  echo : ∃ m ed, Represents s.keyboard m ed ∧ ed.Typed ∧
    Shows base s.console (ascii "OS> " ++ ed.line)

variable {s s' : Screen} {base : Console} {event : ScreenEvent}

theorem Ready.step (ready : s.Ready) (stepped : s.step event = some s') : s'.Ready := by
  obtain ⟨after, stepped', sound'⟩ := ready.sound.step event
  obtain rfl := Option.some.inj (stepped.symm.trans stepped')
  refine ⟨sound', ?_⟩
  obtain ⟨m, ed, rep, typed⟩ := ready.typed
  cases event with
  | keyboard status keycode shown =>
    obtain ⟨kb', effects, m', ed', ran, rep', typed', _⟩ := rep.handled typed status keycode
    rw [Screen.step, ran] at stepped
    cases stepped
    exact ⟨m', ed', rep', typed'⟩
  | mouse status byte =>
    cases stepped
    exact ⟨m, ed, rep, typed⟩
  | output outs =>
    cases stepped
    exact ⟨m, ed, rep, typed⟩

theorem Ready.of_run (ready : s.Ready) {events : List ScreenEvent}
    (ran : s.run events = some s') : s'.Ready := by
  induction events generalizing s with
  | nil =>
    cases ran
    exact ready
  | cons event events ih =>
    rw [Screen.run, Option.bind_eq_some_iff] at ran
    obtain ⟨mid, stepped, rest⟩ := ran
    exact ih (ready.step stepped) rest

theorem ready_booted (memory : UInt32 → UInt8) (text : List TextOut) :
    (booted memory text).Ready where
  sound := sound_booted memory text
  typed := ⟨_, _, represents_boot, List.forall_mem_nil _, List.forall_mem_nil _⟩

theorem ready_kmain {memory : UInt32 → UInt8} {text : List TextOut} {early : List ScreenEvent}
    (started : kmain memory text early = some s) : s.Ready := by
  obtain ⟨s₀, ran, rfl⟩ := Option.map_eq_some_iff.mp started
  have ready := (ready_booted memory text).of_run ran
  exact ⟨ready.sound.drawCursor, ready.typed⟩

theorem typable_prompt : ∀ c ∈ ascii "OS> ", Typable c := by decide +kernel

/-- A prompt for an empty line, behind other output. -/
theorem shows_prompt {con : Console} (aligned : IsChar con.currentLoc) {outs : List TextOut}
    (inside : Inside (textsStores con (outs ++ [.print (ascii "OS> ")]))) :
    Shows (textOuts con outs) (textOuts con (outs ++ [.print (ascii "OS> ")]))
      (ascii "OS> ") := by
  rw [textsStores_append, inside_append] at inside
  have prompt := (inside_append.mp inside.2).1
  have printed := (shows_nil (paints_textOuts aligned outs).aligned).print typable_prompt prompt
  rw [textOuts, textOuts, List.foldl_append]
  exact printed

/-- **Step.**  An interrupt that prints inside the screen echoes the line behind the prompt
there was, or behind the one it prints. -/
theorem Echoes.step (echoes : s.Echoes base) (input : IsInput event)
    (inside : Inside (s.stores event)) :
    ∃ s', s.step event = some s' ∧ s'.Echoes ((s.prompts event).getD base) := by
  obtain ⟨s', stepped, sound'⟩ := echoes.sound.step event
  refine ⟨s', stepped, sound', ?_⟩
  obtain ⟨m, ed, rep, typed, shows⟩ := echoes.echo
  cases event with
  | keyboard status keycode shown =>
    obtain ⟨kb', effects, m', ed', ran, rep', typed', edited⟩ := rep.handled typed status keycode
    rw [Screen.step, ran] at stepped
    cases stepped
    refine ⟨m', ed', rep', typed', ?_⟩
    rw [stores, texts, ran, Option.elim_some] at inside
    rw [prompts, ran, Option.bind_some]
    rcases edited with ⟨quiet, edits⟩ | ⟨submitted, empty⟩
    · rw [if_pos quiet]
      exact shows.edits edits inside
    · -- the new prompt is behind the output of the command
      have fresh : executed effects ≠ [] := by
        rw [submitted]
        exact List.cons_ne_nil _ _
      have outs : effects.flatMap (·.text shown) =
          (.print (ascii "\n") :: shown) ++ [.print (ascii "OS> ")] := by
        rw [submitted]
        simp [KbdEffect.text]
      rw [outs] at inside
      have prompted := shows_prompt echoes.sound.aligned inside
      rw [← outs] at prompted
      rw [if_neg fresh, Option.getD_some, empty, List.append_nil]
      exact prompted
  | mouse status byte =>
    cases stepped
    refine ⟨m, ed, rep, typed, shows.congr ?_ fun offset char => ?_⟩
    · exact (mouseHandlerMain_cases s.console s.mouse status byte).1
    · refine mouseHandlerMain_kept echoes.sound.inside s.console status byte ?_
      rw [IsAttribute, char]
      decide
  | output outs => cases input

theorem Echoes.run (echoes : s.Echoes base) {events : List ScreenEvent}
    (inputs : ∀ event ∈ events, IsInput event) (inside : Inside (s.written events)) :
    ∃ s' base', s.run events = some s' ∧ s.lastPrompt base events = some base' ∧
      s'.Echoes base' := by
  induction events generalizing s base with
  | nil => exact ⟨s, base, rfl, rfl, echoes⟩
  | cons event events ih =>
    obtain ⟨input, inputs'⟩ := List.forall_mem_cons.mp inputs
    rw [written, inside_append] at inside
    obtain ⟨mid, stepped, echoes'⟩ := echoes.step input inside.1
    rw [stepped] at inside
    obtain ⟨s', base', ran, last, echoes''⟩ := ih echoes' inputs' inside.2
    refine ⟨s', base', ?_, ?_, echoes''⟩
    · rw [Screen.run, stepped]
      exact ran
    · rw [lastPrompt, stepped]
      exact last

/-- **The edited line.**  Take a screen after `kmain` at which the line is empty, the first
prompt and any interrupts of keyboard and mouse, whatever the executed commands print, as
long as all of it is printed inside the screen.  Then the prompt and the line stand before
`current_loc`, on the console the last prompt was printed on, the characters before it are
kept, those behind are kept or blank, and the line is what Enter executes. -/
theorem screen_shows_line (memory : UInt32 → UInt8) (text : List TextOut)
    (early past events : List ScreenEvent) {s : Screen}
    (reached : (kmain memory text early).bind (·.run past) = some s)
    (empty : s.keyboard.cmdLen = 0) (inputs : ∀ event ∈ events, IsInput event)
    (inside : Inside (s.written (.output [.print (ascii "OS> ")] :: events))) :
    ∃ s' base, s.run (.output [.print (ascii "OS> ")] :: events) = some s' ∧
      s.lastPrompt s.console (.output [.print (ascii "OS> ")] :: events) = some base ∧
      let line := s'.keyboard.cmdBuffer.toList.take s'.keyboard.cmdLen
      Shows base s'.console (ascii "OS> " ++ line) ∧
      2 * (4 + s'.keyboard.cmdLen) ≤ s'.console.currentLoc.toNat ∧
      charsBefore s'.console (4 + s'.keyboard.cmdLen) = ascii "OS> " ++ line ∧
      (enterLine s'.keyboard).map (executed ·.2) = some [line] := by
  obtain ⟨s₀, started, ran⟩ := Option.bind_eq_some_iff.mp reached
  have ready := (ready_kmain started).of_run ran
  obtain ⟨m, ed, rep, typed⟩ := ready.typed
  have noLine : ed.line = [] := List.eq_nil_of_length_eq_zero (rep.len.symm.trans empty)
  rw [written, inside_append] at inside
  have echoes : (s.emit [.print (ascii "OS> ")]).Echoes s.console := by
    refine ⟨ready.sound.emit _, m, ed, rep, typed, ?_⟩
    rw [noLine, List.append_nil]
    exact @shows_prompt s.console ready.sound.aligned [] inside.1
  obtain ⟨s', base, ran, last, echoes'⟩ := echoes.run inputs inside.2
  obtain ⟨m', ed', rep', _, shows⟩ := echoes'.echo
  have held : s'.keyboard.cmdBuffer.toList.take s'.keyboard.cmdLen = ed'.line := by
    rw [rep'.len]
    exact rep'.line
  have whole : (ascii "OS> " ++ ed'.line).length = 4 + s'.keyboard.cmdLen := by
    rw [List.length_append, rep'.len]
    rfl
  obtain ⟨kb', effects, ran', _, submitted⟩ := rep'.enter
  have loc := shows.loc
  refine ⟨s', base, ran, last, ?_⟩
  rw [held, ← whole]
  refine ⟨shows, by omega, shows.charsBefore, ?_⟩
  have entered : enterLine s'.keyboard = some (kb', effects) := ran'
  rw [entered, Option.map_some, submitted]

/-- The screen after the last line of `kmain` but the prompt. -/
def initialized : Screen :=
  (booted (fun _ => 0) []).drawCursor.emit [.print (ascii "\nKernel initialization complete!\n")]

/-- `ls` and Enter, Up, and a packet of the mouse. -/
def recalled : List ScreenEvent :=
  [.keyboard 1 0x26 [], .keyboard 1 0x1F [], .keyboard 1 0x1C [.print (ascii "notes ")],
    .keyboard 1 0xE0 [], .keyboard 1 0x48 [], .mouse 1 0x08]

theorem screen_shows_recalled :
    ∃ s', initialized.run (.output [.print (ascii "OS> ")] :: recalled) = some s' ∧
      charsBefore s'.console (4 + s'.keyboard.cmdLen) =
        ascii "OS> " ++ s'.keyboard.cmdBuffer.toList.take s'.keyboard.cmdLen := by
  have reached : (kmain (fun _ => 0) [] []).bind
      (·.run [.output [.print (ascii "\nKernel initialization complete!\n")]]) =
        some initialized := rfl
  have inputs : ∀ event ∈ recalled, IsInput event := by simp [recalled, IsInput]
  have inside : Inside (initialized.written (.output [.print (ascii "OS> ")] :: recalled)) := by
    decide +kernel
  obtain ⟨s', base, ran, _, _, _, shown, _⟩ :=
    screen_shows_line (fun _ => 0) [] [] _ recalled reached rfl inputs inside
  exact ⟨s', ran, shown⟩

end Screen

end MOKernel
