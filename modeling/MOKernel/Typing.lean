import MOKernel.LineEditor

/-!
# Every line can be typed

`typeChar` is how a user types a character: its key, or its key under Shift, pressed and
released.  From every state the handler can be in, releasing the modifiers and enough
backspaces lead to an empty line, and from there the keys of a printable text and Enter
execute just that text (`every_line_typable`).
-/

namespace MOKernel

/-- No modifier held, no prefix pending. -/
def Modifiers.released : Modifiers := ⟨false, false, false⟩

/-- The keys of a sequence of scancodes. -/
def Modifiers.decodeKeys (m : Modifiers) : List UInt8 → Modifiers × List Key
  | [] => (m, [])
  | code :: codes =>
    let rest := (m.decode code).1.decodeKeys codes
    (rest.1, (m.decode code).2.toList ++ rest.2)

/-- The editor after a sequence of keys, and the lines submitted on the way. -/
def LineEditor.pressAll (ed : LineEditor) : List Key → LineEditor × List (List UInt8)
  | [] => (ed, [])
  | key :: keys =>
    let rest := (ed.press key).pressAll keys
    (rest.1, ed.submits key ++ rest.2)

/-- One interrupt a scancode, each with the output buffer full. -/
def interrupts (codes : List UInt8) : List (UInt8 × UInt8) := codes.map fun code => (1, code)

deriving instance DecidableEq for Modifiers

/-! ## Scancodes, keys, lines -/

section Sequences

variable (m : Modifiers) (ed : LineEditor)

theorem decodeKeys_append (codes codes' : List UInt8) :
    m.decodeKeys (codes ++ codes') =
      (((m.decodeKeys codes).1.decodeKeys codes').1,
        (m.decodeKeys codes).2 ++ ((m.decodeKeys codes).1.decodeKeys codes').2) := by
  induction codes generalizing m with
  | nil => rfl
  | cons code codes ih =>
    rw [List.cons_append, Modifiers.decodeKeys, ih, Modifiers.decodeKeys, List.append_assoc]

theorem pressAll_append (keys keys' : List Key) :
    ed.pressAll (keys ++ keys') =
      (((ed.pressAll keys).1.pressAll keys').1,
        (ed.pressAll keys).2 ++ ((ed.pressAll keys).1.pressAll keys').2) := by
  induction keys generalizing ed with
  | nil => rfl
  | cons key keys ih =>
    rw [List.cons_append, LineEditor.pressAll, ih, LineEditor.pressAll, List.append_assoc]

/-- The editor under interrupts is the editor under the keys they decode to. -/
theorem editorRun_interrupts (codes : List UInt8) :
    editorRun m ed (interrupts codes) =
      (((m.decodeKeys codes).1, (ed.pressAll (m.decodeKeys codes).2).1),
        (ed.pressAll (m.decodeKeys codes).2).2) := by
  induction codes generalizing m ed with
  | nil => rfl
  | cons code codes ih =>
    have full : ¬(1 : UInt8) &&& 0x01 = 0 := by decide
    unfold interrupts at ih ⊢
    rw [List.map_cons, editorRun, if_neg full]
    dsimp only
    rw [ih, Modifiers.decodeKeys, pressAll_append]
    cases (m.decode code).2 with
    | none => rfl
    | some key =>
      simp only [Option.elim_some, Option.toList_some, LineEditor.pressAll, List.append_nil]

end Sequences

/-! ## Typing -/

/-- The characters from the space to the tilde. -/
def Printable (c : UInt8) : Prop := 32 ≤ c ∧ c ≤ 126

instance (c : UInt8) : Decidable (Printable c) := inferInstanceAs (Decidable (_ ∧ _))

/-- Press and release the key of a character, under the left Shift key if need be. -/
def typeChar (c : UInt8) : List UInt8 :=
  match keyboardMap.idxOf? c with
  | some key => [UInt8.ofNat key, UInt8.ofNat key ||| 0x80]
  | none =>
    match keyboardMapShift.idxOf? c with
    | some key => [0x2A, UInt8.ofNat key, UInt8.ofNat key ||| 0x80, 0xAA]
    | none => []

def typeText (text : List UInt8) : List UInt8 := text.flatMap typeChar

/-- Release what may be held, behind a prefix that may be pending, and rub out a line of
any length. -/
def clearLine : List UInt8 := [0xAA, 0x9D, 0xAA] ++ List.replicate lineMax 0x0E

/-- Both maps together have all the printable characters. -/
theorem decodeKeys_typeChar (c : UInt8) (printable : Printable c) :
    Modifiers.released.decodeKeys (typeChar c) = (.released, [.char c]) := by
  have all : ∀ n < 256, Printable (UInt8.ofNat n) →
      Modifiers.released.decodeKeys (typeChar (UInt8.ofNat n)) =
        (.released, [.char (UInt8.ofNat n)]) := by
    decide +kernel
  have this := all c.toNat c.toNat_lt
  rw [UInt8.ofNat_toNat] at this
  exact this printable

theorem decodeKeys_typeText {text : List UInt8} (printable : ∀ c ∈ text, Printable c) :
    Modifiers.released.decodeKeys (typeText text) = (.released, text.map .char) := by
  induction text with
  | nil => rfl
  | cons c text ih =>
    have rest := ih fun d member => printable d (List.mem_cons_of_mem c member)
    unfold typeText at rest ⊢
    rw [List.flatMap_cons, decodeKeys_append,
      decodeKeys_typeChar c (printable c List.mem_cons_self),
      rest]
    rfl

/-- Typed characters stand behind the line, as long as there is room. -/
theorem pressAll_chars (ed : LineEditor) {text : List UInt8}
    (room : ed.line.length + text.length ≤ lineMax) :
    ed.pressAll (text.map .char) = ({ ed with line := ed.line ++ text }, []) := by
  induction text generalizing ed with
  | nil => rw [List.append_nil]; rfl
  | cons c text ih =>
    rw [List.length_cons] at room
    have pressed : ed.press (.char c) = { ed with line := ed.line ++ [c] } :=
      if_pos (by omega : ed.line.length < lineMax)
    rw [List.map_cons, LineEditor.pressAll, pressed, ih]
    · rw [List.append_assoc]
      rfl
    · rw [List.length_append, List.length_singleton]
      omega

/-- Backspaces take away the end of the line. -/
theorem pressAll_backspaces (ed : LineEditor) (n : Nat) :
    ed.pressAll (List.replicate n .backspace) =
      ({ ed with line := ed.line.take (ed.line.length - n) }, []) := by
  induction n generalizing ed with
  | zero => rw [Nat.sub_zero, List.take_length]; rfl
  | succ n ih =>
    rw [List.replicate_succ, LineEditor.pressAll, ih]
    have cut : ed.line.dropLast.take (ed.line.dropLast.length - n) =
        ed.line.take (ed.line.length - (n + 1)) := by
      rw [List.dropLast_eq_take, List.take_take, List.length_take]
      congr 1
      omega
    exact Prod.ext (LineEditor.ext cut rfl rfl) rfl

theorem decodeKeys_backspaces (n : Nat) :
    Modifiers.released.decodeKeys (List.replicate n 0x0E) =
      (.released, List.replicate n .backspace) := by
  induction n with
  | zero => rfl
  | succ n ih =>
    rw [List.replicate_succ, Modifiers.decodeKeys]
    have key : Modifiers.released.decode 0x0E = (.released, some .backspace) := by decide +kernel
    rw [key, ih]
    rfl

/-- Whatever is held, the clearing keys decode to backspaces. -/
theorem decodeKeys_clearLine (m : Modifiers) :
    m.decodeKeys clearLine = (.released, List.replicate lineMax .backspace) := by
  have release : m.decodeKeys [0xAA, 0x9D, 0xAA] = (.released, []) := by
    obtain ⟨e0, ctrl, shift⟩ := m
    cases e0 <;> cases ctrl <;> cases shift <;> rfl
  unfold clearLine
  rw [decodeKeys_append, release, decodeKeys_backspaces]
  rfl

/-- What the keys of a line do in the editor. -/
theorem pressAll_line (ed : LineEditor) (short : ed.line.length ≤ lineMax) {text : List UInt8}
    (fits : text.length ≤ lineMax) :
    ed.pressAll (List.replicate lineMax .backspace ++ text.map .char ++ [.enter]) =
      (({ ed with line := text } : LineEditor).press .enter, [text]) := by
  have cleared : ed.line.take (ed.line.length - lineMax) = [] := by
    rw [Nat.sub_eq_zero_of_le short, List.take_zero]
  have typed : ({ ed with line := [] } : LineEditor).pressAll (text.map .char) =
      ({ ed with line := text }, []) := by
    rw [pressAll_chars, List.nil_append]
    rwa [List.length_nil, Nat.zero_add]
  rw [pressAll_append, pressAll_append, pressAll_backspaces, cleared, typed]
  rfl

/-- What the keys of a line decode to. -/
theorem decodeKeys_line (m : Modifiers) {text : List UInt8} (printable : ∀ c ∈ text, Printable c) :
    m.decodeKeys (clearLine ++ typeText text ++ [0x1C]) =
      (.released, List.replicate lineMax .backspace ++ text.map .char ++ [.enter]) := by
  have enter : Modifiers.released.decodeKeys [0x1C] = (.released, [.enter]) := by decide +kernel
  have line : m.decodeKeys (clearLine ++ typeText text) =
      (.released, List.replicate lineMax .backspace ++ text.map .char) := by
    rw [decodeKeys_append, decodeKeys_clearLine]
    dsimp only
    rw [decodeKeys_typeText printable]
  rw [decodeKeys_append, line]
  dsimp only
  rw [enter]

/-- The handler under the scancodes of a sequence of keys. -/
theorem Represents.keys {kb : Keyboard} {m m' : Modifiers} {ed : LineEditor}
    (rep : Represents kb m ed) {codes : List UInt8} {keys : List Key}
    (decoded : m.decodeKeys codes = (m', keys)) :
    ∃ kb' effects', keyboardRun kb (interrupts codes) = some (kb', effects') ∧
      Represents kb' m' (ed.pressAll keys).1 ∧ executed effects' = (ed.pressAll keys).2 := by
  obtain ⟨kb', effects', ran, rep', submitted⟩ := rep.run (interrupts codes)
  rw [editorRun_interrupts, decoded] at rep' submitted
  exact ⟨kb', effects', ran, rep', submitted⟩

/-- From every state of the editor the keys of a line execute it. -/
theorem Represents.typeLine {kb : Keyboard} {m : Modifiers} {ed : LineEditor}
    (rep : Represents kb m ed) {text : List UInt8} (printable : ∀ c ∈ text, Printable c)
    (fits : text.length ≤ lineMax) :
    ∃ kb' effects', keyboardRun kb (interrupts (clearLine ++ typeText text ++ [0x1C])) =
        some (kb', effects') ∧ executed effects' = [text] ∧ kb'.cmdLen = 0 := by
  obtain ⟨kb', effects', ran, rep', submitted⟩ := rep.keys (decodeKeys_line m printable)
  rw [pressAll_line ed rep.short fits] at rep' submitted
  have empty : kb'.cmdLen = 0 := rep'.len
  exact ⟨kb', effects', ran, submitted, empty⟩

/-- **Typing.**  Whatever was typed before, the keys that clear the line, those of a
printable text that fits the buffer, and Enter execute exactly that text, once, and leave
an empty line. -/
theorem every_line_typable (before : List (UInt8 × UInt8)) (text : List UInt8)
    (printable : ∀ c ∈ text, Printable c) (fits : text.length ≤ lineMax) :
    ∃ kb effects, keyboardRun keyboardBoot before = some (kb, effects) ∧
      ∃ kb' effects', keyboardRun kb (interrupts (clearLine ++ typeText text ++ [0x1C])) =
          some (kb', effects') ∧
        executed effects' = [text] ∧ kb'.cmdLen = 0 := by
  obtain ⟨kb, effects, ran, rep, -⟩ := represents_boot.run before
  exact ⟨kb, effects, ran, rep.typeLine printable fits⟩

/-- With a shift held and a letter on the line before. -/
theorem every_line_typable_ls :
    ∃ kb effects, keyboardRun keyboardBoot (interrupts [0x2A, 0x1E]) = some (kb, effects) ∧
      ∃ kb' effects', keyboardRun kb (interrupts (clearLine ++ typeText (ascii "ls") ++ [0x1C])) =
          some (kb', effects') ∧
        executed effects' = [ascii "ls"] ∧ kb'.cmdLen = 0 :=
  every_line_typable _ _ (by decide +kernel) (by decide +kernel)

end MOKernel
