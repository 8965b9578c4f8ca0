import MOKernel.FsRefines
import MOKernel.Shell
import MOKernel.Typing

/-!
# From the keyboard to the filesystem

One machine of the keyboard handler, the shell and the filesystem: an interrupt edits the
line or submits it, `execute_command` takes the submitted line apart and calls `fs.c`.  Any
sequence of scancodes is the run of the calls in the lines the editor submits, so it
refines the hierarchical store (`session_refines`); and in every state the six commands
that take just a name can be typed (`typed_command`).
-/

namespace MOKernel

/-- The calls into `fs.c` among the calls of a line. -/
def fsOps (calls : List ShellCall) : List FsOp :=
  calls.filterMap fun
    | .fs op => some op
    | _ => none

/-- The calls into `fs.c` that submitted lines make. -/
def linesOps (lines : List (List UInt8)) : List FsOp :=
  lines.flatMap fun line => fsOps (executeCommand line)

/-- Keyboard, shell and filesystem. -/
structure Terminal where
  keyboard : Keyboard
  fs : FsState

namespace Terminal

def boot : Terminal := ⟨keyboardBoot, fsInit⟩

/-- A keyboard interrupt, and the calls into `fs.c` it makes with their answers. -/
def interrupt (t : Terminal) (status keycode : UInt8) :
    Option (Terminal × List (FsOp × FsReply)) :=
  (keyboardHandlerMain t.keyboard status keycode).map fun handled =>
    let fs := shellExec t.fs ((executed handled.2).flatMap executeCommand)
    (⟨handled.1, fs⟩, transcript FsOp.run FsOp.reply t.fs (linesOps (executed handled.2)))

def run (t : Terminal) : List (UInt8 × UInt8) → Option (Terminal × List (FsOp × FsReply))
  | [] => some (t, [])
  | (status, keycode) :: events => do
    let (t, answers) ← t.interrupt status keycode
    let (t, rest) ← t.run events
    pure (t, answers ++ rest)

end Terminal

/-! ## The calls of a line -/

theorem shellExec_eq (st : FsState) (calls : List ShellCall) :
    shellExec st calls = fsRun st (fsOps calls) := by
  induction calls generalizing st with
  | nil => rfl
  | cons call calls ih => cases call <;> exact ih _

theorem fsOps_append (calls calls' : List ShellCall) :
    fsOps (calls ++ calls') = fsOps calls ++ fsOps calls' :=
  List.filterMap_append

theorem fsOps_flatMap (lines : List (List UInt8)) :
    fsOps (lines.flatMap executeCommand) = linesOps lines := by
  induction lines with
  | nil => rfl
  | cons line lines ih => rw [List.flatMap_cons, fsOps_append, ih]; rfl

theorem linesOps_append (lines lines' : List (List UInt8)) :
    linesOps (lines ++ lines') = linesOps lines ++ linesOps lines' :=
  List.flatMap_append

namespace Terminal

/-- **Run.**  The terminal does what the keyboard does, and in the filesystem what the
executed lines say. -/
theorem run_eq (t : Terminal) (events : List (UInt8 × UInt8)) :
    t.run events = (keyboardRun t.keyboard events).map fun handled =>
      (⟨handled.1, fsRun t.fs (linesOps (executed handled.2))⟩,
        transcript FsOp.run FsOp.reply t.fs (linesOps (executed handled.2))) := by
  induction events generalizing t with
  | nil => rfl
  | cons event events ih =>
    obtain ⟨status, keycode⟩ := event
    rw [run, keyboardRun, interrupt]
    cases keyboardHandlerMain t.keyboard status keycode with
    | none => rfl
    | some handled =>
      obtain ⟨kb, effects⟩ := handled
      simp only [Option.map_some, Option.bind_eq_bind, Option.bind_some, ih, shellExec_eq,
        fsOps_flatMap]
      cases keyboardRun kb events with
      | none => rfl
      | some rest =>
        obtain ⟨kb', effects'⟩ := rest
        simp only [Option.map_some, Option.bind_some, executed_append, linesOps_append,
          fsRun_append, transcript_append, Option.pure_def]
        rfl

end Terminal

/-- The calls into `fs.c` in the lines that scancodes submit. -/
def sessionOps (events : List (UInt8 × UInt8)) : List FsOp :=
  linesOps (editorRun .released .start events).2

/-- **Session.**  For every sequence of keyboard interrupts the terminal leaves no array,
its filesystem is a tree, and its calls into `fs.c` are those of the lines the editor
submits.  If none of them cuts a name onto a sibling's, their answers are a transcript of
the hierarchical store. -/
theorem session_refines (events : List (UInt8 × UInt8)) :
    ∃ t answers, Terminal.boot.run events = some (t, answers) ∧
      answers = transcript FsOp.run FsOp.reply fsInit (sessionOps events) ∧
      t.fs = fsRun fsInit (sessionOps events) ∧ FsTree t.fs ∧
      ((∀ (k : Nat) (op : FsOp), (sessionOps events)[k]? = some op →
          op.ClashFree (fsRun fsInit ((sessionOps events).take k))) →
        ∃ h, Served FsServes .empty answers h ∧ FsAbstracts t.fs h) := by
  obtain ⟨kb, effects, ran, -, submitted⟩ := represents_boot.run events
  have ops : linesOps (executed effects) = sessionOps events := by
    rw [submitted]
    rfl
  refine ⟨⟨kb, fsRun fsInit (sessionOps events)⟩, _, ?_, rfl, rfl, fsTree_fsRun _,
    fun clashFree => ?_⟩
  · have boot : keyboardRun Terminal.boot.keyboard events = some (kb, effects) := ran
    rw [Terminal.run_eq, boot, Option.map_some, ops]
    rfl
  · exact Served.of_simulation (C := fun st op => op.ClashFree st)
      (fun abs clashFree => abs.serves clashFree) fsAbstracts_fsInit _ clashFree

/-! ## Typed commands -/

/-- The commands that take just a name: the word, the usage line and the call they make. -/
def nameWords : List (String × String × (CStr → FsOp)) :=
  [("mkdir ", "Usage: mkdir <name>\n", .mkdir), ("cd ", "Usage: cd <name>\n", .cd),
    ("rm ", "Usage: rm <name>\n", .rm), ("rmdir ", "Usage: rmdir <name>\n", .rmdir),
    ("touch ", "Usage: touch <filename>\n", .createFile),
    ("cat ", "Usage: cat <filename>\n", .readFile)]

theorem executeCommand_nameWord {word usage : String} {call : CStr → FsOp}
    (known : (word, usage, call) ∈ nameWords) (rest : List UInt8) :
    executeCommand (ascii word ++ rest) = nameCommand call usage rest := by
  simp only [nameWords, List.mem_cons, Prod.mk.injEq, List.not_mem_nil, or_false] at known
  rcases known with ⟨rfl, rfl, rfl⟩ | ⟨rfl, rfl, rfl⟩ | ⟨rfl, rfl, rfl⟩ | ⟨rfl, rfl, rfl⟩ |
    ⟨rfl, rfl, rfl⟩ | ⟨rfl, rfl, rfl⟩ <;>
  simp [executeCommand, skipSpaces, charAt, strcmp, strncmp, ascii]

theorem printable_nameWord : ∀ entry ∈ nameWords, ∀ c ∈ ascii entry.1, Printable c := by
  decide +kernel

/-- A line with a name makes one call, with that name. -/
theorem lineOps_name {word usage : String} {call : CStr → FsOp}
    (known : (word, usage, call) ∈ nameWords) {name : CStr}
    (nonempty : name.chars ≠ []) (start : charAt name.chars ≠ 32) :
    linesOps [ascii word ++ name.chars] = [call name] := by
  have notNul : charAt name.chars ≠ 0 := fun zero => name.nulFree (zero ▸ charAt_mem nonempty)
  have whole : CStr.at name.chars = name := CStr.ext name.cstr_chars
  have called : nameCommand call usage name.chars = [.fs (call name)] := by
    rw [nameCommand, skipSpaces_eq_self start, if_pos notNul, whole]
  unfold linesOps
  rw [List.flatMap_singleton, executeCommand_nameWord known, called]
  rfl

/-- **Typed commands.**  Whatever was typed before, each of the six commands of `nameWords` can
be typed with a printable name that is not empty and does not start with a space, if the
line is no longer than the buffer takes, and makes exactly its call, with the whole name. -/
theorem typed_command {word usage : String} {call : CStr → FsOp}
    (known : (word, usage, call) ∈ nameWords) (before : List (UInt8 × UInt8))
    {name : CStr} (nonempty : name.chars ≠ [])
    (start : charAt name.chars ≠ 32) (printable : ∀ c ∈ name.chars, Printable c)
    (fits : (ascii word ++ name.chars).length ≤ lineMax) :
    ∃ t answers, Terminal.boot.run before = some (t, answers) ∧
      ∃ t', t.run (interrupts (clearLine ++ typeText (ascii word ++ name.chars) ++ [0x1C])) =
          some (t', [(call name, (call name).reply t.fs)]) ∧
        t'.fs = (call name).run t.fs := by
  obtain ⟨kb, effects, ran, rep, -⟩ := represents_boot.run before
  have boot : keyboardRun Terminal.boot.keyboard before = some (kb, effects) := ran
  have typable : ∀ c ∈ ascii word ++ name.chars, Printable c := by
    intro c member
    rcases List.mem_append.mp member with inWord | inName
    · exact printable_nameWord _ known c inWord
    · exact printable c inName
  obtain ⟨kb', effects', typed, executes, -⟩ := rep.typeLine typable fits
  generalize interrupts (clearLine ++ typeText (ascii word ++ name.chars) ++ [0x1C]) = keys
    at typed ⊢
  let st := fsRun fsInit (linesOps (executed effects))
  refine ⟨⟨kb, st⟩, transcript FsOp.run FsOp.reply fsInit (linesOps (executed effects)), ?_,
    ⟨kb', (call name).run st⟩, ?_, rfl⟩
  · rw [Terminal.run_eq, boot, Option.map_some]
    rfl
  · rw [Terminal.run_eq, typed, Option.map_some, executes, lineOps_name known nonempty start]
    rfl

/-- `mkdir a` at boot. -/
theorem typed_command_mkdir :
    ∃ t answers, Terminal.boot.run [] = some (t, answers) ∧
      ∃ t', t.run (interrupts (clearLine ++ typeText (ascii "mkdir " ++ aName.chars) ++ [0x1C])) =
          some (t', [(.mkdir aName, (FsOp.mkdir aName).reply t.fs)]) ∧
        t'.fs = (FsOp.mkdir aName).run t.fs :=
  typed_command (List.mem_cons_self : ("mkdir ", _, _) ∈ nameWords) [] (by decide) (by decide)
    (by decide +kernel) (by decide +kernel)

end MOKernel
