import MOKernel.FsFresh
import MOKernel.Shell

/-!
# touch, write and cat from the shell

The filesystem keeps 16 characters of a name, the shell's `write` cuts its name after 15.
A name of 16 characters is created and read whole, but written under its first 15
characters, with the last one in front of the content; `write_reaches_iff` says when the
three commands nevertheless end as they should.
-/

namespace MOKernel

def touchLine (name : CStr) : List UInt8 := ascii "touch " ++ name.chars

def writeLine (name content : CStr) : List UInt8 :=
  ascii "write " ++ name.chars ++ ascii " " ++ content.chars

def catLine (name : CStr) : List UInt8 := ascii "cat " ++ name.chars

/-- A name that can be typed and that no child of the working directory has. -/
structure NewName (st : FsState) (name : CStr) : Prop where
  nonempty : name.chars ≠ []
  short : name.chars.length ≤ fsMaxNameLen
  spaceFree : (32 : UInt8) ∉ name.chars
  fresh : ∀ i, ¬FsNamed st (some st.cwd) name.chars i

/-- A content that can be typed after a name. -/
structure TypedContent (content : CStr) : Prop where
  nonempty : content.chars ≠ []
  start : charAt content.chars ≠ 32

/-- `touch NAME`, `write NAME CONTENT` and `cat NAME`, whatever the buffer holds behind
the three lines: the last prints the content, and the second changes no file but the one
the first created. -/
def WriteReaches (st : FsState) (name content : CStr) : Prop :=
  ∀ tail₁ tail₂ tail₃ : List UInt8,
    let st₁ := shellExec st (executeCommand (touchLine name ++ 0 :: tail₁))
    let st₂ := shellExec st₁ (executeCommand (writeLine name content ++ 0 :: tail₂))
    shellOut st₂ (executeCommand (catLine name ++ 0 :: tail₃)) =
        some (content.chars ++ ascii "\n") ∧
      ∀ i, fsAlloc st ≠ some i → (st₁.table i).type = .file →
        (st₂.table i).body = (st₁.table i).body

/-! ## The calls of the three lines -/

section Lines

variable {st : FsState} {name content : CStr}

theorem NewName.plain (new : NewName st name) : Plain name.chars := by
  intro c member
  constructor <;> rintro rfl
  · exact name.nulFree member
  · exact new.spaceFree member

theorem NewName.start (new : NewName st name) : charAt name.chars ≠ 32 :=
  (new.plain.charAt_ne new.nonempty).2

theorem touchLine_calls (new : NewName st name) (tail : List UInt8) :
    executeCommand (touchLine name ++ 0 :: tail) = [.fs (.createFile name)] := by
  rw [touchLine, List.append_assoc, executeCommand_touch,
    nameCommand_name _ _ new.nonempty new.start]

theorem catLine_calls (new : NewName st name) (tail : List UInt8) :
    executeCommand (catLine name ++ 0 :: tail) = [.fs (.readFile name)] := by
  rw [catLine, List.append_assoc, executeCommand_cat,
    nameCommand_name _ _ new.nonempty new.start]

/-- What `write` takes for the content: what its buffer cut off the name stands in front. -/
def writtenText (name content : CStr) : CStr :=
  if name.chars.length ≤ 15 then content
  else ⟨name.chars.drop 15 ++ 32 :: content.chars, by
    have cut : (0 : UInt8) ∉ name.chars.drop 15 := fun member =>
      name.nulFree (List.mem_of_mem_drop member)
    simp [cut, content.nulFree]⟩

theorem writtenText_nonempty (typed : TypedContent content) :
    (writtenText name content).chars ≠ [] := by
  rw [writtenText]
  split
  · exact typed.nonempty
  · simp

/-- The line after the cut, from the first character that is no space. -/
theorem skipSpaces_cut (new : NewName st name) (typed : TypedContent content)
    (tail : List UInt8) :
    skipSpaces (name.chars.drop 15 ++ 32 :: (content.chars ++ 0 :: tail)) =
      (writtenText name content).chars ++ 0 :: tail := by
  rcases Nat.lt_or_ge 15 name.chars.length with long | short
  · have leftover : name.chars.drop 15 ≠ [] := by simpa using long
    have start := charAt_append leftover (32 :: (content.chars ++ 0 :: tail))
    rw [skipSpaces_eq_self, writtenText, if_neg (Nat.not_le.mpr long)]
    · simp
    · rw [start]
      exact ((new.plain.drop 15).charAt_ne leftover).2
  · rw [List.drop_of_length_le short, List.nil_append, skipSpaces_space, writtenText,
      if_pos short]
    rw [charAt_append typed.nonempty]
    exact typed.start

theorem writeLine_calls (new : NewName st name) (typed : TypedContent content)
    (tail : List UInt8) : executeCommand (writeLine name content ++ 0 :: tail) =
      [.fs (.writeFile (name.take 15) (writtenText name content))] := by
  have space : ascii " " = [32] := rfl
  have line : writeLine name content ++ 0 :: tail =
      ascii "write " ++ (name.chars ++ 32 :: (content.chars ++ 0 :: tail)) := by
    simp [writeLine, space]
  have first := charAt_append new.nonempty (32 :: (content.chars ++ 0 :: tail))
  have cut : cutToken 15 (name.chars ++ 32 :: (content.chars ++ 0 :: tail)) =
      (name.chars.take 15, name.chars.drop 15 ++ 32 :: (content.chars ++ 0 :: tail)) :=
    cutToken_append new.plain (.inr rfl) 15
  -- the buffer gets a nonempty name without NUL
  have token : Plain (name.chars.take 15) := new.plain.take 15
  have tokenNonempty : name.chars.take 15 ≠ [] := by simp [new.nonempty]
  have named : charAt (name.chars.take 15) ≠ 0 := (token.charAt_ne tokenNonempty).1
  have filename : CStr.at (name.chars.take 15) = name.take 15 :=
    CStr.ext (cstr_eq_self token.nulFree)
  have dataStart : charAt ((writtenText name content).chars ++ 0 :: tail) ≠ 0 := by
    have nonempty : (writtenText name content).chars ≠ [] := writtenText_nonempty typed
    rw [charAt_append nonempty]
    intro zero
    exact (writtenText name content).nulFree (zero ▸ charAt_mem nonempty)
  rw [line, executeCommand_write, writeCommand, skipSpaces_eq_self (by rw [first]; exact new.start),
    cut]
  simp only [skipSpaces_cut new typed tail, named, dataStart, ne_eq, not_false_eq_true, and_self,
    if_true, filename, CStr.at_append_nul]

end Lines

/-! ## The filesystem after touch -/

section Touched

variable {st : FsState} {name : CStr} {slot : FsIdx}

theorem createFile_placed (nonempty : name.chars ≠ [])
    (fresh : ∀ i, ¬FsNamed st (some st.cwd) name.chars i) (free : fsAlloc st = some slot) :
    (FsOp.createFile name).run st = fsPlace st slot .file name := by
  have unused : fsFindIn st name (some st.cwd) = none := fsFindIn_eq_none_iff.mpr fresh
  rw [FsOp.run, fsCreateFile_of_nonempty nonempty]
  rcases fsAdd_cases st name .file "touch: '" "touch: filesystem full\n" with
    ⟨-, -, full⟩ | ⟨slot', -, free', placed⟩
  · rw [full unused] at free
    cases free
  · obtain rfl : slot = slot' := Option.some.inj (free.symm.trans free')
    rw [placed]

/-- The new name resolves to the new file. -/
theorem fsChild_place_self (vacant : (st.table slot).type = .none)
    (short : name.chars.length ≤ fsMaxNameLen)
    (fresh : ∀ i, ¬FsNamed st (some st.cwd) name.chars i) :
    fsChild (fsPlace st slot .file name) name .file = some slot :=
  fsChild_eq_some_iff.mpr
    ⟨fsFindIn_place_self vacant (by decide) short fresh, fsPlace_type _ _ _ _⟩

/-- Every other name resolves as before. -/
theorem fsChild_place_other (vacant : (st.table slot).type = .none) {other : CStr}
    (ne : name.chars.take fsMaxNameLen ≠ other.chars) :
    fsChild (fsPlace st slot .file name) other .file = fsChild st other .file := by
  have same (i : FsIdx) : FsNamed (fsPlace st slot .file name) (some st.cwd) other.chars i ↔
      FsNamed st (some st.cwd) other.chars i := by
    rw [fsNamed_place_iff vacant (by decide)]
    exact or_iff_left fun new => ne new.2
  ext i
  rw [fsChild_eq_some_iff, fsChild_eq_some_iff,
    fsFindIn_eq_some_iff, fsFindIn_eq_some_iff, fsPlace_cwd]
  simp only [same]
  refine and_congr_right fun found => ?_
  have old : i ≠ slot := by
    rintro rfl
    exact found.1.1 vacant
  rw [fsPlace_of_ne st .file name old]

/-- A write does not change what a name resolves to. -/
theorem fsChild_fill (st : FsState) (idx : FsIdx) (data other : CStr) (type : FsType) :
    fsChild (fsFill st idx data) other type = fsChild st other type := by
  ext i
  rw [fsChild_eq_some_iff, fsChild_eq_some_iff,
    fsFindIn_eq_some_iff, fsFindIn_eq_some_iff]
  simp [FsNamed]

/-- cat of a name that resolves to a file. -/
theorem readFile_out {idx : FsIdx} (child : fsChild st name .file = some idx) :
    (FsOp.readFile name).out st = some ((st.table idx).body ++ ascii "\n") := by
  rw [FsOp.out, fsReadFile_of_child child]

end Touched

/-! ## When the content arrives -/

section Write

variable {st : FsState} {name content : CStr} {slot : FsIdx}

/-- The text `write` stores fits the content array when the line fits the line buffer. -/
theorem writtenText_fits (line : (writeLine name content).length ≤ 255) :
    (writtenText name content).chars.take (fsMaxFileSize - 1) =
      (writtenText name content).chars := by
  have length : 7 + name.chars.length + content.chars.length ≤ 255 := by
    simp only [writeLine, ascii, List.length_append, List.length_map] at line
    simp at line
    omega
  apply List.take_of_length_le
  change _ ≤ 255
  rw [writtenText]
  split
  · omega
  · simp only [List.length_append, List.length_drop, List.length_cons]
    omega

/-- The three lines as three calls of the filesystem. -/
theorem writeReaches_iff_calls (new : NewName st name) (typed : TypedContent content)
    (free : fsAlloc st = some slot) :
    WriteReaches st name content ↔
      (FsOp.readFile name).out ((FsOp.writeFile (name.take 15) (writtenText name content)).run
          (fsPlace st slot .file name)) = some (content.chars ++ ascii "\n") ∧
        ∀ i ≠ slot, ((fsPlace st slot .file name).table i).type = .file →
          (((FsOp.writeFile (name.take 15) (writtenText name content)).run
            (fsPlace st slot .file name)).table i).body =
            ((fsPlace st slot .file name).table i).body := by
  have others (i : FsIdx) : fsAlloc st ≠ some i ↔ i ≠ slot := by
    rw [free, ne_eq, Option.some.injEq, eq_comm]
  simp only [WriteReaches, touchLine_calls new, writeLine_calls new typed, catLine_calls new,
    shellExec_fs, shellOut_fs, createFile_placed new.nonempty new.fresh free, others]
  exact ⟨fun reaches => reaches [] [] [], fun reaches _ _ _ => reaches⟩

/-- A name of at most 15 characters is cut nowhere. -/
theorem writeReaches_of_short (new : NewName st name) (typed : TypedContent content)
    (free : fsAlloc st = some slot) (line : (writeLine name content).length ≤ 255)
    (short : name.chars.length ≤ 15) : WriteReaches st name content := by
  have vacant := fsAlloc_free free
  have child := fsChild_place_self vacant new.short new.fresh
  have fits := writtenText_fits line
  have text : writtenText name content = content := if_pos short
  rw [text] at fits
  rw [writeReaches_iff_calls new typed free, text, CStr.take_of_length_le short, FsOp.run,
    fsWriteFile_of_child child]
  refine ⟨?_, fun i ne _ => by rw [fsFill_of_ne _ _ ne]⟩
  rw [readFile_out ((fsChild_fill _ _ _ _ _).trans child), fsFill_body, fits]

/-- A name of 16 characters is written under its first 15. -/
theorem writeReaches_of_long (new : NewName st name) (typed : TypedContent content)
    (free : fsAlloc st = some slot) (line : (writeLine name content).length ≤ 255)
    (long : 15 < name.chars.length) :
    WriteReaches st name content ↔ (st.table slot).body = content.chars ∧
      ∀ i, fsChild st (name.take 15) .file = some i →
        (st.table i).body = (writtenText name content).chars := by
  have vacant := fsAlloc_free free
  have child := fsChild_place_self vacant new.short new.fresh
  have differs : name.chars.take fsMaxNameLen ≠ (name.take 15).chars := by
    intro same
    have lengths := congrArg List.length same
    simp only [CStr.take_chars, List.length_take, fsMaxNameLen] at lengths
    omega
  have other := fsChild_place_other vacant differs
  have printed (text : List UInt8) :
      some (text ++ ascii "\n") = some (content.chars ++ ascii "\n") ↔ text = content.chars := by
    rw [Option.some.injEq, List.append_left_inj]
  rw [writeReaches_iff_calls new typed free, FsOp.run]
  rcases fsWriteFile_cases (fsPlace st slot .file name) (name.take 15) (writtenText name content)
    with ⟨absent, failed⟩ | ⟨idx, found, filled⟩
  · rw [other] at absent
    rw [failed, readFile_out child, fsPlace_body, printed, absent]
    simp
  · rw [other] at found
    have old : idx ≠ slot := by
      rintro rfl
      exact (named_of_fsChild found).1.1 vacant
    have file : ((fsPlace st slot .file name).table idx).type = .file := by
      rw [fsPlace_of_ne _ _ _ old]
      exact (named_of_fsChild found).2
    rw [filled, readFile_out ((fsChild_fill _ _ _ _ _).trans child),
      fsFill_of_ne _ _ old.symm, fsPlace_body, printed, found]
    refine and_congr_right fun _ => ⟨fun same i here => ?_, fun same i ne _ => ?_⟩
    · obtain rfl : idx = i := Option.some.inj here
      have kept := same idx old file
      rwa [fsFill_body, writtenText_fits line, fsPlace_body, eq_comm] at kept
    · rcases eq_or_ne i idx with rfl | elsewhere
      · rw [fsFill_body, writtenText_fits line, fsPlace_body, same i rfl]
      · rw [fsFill_of_ne _ _ elsewhere]

end Write

/-- **Write addresses the file touch created** exactly for names of at most 15
characters, and for the names of 16 for which the wrong writes change nothing: the new
file's slot still holds the content, and the file named by the first 15 characters, if
there is one, already holds what is written to it. -/
theorem write_reaches_iff (st : FsState) (name content : CStr) (room : fsAlloc st ≠ none)
    (new : NewName st name) (typed : TypedContent content)
    (line : (writeLine name content).length ≤ 255) :
    WriteReaches st name content ↔
      name.chars.length ≤ 15 ∨
        (∀ slot, fsAlloc st = some slot → (st.table slot).body = content.chars) ∧
          ∀ i, fsChild st (name.take 15) .file = some i →
            (st.table i).body = name.chars.drop 15 ++ ascii " " ++ content.chars := by
  obtain ⟨slot, free⟩ := Option.ne_none_iff_exists'.mp room
  rcases Nat.lt_or_ge 15 name.chars.length with long | short
  · have text : (writtenText name content).chars =
        name.chars.drop 15 ++ ascii " " ++ content.chars := by
      rw [writtenText, if_neg (Nat.not_le.mpr long)]
      simp [ascii]
    rw [writeReaches_of_long new typed free line long, or_iff_right (Nat.not_le.mpr long), free,
      text]
    simp
  · exact iff_of_true (writeReaches_of_short new typed free line short) (.inl short)

def helloContent : CStr := ⟨ascii "hello", by decide⟩

/-- No entry of the fresh filesystem is below the root. -/
theorem newName_fsInit {name : CStr} (nonempty : name.chars ≠ [])
    (short : name.chars.length ≤ fsMaxNameLen) (spaceFree : (32 : UInt8) ∉ name.chars) :
    NewName fsInit name := by
  refine ⟨nonempty, short, spaceFree, fun i named => ?_⟩
  cases named.2.1

theorem write_reaches_note : WriteReaches fsInit noteName helloContent :=
  (write_reaches_iff fsInit noteName helloContent (by decide +kernel)
    (newName_fsInit (by decide) (by decide) (by decide)) ⟨by decide, by decide⟩
    (by decide)).mpr (.inl (by decide))

/-- A name of 16 characters. -/
def fullName : CStr := ⟨ascii "abcdefghijklmnop", by decide⟩

/-- The written text does not arrive: no file is named by the first 15 characters, and
cat prints an empty file. -/
theorem write_misses :
    fsAlloc (fsRun fsInit []) ≠ none ∧ NewName (fsRun fsInit []) fullName ∧
      TypedContent helloContent ∧ (writeLine fullName helloContent).length ≤ 255 ∧
      ¬WriteReaches (fsRun fsInit []) fullName helloContent := by
  refine ⟨by decide +kernel, newName_fsInit (by decide) (by decide) (by decide),
    ⟨by decide, by decide⟩, by decide, fun reaches => ?_⟩
  have printed := (reaches [] [] []).1
  exact absurd printed (by decide +kernel)

end MOKernel
