import MOKernel.FsStep

/-!
# Failure atomicity and the frame of a call

A failing call leaves the state as it was.  A succeeding call writes one slot:
the free slot it returns for mkdir and touch, the resolved child of the working
directory for write, rm and rmdir; `fs_cd` writes none.  mkdir and touch of a
fresh admissible name fail exactly on a full table.
-/

namespace MOKernel

/-- The call reports failure: `-1`, or for write the message that names no file. -/
def FsOp.Fails (st : FsState) : FsOp → Prop
  | .mkdir name => (fsMkdir st name).ret = -1
  | .createFile name => (fsCreateFile st name).ret = -1
  | .writeFile name data =>
    (fsWriteFile st name data).out = report "write: '" name "': no such file\n"
  | .cd name => (fsCd st name).ret = -1
  | .rm name => (fsRm st name).ret = -1
  | .rmdir name => (fsRmdir st name).ret = -1
  | .readFile _ | .pwd | .listFiles => False

/-- Only `slot` may differ between the tables, and the working directory is the same. -/
structure OnlySlot (st st' : FsState) (slot : FsIdx) : Prop where
  cwd : st'.cwd = st.cwd
  others : ∀ j, j ≠ slot → st'.table j = st.table j

/-- `idx` is the live child of the working directory that `name` resolves to. -/
def Resolves (st : FsState) (name : CStr) (idx : FsIdx) : Prop :=
  fsFindIn st name (some st.cwd) = some idx ∧ (st.table idx).type ≠ .none ∧
    (st.table idx).parent = some st.cwd

/-- What a succeeding call may write. -/
def FsOp.Frame (st st' : FsState) : FsOp → Prop
  | .cd _ => st'.table = st.table
  | .mkdir name =>
    ∃ slot, (fsMkdir st name).ret = (slot.val : Int) ∧ (st.table slot).type = .none ∧
      OnlySlot st st' slot
  | .createFile name =>
    ∃ slot, (fsCreateFile st name).ret = (slot.val : Int) ∧ (st.table slot).type = .none ∧
      OnlySlot st st' slot
  | .writeFile name _ | .rm name | .rmdir name =>
    ∃ idx, Resolves st name idx ∧ OnlySlot st st' idx
  | .readFile _ | .pwd | .listFiles => st' = st

/-- The names the creating calls accept: mkdir refuses the empty name, `.` and `..`,
touch only the empty name. -/
def FsOp.Admissible : FsOp → Prop
  | .mkdir name => MkdirAdmits name
  | .createFile name => name.chars ≠ []
  | _ => False

/-- No child of the working directory has the name the call would create. -/
def FsOp.Fresh (st : FsState) : FsOp → Prop
  | .mkdir name | .createFile name => ∀ i, ¬ FsNamed st (some st.cwd) name.chars i
  | _ => False

theorem onlySlot_fsPlace (st : FsState) (slot : FsIdx) (type : FsType) (name : CStr) :
    OnlySlot st (fsPlace st slot type name) slot :=
  ⟨rfl, fun _ ne => fsPlace_of_ne st type name ne⟩

theorem onlySlot_fsFill (st : FsState) (idx : FsIdx) (data : CStr) :
    OnlySlot st (fsFill st idx data) idx :=
  ⟨rfl, fun _ ne => fsFill_of_ne st data ne⟩

theorem onlySlot_fsDrop (st : FsState) (idx : FsIdx) : OnlySlot st (fsDrop st idx) idx :=
  ⟨rfl, fun _ ne => fsDrop_of_ne st ne⟩

theorem resolves_of_fsChild {st : FsState} {name : CStr} {type : FsType} {idx : FsIdx}
    (found : fsChild st name type = some idx) : Resolves st name idx :=
  have named := (named_of_fsChild found).1
  ⟨(fsChild_eq_some_iff.mp found).1, named.1, named.2.1⟩

theorem idx_ne_failure (slot : FsIdx) : (slot.val : Int) ≠ -1 := by omega

/-- `write` prints nothing when it succeeds, so its report is never empty. -/
theorem report_ne_nil (name : CStr) : report "write: '" name "': no such file\n" ≠ [] := by
  have long : ascii "write: '" ≠ [] := by decide
  intro empty
  exact long (List.append_eq_nil_iff.mp (List.append_eq_nil_iff.mp empty).1).1

/-- A write whose name resolves to a file succeeds. -/
theorem writeFile_succeeds {st : FsState} {name data : CStr} {idx : FsIdx}
    (child : fsChild st name .file = some idx) : ¬ (FsOp.writeFile name data).Fails st := by
  intro fails
  rw [FsOp.Fails, fsWriteFile_of_child child] at fails
  exact report_ne_nil name fails.symm

/-- A removal whose name resolves to a file succeeds. -/
theorem rm_succeeds {st : FsState} {name : CStr} {idx : FsIdx}
    (child : fsChild st name .file = some idx) : ¬ (FsOp.rm name).Fails st := by
  intro fails
  rw [FsOp.Fails, fsRm_of_child child] at fails
  cases fails

/-! ## The shared part of mkdir and touch -/

section Add

variable {st : FsState} {name : CStr} {type : FsType} {dup full : String}

theorem fsAdd_atomic (fails : (fsAdd st name type dup full).ret = -1) :
    (fsAdd st name type dup full).st = st := by
  rcases fsAdd_cases st name type dup full with ⟨-, same, -⟩ | ⟨slot, -, -, placed⟩
  · exact same
  · rw [placed] at fails
    exact (idx_ne_failure slot fails).elim

theorem fsAdd_frame (succeeds : (fsAdd st name type dup full).ret ≠ -1) :
    ∃ slot : FsIdx, (fsAdd st name type dup full).ret = (slot.val : Int) ∧
      (st.table slot).type = .none ∧ OnlySlot st (fsAdd st name type dup full).st slot := by
  rcases fsAdd_cases st name type dup full with ⟨fails, -, -⟩ | ⟨slot, -, free, placed⟩
  · exact (succeeds fails).elim
  · rw [placed]
    exact ⟨slot, rfl, fsAlloc_free free, onlySlot_fsPlace st slot type name⟩

theorem fsAdd_fails_iff (fresh : ∀ i, ¬ FsNamed st (some st.cwd) name.chars i) :
    (fsAdd st name type dup full).ret = -1 ↔ ∀ i, (st.table i).type ≠ .none := by
  rw [← fsAlloc_eq_none_iff]
  rcases fsAdd_cases st name type dup full with ⟨fails, -, full'⟩ | ⟨slot, -, free, placed⟩
  · exact ⟨fun _ => full' (fsFindIn_eq_none_iff.mpr fresh), fun _ => fails⟩
  · simp [placed, free, idx_ne_failure]

end Add

/-! ## The three parts -/

theorem FsOp.atomic {st : FsState} {op : FsOp} (fails : op.Fails st) : op.run st = st := by
  cases op with
  | mkdir name =>
    by_cases admits : MkdirAdmits name
    · simp only [FsOp.Fails, FsOp.run, fsMkdir_of_admits admits] at fails ⊢
      exact fsAdd_atomic fails
    · exact (fsMkdir_of_not_admits admits st).2
  | createFile name =>
    by_cases empty : name.chars = []
    · exact (fsCreateFile_of_empty empty st).2
    · simp only [FsOp.Fails, FsOp.run, fsCreateFile_of_nonempty empty] at fails ⊢
      exact fsAdd_atomic fails
  | writeFile name data =>
    rcases fsWriteFile_cases st name data with ⟨-, same⟩ | ⟨idx, child, -⟩
    · rw [FsOp.run, same]
    · exact (writeFile_succeeds child fails).elim
  | cd name =>
    rcases fsCd_cases st name with ⟨-, same⟩ | ⟨target, -, moved⟩
    · exact same
    · simp [FsOp.Fails, moved] at fails
  | rm name =>
    rcases fsRm_cases st name with ⟨-, same, -⟩ | ⟨idx, child, -⟩
    · exact same
    · exact (rm_succeeds child fails).elim
  | rmdir name =>
    rcases fsRmdir_cases st name with ⟨-, same⟩ | ⟨idx, -, -, dropped⟩
    · exact same
    · simp [FsOp.Fails, dropped] at fails
  | readFile | pwd | listFiles => exact fails.elim

theorem FsOp.frame {st : FsState} {op : FsOp} (succeeds : ¬ op.Fails st) :
    op.Frame st (op.run st) := by
  cases op with
  | mkdir name =>
    by_cases admits : MkdirAdmits name
    · simp only [FsOp.Fails, FsOp.Frame, FsOp.run, fsMkdir_of_admits admits] at succeeds ⊢
      exact fsAdd_frame succeeds
    · exact (succeeds (fsMkdir_of_not_admits admits st).1).elim
  | createFile name =>
    by_cases empty : name.chars = []
    · exact (succeeds (fsCreateFile_of_empty empty st).1).elim
    · simp only [FsOp.Fails, FsOp.Frame, FsOp.run, fsCreateFile_of_nonempty empty] at succeeds ⊢
      exact fsAdd_frame succeeds
  | writeFile name data =>
    rcases fsWriteFile_cases st name data with ⟨-, same⟩ | ⟨idx, found, filled⟩
    · exact (succeeds (by simp [FsOp.Fails, same])).elim
    · exact ⟨idx, resolves_of_fsChild found, by
        rw [FsOp.run, filled]; exact onlySlot_fsFill st idx data⟩
  | cd name =>
    rcases fsCd_cases st name with ⟨fails, -⟩ | ⟨target, -, moved⟩
    · exact (succeeds fails).elim
    · rw [FsOp.run, moved]; rfl
  | rm name =>
    rcases fsRm_cases st name with ⟨fails, -, -⟩ | ⟨idx, found, dropped⟩
    · exact (succeeds fails).elim
    · exact ⟨idx, resolves_of_fsChild found, by
        rw [FsOp.run, dropped]; exact onlySlot_fsDrop st idx⟩
  | rmdir name =>
    rcases fsRmdir_cases st name with ⟨fails, -⟩ | ⟨idx, found, -, dropped⟩
    · exact (succeeds fails).elim
    · exact ⟨idx, resolves_of_fsChild found, by
        rw [FsOp.run, dropped]; exact onlySlot_fsDrop st idx⟩
  | readFile name => exact fsReadFile_st st name
  | pwd | listFiles => rfl

theorem FsOp.fails_iff_full {st : FsState} {op : FsOp} (admissible : op.Admissible)
    (fresh : op.Fresh st) : op.Fails st ↔ ∀ i, (st.table i).type ≠ .none := by
  cases op with
  | mkdir name =>
    simp only [FsOp.Fails, fsMkdir_of_admits admissible]
    exact fsAdd_fails_iff fresh
  | createFile name =>
    simp only [FsOp.Fails, fsCreateFile_of_nonempty admissible]
    exact fsAdd_fails_iff fresh
  | writeFile | readFile | cd | rm | rmdir | pwd | listFiles => exact admissible.elim

/-- **Error atomicity and frame.**  In every reachable state a failing call changes
nothing, a succeeding call writes only what its frame allows, and an admissible fresh
name is refused exactly when the table is full. -/
theorem fs_atomic_and_framed (ops : List FsOp) (op : FsOp) :
    let st := fsRun fsInit ops
    (op.Fails st → op.run st = st) ∧ (¬ op.Fails st → op.Frame st (op.run st)) ∧
      (op.Admissible → op.Fresh st → (op.Fails st ↔ ∀ i, (st.table i).type ≠ .none)) :=
  ⟨FsOp.atomic, FsOp.frame, FsOp.fails_iff_full⟩

end MOKernel
