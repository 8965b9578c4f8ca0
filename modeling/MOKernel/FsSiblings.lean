import MOKernel.FsStep

/-!
# Sibling names

The duplicate check of mkdir and touch compares the whole argument, while
`fs_strncpy` stores its first 16 characters.  `TruncationClash` is the state
before a call in which the two differ: the argument is too long, its first 16
characters already name a child of the working directory, and a slot is free.
A run keeps sibling names unique exactly as long as no call meets a clash
(`siblings_unique_iff`).
-/

namespace MOKernel

/-- No two live entries of one directory have the same stored name. -/
def SiblingsUnique (st : FsState) : Prop :=
  ∀ i j, (st.table i).type ≠ .none → (st.table j).type ≠ .none →
    (st.table i).parent = (st.table j).parent →
    (st.table i).storedName = (st.table j).storedName → i = j

/-- Every stored name fits the limit, so it is terminated inside its array. -/
def NamesBounded (st : FsState) : Prop :=
  ∀ i, (st.table i).storedName.length ≤ fsMaxNameLen

/-- Creating `name` would store a name that a sibling already has, unnoticed by the
duplicate check. -/
def TruncationClash (st : FsState) (name : CStr) : Prop :=
  fsMaxNameLen < name.chars.length ∧
    fsFindIn st (name.take fsMaxNameLen) (some st.cwd) ≠ none ∧ fsAlloc st ≠ none

/-- A creating call does not meet a clash; no other call can. -/
def FsOp.ClashFree (st : FsState) : FsOp → Prop
  | .mkdir name | .createFile name => ¬ TruncationClash st name
  | _ => True

/-! ## Stored names stay bounded -/

theorem namesBounded_fsInit : NamesBounded fsInit := by
  intro i
  simp [fsInit, FsEntry.storedName, cstr]

theorem NamesBounded.place {st : FsState} (bounded : NamesBounded st) (slot : FsIdx)
    (type : FsType) (name : CStr) : NamesBounded (fsPlace st slot type name) := by
  intro i
  rcases eq_or_ne i slot with rfl | ne
  · rw [fsPlace_storedName]; exact List.length_take_le _ _
  · rw [fsPlace_of_ne st type name ne]; exact bounded i

theorem NamesBounded.drop {st : FsState} (bounded : NamesBounded st) (idx : FsIdx) :
    NamesBounded (fsDrop st idx) := by
  intro i
  rw [fsDrop_storedName]
  exact bounded i

theorem NamesBounded.run {st : FsState} (bounded : NamesBounded st) (op : FsOp) :
    NamesBounded (op.run st) := by
  have step := fsStep_run st op
  generalize op.run st = st' at step
  cases step with
  | idle => exact bounded
  | cd _ => exact bounded
  | mkdir | createFile => exact bounded.place _ _ _
  | writeFile _ => intro i; rw [fsFill_storedName]; exact bounded i
  | rm | rmdir => exact bounded.drop _

/-! ## One step -/

section Step

variable {st : FsState} {slot idx : FsIdx} {name : CStr}

/-- Placing a free slot keeps names unique exactly when no sibling has the stored name. -/
theorem siblingsUnique_place_iff (unique : SiblingsUnique st)
    (free : (st.table slot).type = .none) {type : FsType} (live : type ≠ .none) :
    SiblingsUnique (fsPlace st slot type name) ↔
      fsFindIn st (name.take fsMaxNameLen) (some st.cwd) = none := by
  rw [fsFindIn_eq_none_iff]
  have liveNe {i : FsIdx} (liveI : (st.table i).type ≠ .none) : i ≠ slot := by
    intro same
    subst same
    exact liveI free
  constructor
  · intro unique' i sibling
    rcases sibling with ⟨liveI, child, named⟩
    have ne := liveNe liveI
    exact ne (unique' i slot (by simpa [ne] using liveI) (by simpa using live)
      (by simpa [ne] using child) (by simpa [ne] using named))
  · intro fresh i j liveI liveJ siblings named
    by_cases newI : i = slot <;> by_cases newJ : j = slot
    · rw [newI, newJ]
    · subst newI
      exact (fresh j ⟨by simpa [newJ] using liveJ, by simpa [newJ] using siblings.symm,
        by simpa [newJ] using named.symm⟩).elim
    · subst newJ
      exact (fresh i ⟨by simpa [newI] using liveI, by simpa [newI] using siblings,
        by simpa [newI] using named⟩).elim
    · exact unique i j (by simpa [newI] using liveI) (by simpa [newJ] using liveJ)
        (by simpa [newI, newJ] using siblings) (by simpa [newI, newJ] using named)

theorem SiblingsUnique.fill (unique : SiblingsUnique st) (idx : FsIdx) (data : CStr) :
    SiblingsUnique (fsFill st idx data) := by
  intro i j liveI liveJ siblings named
  exact unique i j (by simpa using liveI) (by simpa using liveJ) (by simpa using siblings)
    (by simpa using named)

theorem SiblingsUnique.drop (unique : SiblingsUnique st) (idx : FsIdx) :
    SiblingsUnique (fsDrop st idx) := by
  have stays {i : FsIdx} (live : ((fsDrop st idx).table i).type ≠ .none) :
      (st.table i).type ≠ .none := by
    rcases eq_or_ne i idx with rfl | ne
    · simp at live
    · simpa [ne] using live
  intro i j liveI liveJ siblings named
  exact unique i j (stays liveI) (stays liveJ) (by simpa using siblings) (by simpa using named)

/-- The duplicate check only succeeds on names short enough to be stored. -/
theorem length_le_of_found (bounded : NamesBounded st) {parentIdx : Option FsIdx}
    (found : fsFindIn st name parentIdx ≠ none) : name.chars.length ≤ fsMaxNameLen := by
  obtain ⟨i, at_i⟩ := Option.ne_none_iff_exists'.mp found
  rw [← (fsFindIn_eq_some_iff.mp at_i).1.2.2]
  exact bounded i

/-- The creating part keeps names unique exactly when it meets no clash. -/
theorem siblingsUnique_fsAdd_iff (unique : SiblingsUnique st) (bounded : NamesBounded st)
    {type : FsType} (live : type ≠ .none) (dup full : String) :
    SiblingsUnique (fsAdd st name type dup full).st ↔ ¬ TruncationClash st name := by
  rcases fsAdd_cases st name type dup full with ⟨-, same, reason⟩ | ⟨slot, fresh, free, placed⟩
  · rw [same]
    refine ⟨fun _ clash => ?_, fun _ => unique⟩
    obtain ⟨long, -, room⟩ := clash
    by_cases found : fsFindIn st name (some st.cwd) = none
    · exact room (reason found)
    · exact absurd (length_le_of_found bounded found) (Nat.not_le.mpr long)
  · rw [placed, siblingsUnique_place_iff unique (fsAlloc_free free) live]
    constructor
    · exact fun absent clash => clash.2.1 absent
    · intro noClash
      by_contra taken
      refine noClash ⟨?_, taken, by simp [free]⟩
      -- a short name is stored whole, and the duplicate check found none
      by_contra short
      rw [CStr.take_of_length_le (Nat.not_lt.mp short)] at taken
      exact taken fresh

theorem not_clash_of_short (short : name.chars.length ≤ fsMaxNameLen) :
    ¬ TruncationClash st name := fun clash => absurd clash.1 (Nat.not_lt.mpr short)

/-- A name `fs_mkdir` refuses is short. -/
theorem length_le_of_not_admits (rejects : ¬ MkdirAdmits name) :
    name.chars.length ≤ fsMaxNameLen := by
  by_contra long
  refine rejects ⟨?_, ?_, ?_⟩ <;> intro special <;> rw [special] at long <;>
    exact long (by decide)

/-- **Step.**  From a unique state a call keeps names unique exactly when it is clash free. -/
theorem siblingsUnique_run_iff (unique : SiblingsUnique st) (bounded : NamesBounded st)
    (op : FsOp) : SiblingsUnique (op.run st) ↔ op.ClashFree st := by
  cases op with
  | mkdir name =>
    by_cases admits : MkdirAdmits name
    · rw [FsOp.run, fsMkdir_of_admits admits]
      exact siblingsUnique_fsAdd_iff unique bounded (by decide) _ _
    · rw [FsOp.run, (fsMkdir_of_not_admits admits st).2]
      exact iff_of_true unique (not_clash_of_short (length_le_of_not_admits admits))
  | createFile name =>
    by_cases empty : name.chars = []
    · rw [FsOp.run, (fsCreateFile_of_empty empty st).2]
      exact iff_of_true unique (not_clash_of_short (by simp [empty]))
    · rw [FsOp.run, fsCreateFile_of_nonempty empty]
      exact siblingsUnique_fsAdd_iff unique bounded (by decide) _ _
  | writeFile name data =>
    rcases fsWriteFile_cases st name data with ⟨-, same⟩ | ⟨idx, -, filled⟩
    · rw [FsOp.run, same]; exact iff_of_true unique trivial
    · rw [FsOp.run, filled]; exact iff_of_true (unique.fill idx data) trivial
  | readFile name => rw [FsOp.run, fsReadFile_st]; exact iff_of_true unique trivial
  | cd name =>
    rcases fsCd_cases st name with ⟨-, same⟩ | ⟨target, -, moved⟩
    · rw [FsOp.run, same]; exact iff_of_true unique trivial
    · rw [FsOp.run, moved]; exact iff_of_true unique trivial
  | rm name =>
    rcases fsRm_cases st name with ⟨-, same, -⟩ | ⟨idx, -, dropped⟩
    · rw [FsOp.run, same]; exact iff_of_true unique trivial
    · rw [FsOp.run, dropped]; exact iff_of_true (unique.drop idx) trivial
  | rmdir name =>
    rcases fsRmdir_cases st name with ⟨-, same⟩ | ⟨idx, -, -, dropped⟩
    · rw [FsOp.run, same]; exact iff_of_true unique trivial
    · rw [FsOp.run, dropped]; exact iff_of_true (unique.drop idx) trivial
  | pwd | listFiles => exact iff_of_true unique trivial

end Step

/-! ## Runs -/

theorem namesBounded_fsRun (ops : List FsOp) : NamesBounded (fsRun fsInit ops) :=
  fsRun_induction (P := NamesBounded) (fun _ op bounded => bounded.run op) namesBounded_fsInit ops

theorem siblingsUnique_fsInit : SiblingsUnique fsInit := by
  intro i j liveI liveJ _ _
  have root {i : FsIdx} (live : (fsInit.table i).type ≠ .none) : i = fsRootIdx := by
    by_contra ne
    exact live (by simp [fsInit, ne])
  rw [root liveI, root liveJ]

/-- **Sibling names.**  Names stay unique in every state of a run exactly when every
call of the run is clash free in the state it meets. -/
theorem siblings_unique_iff (ops : List FsOp) :
    (∀ k, SiblingsUnique (fsRun fsInit (ops.take k))) ↔
      ∀ (k : Nat) (op : FsOp), ops[k]? = some op → op.ClashFree (fsRun fsInit (ops.take k)) :=
  fsRun_invariant_iff siblingsUnique_fsInit
    (fun before op unique => siblingsUnique_run_iff unique (namesBounded_fsRun before) op) ops

/-- Two names of 17 characters that agree on the first 16. -/
def longNameB : CStr := ⟨ascii "aaaaaaaaaaaaaaaab", by decide⟩
def longNameC : CStr := ⟨ascii "aaaaaaaaaaaaaaaac", by decide⟩

/-- Touching both leaves two files of the root with one stored name. -/
theorem siblings_collide :
    ¬ ∀ ops, SiblingsUnique (fsRun fsInit ops) := by
  intro unique
  have same := unique [.createFile longNameB, .createFile longNameC] 1 2
    (by decide +kernel) (by decide +kernel) (by decide +kernel) (by decide +kernel)
  exact absurd same (by decide)

end MOKernel
