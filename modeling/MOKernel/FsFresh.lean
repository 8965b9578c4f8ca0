import MOKernel.FsReadBack
import MOKernel.FsSiblings

/-!
# Sizes and old contents

A write stores the content and its length together, but touch only clears the size
and rm and rmdir leave the content in the slot.  `SizesMatch` is the relation of the two
fields that reading relies on; a run keeps it exactly as long as every file is created
in a slot whose content is empty (`sizes_match_iff`).
-/

namespace MOKernel

/-- The size of every live file is the length of its content. -/
def SizesMatch (st : FsState) : Prop :=
  ∀ i, (st.table i).type = .file → (st.table i).size = (st.table i).body.length

/-- The call, if it is a touch that creates a file, creates it in a slot whose content
is empty. -/
def FsOp.CleanSlot (st : FsState) : FsOp → Prop
  | .createFile name =>
    name.chars ≠ [] → fsFindIn st name (some st.cwd) = none →
      ∀ slot, fsAlloc st = some slot → (st.table slot).body = []
  | _ => True

/-- The call writes to the file in slot `idx`. -/
def FsOp.WritesTo (st : FsState) (idx : FsIdx) (op : FsOp) : Prop :=
  ∃ name data, op = .writeFile name data ∧ fsChild st name .file = some idx

/-- No call of the run writes to slot `idx`. -/
def Unwritten (idx : FsIdx) : FsState → List FsOp → Prop
  | _, [] => True
  | st, op :: ops => ¬op.WritesTo st idx ∧ Unwritten idx (op.run st) ops

/-! ## Size and content of an entry -/

section Fields

variable (st : FsState) (slot idx : FsIdx) (type : FsType) (name data : CStr) (j : FsIdx)

@[simp] theorem fsPlace_size : ((fsPlace st slot type name).table slot).size = 0 := by
  simp [fsPlace]

@[simp] theorem fsPlace_body :
    ((fsPlace st slot type name).table j).body = (st.table j).body := by
  rcases eq_or_ne j slot with rfl | ne
  · simp [fsPlace, FsEntry.body]
  · simp [ne]

/-- The size a write stores is the length of the content it stores. -/
theorem fsFill_size :
    ((fsFill st idx data).table idx).size = ((fsFill st idx data).table idx).body.length := by
  rw [fsFill_body]
  simp only [fsFill, FsState.setEntry_self]
  rw [copyLoop_counter data.nulFree (Nat.zero_le _), Nat.zero_add, Nat.sub_zero]

@[simp] theorem fsDrop_size : ((fsDrop st idx).table j).size = (st.table j).size := by
  rcases eq_or_ne j idx with rfl | ne
  · simp [fsDrop]
  · simp [ne]

@[simp] theorem fsDrop_body : ((fsDrop st idx).table j).body = (st.table j).body := by
  rcases eq_or_ne j idx with rfl | ne
  · simp [fsDrop, FsEntry.body]
  · simp [ne]

end Fields

/-! ## One step -/

section Step

variable {st : FsState} {slot idx : FsIdx} {name : CStr}

theorem SizesMatch.drop (sizes : SizesMatch st) (idx : FsIdx) : SizesMatch (fsDrop st idx) := by
  intro i file
  rw [fsDrop_size, fsDrop_body]
  rcases eq_or_ne i idx with rfl | ne
  · rw [fsDrop_type_self] at file
    cases file
  · rw [fsDrop_of_ne st ne] at file
    exact sizes i file

theorem SizesMatch.fill (sizes : SizesMatch st) (idx : FsIdx) (data : CStr) :
    SizesMatch (fsFill st idx data) := by
  intro i file
  rcases eq_or_ne i idx with rfl | ne
  · exact fsFill_size st i data
  · rw [fsFill_of_ne st data ne] at file ⊢
    exact sizes i file

/-- A directory has no size to match. -/
theorem SizesMatch.placeDir (sizes : SizesMatch st) (slot : FsIdx) (name : CStr) :
    SizesMatch (fsPlace st slot .dir name) := by
  intro i file
  rcases eq_or_ne i slot with rfl | ne
  · rw [fsPlace_type] at file
    cases file
  · rw [fsPlace_of_ne st .dir name ne] at file ⊢
    exact sizes i file

/-- A new file matches exactly when its slot was empty. -/
theorem sizesMatch_placeFile_iff (sizes : SizesMatch st) :
    SizesMatch (fsPlace st slot .file name) ↔ (st.table slot).body = [] := by
  constructor
  · intro sizes'
    have empty := sizes' slot (fsPlace_type st slot .file name)
    rw [fsPlace_size, fsPlace_body] at empty
    exact List.length_eq_zero_iff.mp empty.symm
  · intro empty i file
    rcases eq_or_ne i slot with rfl | ne
    · rw [fsPlace_size, fsPlace_body, empty]
      rfl
    · rw [fsPlace_of_ne st .file name ne] at file ⊢
      exact sizes i file

/-- Only touch can leave a size that does not match. -/
theorem SizesMatch.run_other (sizes : SizesMatch st) {op : FsOp}
    (other : ∀ name, op ≠ .createFile name) : SizesMatch (op.run st) := by
  have step := fsStep_run st op
  generalize op.run st = st' at step ⊢
  cases step with
  | idle => exact sizes
  | cd _ => exact sizes
  | mkdir => exact sizes.placeDir _ _
  | createFile => exact (other _ rfl).elim
  | writeFile => exact sizes.fill _ _
  | rm | rmdir => exact sizes.drop _

/-- **Step.**  A call keeps the sizes exactly when it creates no file over old content. -/
theorem sizesMatch_run_iff (sizes : SizesMatch st) (op : FsOp) :
    SizesMatch (op.run st) ↔ op.CleanSlot st := by
  cases op with
  | createFile name =>
    rcases eq_or_ne name.chars [] with empty | nonempty
    · rw [FsOp.run, (fsCreateFile_of_empty empty st).2]
      exact iff_of_true sizes fun nonempty => absurd empty nonempty
    · rw [FsOp.run, fsCreateFile_of_nonempty nonempty]
      rcases fsAdd_cases st name .file _ _ with ⟨-, same, full⟩ | ⟨slot, fresh, free, placed⟩
      · rw [same]
        refine iff_of_true sizes fun _ fresh slot free => ?_
        rw [full fresh] at free
        cases free
      · rw [placed, sizesMatch_placeFile_iff sizes]
        constructor
        · intro clean _ _ slot' free'
          obtain rfl : slot = slot' := Option.some.inj (free.symm.trans free')
          exact clean
        · intro clean
          exact clean nonempty fresh slot free
  | mkdir _ | writeFile _ _ | readFile _ | cd _ | rm _ | rmdir _ | pwd | listFiles =>
    refine iff_of_true (sizes.run_other ?_) trivial
    intro name same
    cases same

/-- A size of zero stays until the slot is written to. -/
theorem size_run (zero : (st.table idx).size = 0) {op : FsOp} (spared : ¬op.WritesTo st idx) :
    ((op.run st).table idx).size = 0 := by
  have step := fsStep_run st op
  generalize op.run st = st' at step ⊢
  cases step with
  | idle => exact zero
  | cd _ => exact zero
  | @mkdir name slot | @createFile name slot =>
    rcases eq_or_ne idx slot with rfl | ne
    · rw [fsPlace_size]
    · rw [fsPlace_of_ne st _ name ne, zero]
  | @writeFile name data j child =>
    rcases eq_or_ne idx j with rfl | ne
    · exact (spared ⟨name, data, rfl, child⟩).elim
    · rw [fsFill_of_ne st data ne, zero]
  | rm | rmdir => rw [fsDrop_size, zero]

theorem size_fsRun (zero : (st.table idx).size = 0) {ops : List FsOp}
    (spared : Unwritten idx st ops) : ((fsRun st ops).table idx).size = 0 := by
  induction ops generalizing st with
  | nil => exact zero
  | cons op ops ih => exact ih (size_run zero spared.1) spared.2

end Step

/-! ## Runs -/

theorem sizesMatch_fsInit : SizesMatch fsInit := by
  intro i file
  exact absurd file (by simp only [fsInit]; split <;> decide)

/-- **Sizes and contents.**  Sizes match in every state of a run exactly when every touch
of the run creates its file in a slot whose content is empty. -/
theorem sizes_match_iff (ops : List FsOp) :
    (∀ k, SizesMatch (fsRun fsInit (ops.take k))) ↔
      ∀ (k : Nat) (op : FsOp), ops[k]? = some op → op.CleanSlot (fsRun fsInit (ops.take k)) :=
  fsRun_invariant_iff sizesMatch_fsInit (fun _ op sizes => sizesMatch_run_iff sizes op) ops

/-- The file `name` that touch creates in the state after `before` reads back as empty
after any calls that do not write to its slot, as long as the slot holds a file. -/
def NewFilesEmpty (before : List FsOp) (name : CStr) (later : List FsOp) : Prop :=
  ∀ slot : FsIdx, (fsCreateFile (fsRun fsInit before) name).ret = (slot.val : Int) →
    Unwritten slot (fsCreateFile (fsRun fsInit before) name).st later →
    ((fsRun fsInit (before ++ .createFile name :: later)).table slot).type = .file →
    ((fsRun fsInit (before ++ .createFile name :: later)).table slot).body = []

/-- What is left of removed files: nothing.  Every live file's size is the length of its
content, and a new file is empty until it is written. -/
structure NoDataSurvives (ops : List FsOp) : Prop where
  sizes : ∀ k, SizesMatch (fsRun fsInit (ops.take k))
  fresh : ∀ before name later, before ++ .createFile name :: later <+: ops →
    NewFilesEmpty before name later

/-- Where sizes match, new files are empty. -/
theorem newFilesEmpty_of_sizes {before later : List FsOp} {name : CStr}
    (sizes : SizesMatch (fsRun fsInit (before ++ .createFile name :: later))) :
    NewFilesEmpty before name later := by
  intro slot returned unwritten file
  have created : ((fsCreateFile (fsRun fsInit before) name).st.table slot).size = 0 := by
    rcases eq_or_ne name.chars [] with empty | nonempty
    · have failed := (fsCreateFile_of_empty empty (fsRun fsInit before)).1
      omega
    · rw [fsCreateFile_of_nonempty nonempty] at returned ⊢
      rcases fsAdd_cases (fsRun fsInit before) name .file "touch: '" "touch: filesystem full\n"
        with ⟨failed, -, -⟩ | ⟨slot', -, -, placed⟩
      · omega
      · rw [placed] at returned ⊢
        obtain rfl : slot' = slot := Fin.ext (Int.ofNat.inj returned)
        exact fsPlace_size _ _ _ _
  have zero := size_fsRun created unwritten
  have same := sizes slot file
  rw [fsRun_append, fsRun_cons] at same ⊢
  exact List.length_eq_zero_iff.mp (same.symm.trans zero)

/-- **No data survives into a new file** in exactly those runs whose touches all create
their file in a slot whose content is empty. -/
theorem no_data_survives_iff (ops : List FsOp) :
    NoDataSurvives ops ↔
      ∀ (k : Nat) (op : FsOp), ops[k]? = some op → op.CleanSlot (fsRun fsInit (ops.take k)) := by
  rw [← sizes_match_iff]
  constructor
  · intro none
    exact none.sizes
  · intro sizes
    refine ⟨sizes, fun before name later front => newFilesEmpty_of_sizes ?_⟩
    have whole := sizes (before ++ .createFile name :: later).length
    rwa [← List.prefix_iff_eq_take.mp front] at whole

/-- A removed file's content is read from the file that takes its slot. -/
theorem data_survives :
    ¬NoDataSurvives [.createFile noteName, .writeFile noteName otherName, .rm noteName,
      .createFile otherName] := by
  intro none
  have file := none.sizes 4 1 (by decide +kernel)
  exact absurd file (by decide +kernel)

end MOKernel
