import MOKernel.FsTree

/-!
# Reserved names

`fs_resolve_dir` gives `.` and `..` a meaning of their own and the empty name names nothing.
`fs_mkdir` rejects all three, `fs_create_file` only the empty one: no entry ever stores one of
them exactly when no file called `.` or `..` is created while a slot is free
(`reserved_names_iff`).
-/

namespace MOKernel

/-- A name that `fs_resolve_dir` does not look up. -/
def Reserved (name : List UInt8) : Prop := name = ascii "." ∨ name = ascii ".."

instance (name : List UInt8) : Decidable (Reserved name) := inferInstanceAs (Decidable (_ ∨ _))

/-- No live entry but the root stores an empty or a reserved name, and a lookup of a reserved
name in any directory finds nothing. -/
structure NamesOrdinary (st : FsState) : Prop where
  nonempty : ∀ i, st.Live i → i ≠ fsRootIdx → (st.table i).storedName ≠ []
  ordinary : ∀ i, st.Live i → i ≠ fsRootIdx → ¬ Reserved (st.table i).storedName
  notFound : ∀ name parentIdx, Reserved name.chars → fsFindIn st name parentIdx = none

/-- A call that creates a file under a reserved name while a slot is free. -/
def FsOp.StoresReserved (st : FsState) : FsOp → Prop
  | .createFile name => Reserved name.chars ∧ fsAlloc st ≠ none
  | _ => False

/-- The root is a directory without a name. -/
structure RootUnnamed (st : FsState) : Prop extends FsTree st where
  unnamed : (st.table fsRootIdx).storedName = []

variable {st : FsState} {name : CStr} {slot : FsIdx} {type : FsType}

/-! ## The root -/

theorem rootUnnamed_init : RootUnnamed fsInit :=
  { FsTree.init with unnamed := by decide }

theorem RootUnnamed.run (root : RootUnnamed st) (op : FsOp) : RootUnnamed (op.run st) := by
  refine { root.toFsTree.run op with unnamed := ?_ }
  have occupied {slot : FsIdx} (free : fsAlloc st = some slot) : fsRootIdx ≠ slot :=
    root.root_ne_free (fsAlloc_free free)
  have step := fsStep_run st op
  generalize op.run st = st' at step
  cases step with
  | idle => exact root.unnamed
  | cd _ => exact root.unnamed
  | mkdir _ _ free => rw [fsPlace_of_ne _ _ _ (occupied free)]; exact root.unnamed
  | createFile _ _ free => rw [fsPlace_of_ne _ _ _ (occupied free)]; exact root.unnamed
  | writeFile _ => rw [fsFill_storedName]; exact root.unnamed
  | rm _ => rw [fsDrop_storedName]; exact root.unnamed
  | rmdir _ _ => rw [fsDrop_storedName]; exact root.unnamed

theorem rootUnnamed_fsRun (ops : List FsOp) : RootUnnamed (fsRun fsInit ops) :=
  fsRun_induction (P := RootUnnamed) (fun _ op root => root.run op) rootUnnamed_init ops

/-! ## Stored names -/

/-- Every live entry but the root has a name of its own. -/
def StoredOrdinary (st : FsState) : Prop :=
  ∀ i, st.Live i → i ≠ fsRootIdx →
    (st.table i).storedName ≠ [] ∧ ¬ Reserved (st.table i).storedName

theorem not_reserved_nil : ¬ Reserved [] := by decide

/-- With an unnamed root the stored names decide what a lookup finds. -/
theorem namesOrdinary_iff (root : RootUnnamed st) : NamesOrdinary st ↔ StoredOrdinary st := by
  refine ⟨fun names i live below => ⟨names.nonempty i live below, names.ordinary i live below⟩,
    fun stored => ⟨fun i live below => (stored i live below).1,
      fun i live below => (stored i live below).2, fun name parentIdx reserved => ?_⟩⟩
  refine fsFindIn_eq_none_iff.mpr fun i named => ?_
  rcases eq_or_ne i fsRootIdx with rfl | below
  · rw [← named.2.2, root.unnamed] at reserved
    exact not_reserved_nil reserved
  · rw [← named.2.2] at reserved
    exact (stored i named.1 below).2 reserved

/-- A cut name is reserved only if the name is. -/
theorem reserved_take_iff {n : List UInt8} : Reserved (n.take fsMaxNameLen) ↔ Reserved n := by
  rcases Nat.lt_or_ge fsMaxNameLen n.length with long | short
  · have length : (n.take fsMaxNameLen).length = fsMaxNameLen := by
      rw [List.length_take]
      exact Nat.min_eq_left (Nat.le_of_lt long)
    constructor
    · rintro (dot | dots)
      · rw [dot] at length
        exact absurd length (by decide)
      · rw [dots] at length
        exact absurd length (by decide)
    · rintro (rfl | rfl)
      · exact absurd long (by decide)
      · exact absurd long (by decide)
  · rw [List.take_of_length_le short]

/-- A placed entry has an ordinary name exactly when it was given one. -/
theorem storedOrdinary_place (tree : FsTree st) (stored : StoredOrdinary st)
    (free : (st.table slot).type = .none) (live : type ≠ .none) (nonempty : name.chars ≠ []) :
    StoredOrdinary (fsPlace st slot type name) ↔ ¬ Reserved name.chars := by
  have below : slot ≠ fsRootIdx := (tree.root_ne_free free).symm
  constructor
  · intro placed reserved
    have own := (placed slot (by rwa [FsState.Live, fsPlace_type]) below).2
    rw [fsPlace_storedName, reserved_take_iff] at own
    exact own reserved
  · intro ordinary i live' below'
    rcases eq_or_ne i slot with rfl | ne
    · rw [fsPlace_storedName, reserved_take_iff]
      refine ⟨fun cut => nonempty ?_, ordinary⟩
      exact (List.take_eq_nil_iff.mp cut).resolve_left (by decide)
    · rw [FsState.Live, fsPlace_of_ne _ _ _ ne] at live'
      rw [fsPlace_of_ne _ _ _ ne]
      exact stored i live' below'

/-- Fewer live entries under the same names are no worse. -/
theorem StoredOrdinary.kept {st' : FsState} (stored : StoredOrdinary st)
    (live : ∀ i, st'.Live i → st.Live i)
    (names : ∀ i, (st'.table i).storedName = (st.table i).storedName) : StoredOrdinary st' := by
  intro i live' below
  rw [names i]
  exact stored i (live i live') below

theorem StoredOrdinary.drop (stored : StoredOrdinary st) (idx : FsIdx) :
    StoredOrdinary (fsDrop st idx) := by
  refine stored.kept (fun i live => ?_) (fsDrop_storedName st idx)
  rcases eq_or_ne i idx with rfl | ne
  · exact absurd (fsDrop_type_self st i) live
  · rwa [FsState.Live, fsDrop_of_ne _ ne] at live

/-- A call that creates nothing keeps the stored names. -/
theorem StoredOrdinary.step {op : FsOp} {st' : FsState} (stored : StoredOrdinary st)
    (step : FsStep st op st') (mkdir : ∀ name, op ≠ .mkdir name)
    (touch : ∀ name, op ≠ .createFile name) : StoredOrdinary st' := by
  cases step with
  | idle => exact stored
  | cd _ => exact stored
  | @mkdir name => exact absurd rfl (mkdir name)
  | @createFile name => exact absurd rfl (touch name)
  | writeFile _ =>
    exact stored.kept (fun i live => by rwa [FsState.Live, fsFill_type] at live)
      (fsFill_storedName st _ _)
  | rm _ => exact stored.drop _
  | rmdir _ _ => exact stored.drop _

/-! ## One call -/

/-- `fs_create_file` keeps the stored names exactly when it stores no reserved one. -/
theorem storedOrdinary_createFile (root : RootUnnamed st) (stored : StoredOrdinary st)
    (name : CStr) : StoredOrdinary (fsCreateFile st name).st ↔
      ¬ (Reserved name.chars ∧ fsAlloc st ≠ none) := by
  by_cases empty : name.chars = []
  · rw [(fsCreateFile_of_empty empty st).2, empty]
    exact iff_of_true stored fun both => not_reserved_nil both.1
  · rw [fsCreateFile_of_nonempty empty]
    rcases fsAdd_cases st name .file "touch: '" "touch: filesystem full\n" with
      ⟨-, same, full⟩ | ⟨slot, -, free, placed⟩
    · rw [same]
      refine iff_of_true stored fun both => both.2 (full ?_)
      exact ((namesOrdinary_iff root).mpr stored).notFound name _ both.1
    · rw [placed]
      refine (storedOrdinary_place root.toFsTree stored (fsAlloc_free free) (by decide)
        empty).trans (not_congr (and_iff_left ?_).symm)
      rw [free]
      exact Option.some_ne_none slot

/-- `fs_mkdir` keeps them. -/
theorem storedOrdinary_mkdir (root : RootUnnamed st) (stored : StoredOrdinary st) (name : CStr) :
    StoredOrdinary (fsMkdir st name).st := by
  by_cases admits : MkdirAdmits name
  · rw [fsMkdir_of_admits admits]
    rcases fsAdd_cases st name .dir "mkdir: '" "mkdir: filesystem full\n" with
      ⟨-, same, -⟩ | ⟨slot, -, free, placed⟩
    · rwa [same]
    · rw [placed]
      exact (storedOrdinary_place root.toFsTree stored (fsAlloc_free free) (by decide)
        admits.1).mpr (not_or.mpr admits.2)
  · rwa [(fsMkdir_of_not_admits admits st).2]

theorem storedOrdinary_run (root : RootUnnamed st) (stored : StoredOrdinary st) (op : FsOp) :
    StoredOrdinary (op.run st) ↔ ¬ op.StoresReserved st := by
  cases op with
  | createFile name => exact storedOrdinary_createFile root stored name
  | mkdir name => exact iff_of_true (storedOrdinary_mkdir root stored name) not_false
  | _ => exact iff_of_true (stored.step (fsStep_run st _) nofun nofun) not_false

/-! ## Runs -/

theorem namesOrdinary_init : NamesOrdinary fsInit := by
  refine (namesOrdinary_iff rootUnnamed_init).mpr fun i live below => ?_
  exact absurd (FsTree.init.rootOnly i live rfl) below

/-- **Reserved names.**  In every state of a run, no entry but the root stores an empty or a
reserved name and no lookup of one finds anything, exactly when no call of the run creates a
file called `.` or `..` while a slot is free. -/
theorem reserved_names_iff (ops : List FsOp) :
    (∀ k, NamesOrdinary (fsRun fsInit (ops.take k))) ↔
      ∀ (k : Nat) (op : FsOp), ops[k]? = some op →
        ¬ op.StoresReserved (fsRun fsInit (ops.take k)) := by
  refine fsRun_invariant_iff (C := fun st op => ¬ op.StoresReserved st) namesOrdinary_init
    (fun before op names => ?_) ops
  have root := rootUnnamed_fsRun before
  rw [namesOrdinary_iff (root.run op)]
  exact storedOrdinary_run root ((namesOrdinary_iff root).mp names) op

def dotName : CStr := ⟨ascii ".", by decide⟩

/-- `touch .` stores the name that `fs_resolve_dir` takes for the working directory. -/
theorem touch_stores_reserved :
    ¬ ∀ ops : List FsOp, NamesOrdinary (fsRun fsInit ops) := by
  intro names
  have stored := (namesOrdinary_iff (rootUnnamed_fsRun _)).mp (names [.createFile dotName])
  have none := (storedOrdinary_createFile rootUnnamed_init
    ((namesOrdinary_iff rootUnnamed_init).mp namesOrdinary_init) dotName).mp stored
  exact none ⟨by decide, by decide⟩

end MOKernel
