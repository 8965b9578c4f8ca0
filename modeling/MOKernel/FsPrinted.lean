import MOKernel.FsSiblings
import MOKernel.FsTree
import MOKernel.Separated

/-!
# Printed paths identify directories

`fs_print_path` joins the stored names from the root down with `/`.  The names
determine the directory when siblings differ, and the text determines the names when
none of them contains a `/`.  mkdir does not look for one, so printed paths are told
apart in the runs in which no created directory has a `/` in its name
(`printed_paths_differ`); `mkdir a/b` next to `a` with a child `b` is the other kind.
-/

namespace MOKernel

/-- The character `/`. -/
def slash : UInt8 := 47

/-- Two different live directories print two different paths. -/
def PathsDiffer (st : FsState) : Prop :=
  ∀ i j, (st.table i).type = .dir → (st.table j).type = .dir → i ≠ j →
    ∃ p q, fsPrintPath st i = some p ∧ fsPrintPath st j = some q ∧ p ≠ q

/-- The name argument of a call. -/
def FsOp.nameArg : FsOp → Option CStr
  | .mkdir name | .createFile name | .writeFile name _ | .readFile name | .cd name | .rm name
  | .rmdir name => some name
  | .pwd | .listFiles => none

/-- The name argument of the call, if it has one, fits a name array. -/
def FsOp.ShortName (op : FsOp) : Prop := ∀ name ∈ op.nameArg, name.chars.length ≤ fsMaxNameLen

/-- The call, if it is a mkdir that creates a directory, gives it a name without `/`;
the names that mkdir refuses have none. -/
def FsOp.PlainMkdir (st : FsState) : FsOp → Prop
  | .mkdir name =>
    fsFindIn st name (some st.cwd) = none → fsAlloc st ≠ none → slash ∉ name.chars
  | _ => True

/-- Every directory but the root has a name, and no `/` in it. -/
def DirNamesPlain (st : FsState) : Prop :=
  ∀ i, (st.table i).type = .dir → i ≠ fsRootIdx →
    (st.table i).storedName ≠ [] ∧ slash ∉ (st.table i).storedName

/-! ## The printed names -/

/-- The stored names on the way down to an entry. -/
abbrev FsPathTo (st : FsState) : FsIdx → List (List UInt8) → Prop :=
  LabelPath st.parentOf (fun i => (st.table i).storedName) fsRootIdx

section Print

variable {st : FsState}

/-- The stack of the walk, read backwards, holds the names on the way down. -/
theorem pathTo_of_walk {room : Nat} {i : FsIdx} {stack : List FsIdx}
    (walk : fsPathWalk st room (some i) = some (stack, some fsRootIdx)) :
    FsPathTo st i (stack.reverse.map fun j => (st.table j).storedName) := by
  induction room generalizing i stack with
  | zero =>
    rw [fsPathWalk] at walk
    split at walk
    · next isRoot =>
      cases walk
      exact .root
    · cases walk
  | succ room ih =>
    rw [fsPathWalk] at walk
    split at walk
    · next isRoot =>
      cases walk
      exact .root
    · obtain ⟨⟨stack', stop⟩, rest, same⟩ := Option.map_eq_some_iff.mp walk
      obtain ⟨rfl, rfl⟩ := Prod.mk.inj same
      cases above : (st.table i).parent with
      | none =>
        rw [above, fsPathWalk] at rest
        cases rest
      | some p =>
        rw [above] at rest
        have path : FsPathTo st i _ := .down above (ih rest)
        simpa using path

/-- What is printed for a live entry below the root. -/
theorem fsPrintPath_of_live (tree : FsTree st) {i : FsIdx} (live : st.Live i)
    (notRoot : i ≠ fsRootIdx) :
    ∃ names, FsPathTo st i names ∧ fsPrintPath st i = some (joinTexts slash names) := by
  obtain ⟨k, short, arrives⟩ := tree.climbs live
  obtain ⟨stack, walk, -⟩ :=
    fsPathWalk_of_climb arrives (short.trans (by decide : 31 ≤ fsMaxEntries))
  refine ⟨_, pathTo_of_walk walk, ?_⟩
  unfold fsPrintPath
  rw [if_neg notRoot, walk, Option.map_some, joinTexts, List.flatMap_map]
  rfl

/-- Every name on the way down to a directory is the name of a directory. -/
theorem plain_of_pathTo (tree : FsTree st) (plain : DirNamesPlain st) {i : FsIdx}
    {names : List (List UInt8)} (path : FsPathTo st i names) (dir : (st.table i).type = .dir) :
    ∀ n ∈ names, n ≠ [] ∧ slash ∉ n := by
  induction path with
  | root => simp
  | @down x y names above path ih =>
    have parentDir := tree.parentDir x y (FsTree.live_of_dir dir) above
    have own := plain x dir (tree.ne_root_of_parent above)
    intro n member
    rcases List.mem_append.mp member with before | last
    · exact ih parentDir n before
    · rwa [List.mem_singleton.mp last]

/-- **Injectivity of the printed path.** -/
theorem pathsDiffer_of_plain (tree : FsTree st) (siblings : SiblingsUnique st)
    (plain : DirNamesPlain st) : PathsDiffer st := by
  -- the root prints a lone `/`, which no nonempty names print
  have below {i : FsIdx} (dir : (st.table i).type = .dir) (notRoot : i ≠ fsRootIdx) :
      ∃ p, fsPrintPath st i = some p ∧ p ≠ ascii "/" := by
    obtain ⟨names, path, printed⟩ := fsPrintPath_of_live tree (FsTree.live_of_dir dir) notRoot
    refine ⟨_, printed, fun same => ?_⟩
    have names_plain := plain_of_pathTo tree plain path dir
    cases names with
    | nil => cases same
    | cons n names =>
      have empty : n ++ joinTexts slash names = [] := List.tail_eq_of_cons_eq same
      exact (names_plain n (by simp)).1 (List.append_eq_nil_iff.mp empty).1
  have root : fsPrintPath st fsRootIdx = some (ascii "/") := by
    unfold fsPrintPath
    rw [if_pos rfl]
  intro i j dirI dirJ ne
  rcases eq_or_ne i fsRootIdx with rfl | notRootI
  · obtain ⟨p, printed, differs⟩ := below dirJ ne.symm
    exact ⟨_, p, root, printed, differs.symm⟩
  rcases eq_or_ne j fsRootIdx with rfl | notRootJ
  · obtain ⟨p, printed, differs⟩ := below dirI notRootI
    exact ⟨p, _, printed, root, differs⟩
  have liveI := FsTree.live_of_dir dirI
  have liveJ := FsTree.live_of_dir dirJ
  obtain ⟨names, path, printed⟩ := fsPrintPath_of_live tree liveI notRootI
  obtain ⟨names', path', printed'⟩ := fsPrintPath_of_live tree liveJ notRootJ
  refine ⟨_, _, printed, printed', fun same => ne ?_⟩
  obtain rfl : names = names' := joinTexts_injective
    (fun n member => (plain_of_pathTo tree plain path dirI n member).2)
    (fun n member => (plain_of_pathTo tree plain path' dirJ n member).2) same
  exact path.injective (fun x y => tree.live_parent) (fun x y => siblings x y) path' liveI liveJ

end Print

/-! ## Runs -/

section Step

variable {st : FsState}

/-- Calls that create no directory leave the names of directories alone. -/
theorem DirNamesPlain.of_dirs {st' : FsState} (plain : DirNamesPlain st)
    (dirs : ∀ i, (st'.table i).type = .dir →
      (st.table i).type = .dir ∧ (st'.table i).storedName = (st.table i).storedName) :
    DirNamesPlain st' := by
  intro i dir notRoot
  obtain ⟨dir', same⟩ := dirs i dir
  rw [same]
  exact plain i dir' notRoot

theorem DirNamesPlain.placeDir (plain : DirNamesPlain st) {slot : FsIdx} {name : CStr}
    (nonempty : name.chars ≠ []) (free : slash ∉ name.chars) :
    DirNamesPlain (fsPlace st slot .dir name) := by
  intro i dir notRoot
  rcases eq_or_ne i slot with rfl | ne
  · rw [fsPlace_storedName]
    refine ⟨?_, fun member => free (List.mem_of_mem_take member)⟩
    simp [nonempty]
  · rw [fsPlace_of_ne st .dir name ne] at dir ⊢
    exact plain i dir notRoot

theorem DirNamesPlain.placeFile (plain : DirNamesPlain st) (slot : FsIdx) (name : CStr) :
    DirNamesPlain (fsPlace st slot .file name) := by
  apply plain.of_dirs
  intro i dir
  rcases eq_or_ne i slot with rfl | ne
  · rw [fsPlace_type] at dir
    cases dir
  · rw [fsPlace_of_ne st .file name ne] at dir ⊢
    exact ⟨dir, rfl⟩

theorem DirNamesPlain.drop (plain : DirNamesPlain st) (idx : FsIdx) :
    DirNamesPlain (fsDrop st idx) := by
  apply plain.of_dirs
  intro i dir
  rcases eq_or_ne i idx with rfl | ne
  · rw [fsDrop_type_self] at dir
    cases dir
  · rw [fsDrop_of_ne st ne] at dir ⊢
    exact ⟨dir, rfl⟩

/-- **Step.**  A call that creates no directory with a `/` in its name keeps the names of
directories plain. -/
theorem DirNamesPlain.run (plain : DirNamesPlain st) {op : FsOp} (meets : op.PlainMkdir st) :
    DirNamesPlain (op.run st) := by
  have step := fsStep_run st op
  generalize op.run st = st' at step ⊢
  cases step with
  | idle => exact plain
  | cd _ => exact plain
  | mkdir nonempty fresh free =>
    exact plain.placeDir nonempty (meets fresh (Option.ne_none_iff_exists'.mpr ⟨_, free⟩))
  | createFile => exact plain.placeFile _ _
  | writeFile _ =>
    apply plain.of_dirs
    intro i dir
    rw [fsFill_type] at dir
    exact ⟨dir, fsFill_storedName _ _ _ i⟩
  | rm | rmdir => exact plain.drop _

theorem dirNamesPlain_fsInit : DirNamesPlain fsInit := by
  intro i dir notRoot
  simp [fsInit, notRoot] at dir

/-- A short name is stored whole, so its call cannot clash. -/
theorem FsOp.ShortName.clashFree {op : FsOp} (short : op.ShortName) (st : FsState) :
    op.ClashFree st := by
  cases op with
  | mkdir name => exact not_clash_of_short (short name rfl)
  | createFile name => exact not_clash_of_short (short name rfl)
  | writeFile _ _ | readFile _ | cd _ | rm _ | rmdir _ | pwd | listFiles => trivial

end Step

theorem dirNamesPlain_run {ops : List FsOp}
    (plain : ∀ (k : Nat) (op : FsOp), ops[k]? = some op →
      op.PlainMkdir (fsRun fsInit (ops.take k))) (k : Nat) :
    DirNamesPlain (fsRun fsInit (ops.take k)) :=
  fsRun_invariant dirNamesPlain_fsInit (fun _ _ names meets => names.run meets) plain k

/-- Short names keep siblings apart. -/
theorem siblingsUnique_of_short {ops : List FsOp} (short : ∀ op ∈ ops, op.ShortName) (k : Nat) :
    SiblingsUnique (fsRun fsInit (ops.take k)) :=
  fsRun_invariant (C := fun _ op => op.ShortName) siblingsUnique_fsInit
    (fun before op unique short =>
      (siblingsUnique_run_iff unique (namesBounded_fsRun before) op).mpr (short.clashFree _))
    (fun _ op atK => short op (List.mem_of_getElem? atK)) k

/-- **Printed paths.**  In every run with short names in which no directory is created
with a `/` in its name, two different live directories print different paths in every
state. -/
theorem printed_paths_differ (ops : List FsOp) (short : ∀ op ∈ ops, op.ShortName)
    (plain : ∀ (k : Nat) (op : FsOp), ops[k]? = some op →
      op.PlainMkdir (fsRun fsInit (ops.take k))) (k : Nat) :
    PathsDiffer (fsRun fsInit (ops.take k)) :=
  pathsDiffer_of_plain (fsTree_fsRun _) (siblingsUnique_of_short short k)
    (dirNamesPlain_run plain k)

def aName : CStr := ⟨ascii "a", by decide⟩
def bName : CStr := ⟨ascii "b", by decide⟩
def aSlashBName : CStr := ⟨ascii "a/b", by decide⟩

/-- A directory and its child of the same name. -/
theorem printed_paths_differ_nested :
    PathsDiffer (fsRun fsInit ([.mkdir aName, .cd aName, .mkdir aName].take 3)) := by
  refine printed_paths_differ [.mkdir aName, .cd aName, .mkdir aName] ?_ ?_ 3
  · simp only [List.mem_cons, List.not_mem_nil, or_false]
    rintro op (rfl | rfl | rfl) name same <;> cases same <;> decide
  · intro k op atK
    have member := List.mem_of_getElem? atK
    simp only [List.mem_cons, List.not_mem_nil, or_false] at member
    rcases member with rfl | rfl | rfl
    · exact fun _ _ => by decide
    · trivial
    · exact fun _ _ => by decide

/-- `a/b` in the root and `b` in `a` both print `/a/b`. -/
theorem printed_paths_collide :
    ¬ ∀ ops : List FsOp, (∀ op ∈ ops, op.ShortName) → PathsDiffer (fsRun fsInit ops) := by
  intro differ
  have short : ∀ op ∈ [FsOp.mkdir aSlashBName, .mkdir aName, .cd aName, .mkdir bName],
      op.ShortName := by
    simp only [List.mem_cons, List.not_mem_nil, or_false]
    rintro op (rfl | rfl | rfl | rfl) name same <;> cases same <;> decide
  obtain ⟨p, q, first, second, ne⟩ := differ _ short 1 3
    (by decide +kernel) (by decide +kernel) (by decide)
  have printed : fsPrintPath (fsRun fsInit
      [.mkdir aSlashBName, .mkdir aName, .cd aName, .mkdir bName]) 1 =
      fsPrintPath (fsRun fsInit [.mkdir aSlashBName, .mkdir aName, .cd aName, .mkdir bName]) 3 := by
    decide +kernel
  exact ne (Option.some.inj (first.symm.trans (printed.trans second)))

end MOKernel
