import MOKernel.FsStep
import MOKernel.ParentForest

/-!
# The inode table is a tree

`FsTree` is the shape invariant of the table: the root is a live directory and
the only live parentless entry, every other live entry hangs under a live
directory, every live entry is `Rooted` at the root, and the working directory
is a live directory.  The parent field of a freed slot is stale, so everything
is said about live entries only; what carries the removal steps is that a freed
slot has no live children.
-/

namespace MOKernel

/-- The parent pointers of the table, stale ones included. -/
def FsState.parentOf (st : FsState) (i : FsIdx) : Option FsIdx := (st.table i).parent

def FsState.Live (st : FsState) (i : FsIdx) : Prop := (st.table i).type ≠ .none

theorem FsState.Live.ne_free {st : FsState} {i slot : FsIdx} (live : st.Live i)
    (free : (st.table slot).type = .none) : i ≠ slot := fun same => live (same ▸ free)

/-- The shape invariant of the filesystem. -/
structure FsTree (st : FsState) : Prop where
  rootDir : (st.table fsRootIdx).type = .dir
  rootParent : (st.table fsRootIdx).parent = none
  rootOnly : ∀ i, st.Live i → (st.table i).parent = none → i = fsRootIdx
  parentDir : ∀ i p, st.Live i → (st.table i).parent = some p → (st.table p).type = .dir
  rooted : ∀ i, st.Live i → Rooted st.parentOf fsRootIdx i
  cwdDir : (st.table st.cwd).type = .dir

namespace FsTree

variable {st : FsState}

theorem live_of_dir {i : FsIdx} (dir : (st.table i).type = .dir) : st.Live i := by
  simp [FsState.Live, dir]

theorem root_ne_free (tree : FsTree st) {slot : FsIdx} (free : (st.table slot).type = .none) :
    fsRootIdx ≠ slot :=
  (live_of_dir tree.rootDir).ne_free free

theorem cwd_ne_free (tree : FsTree st) {slot : FsIdx} (free : (st.table slot).type = .none) :
    st.cwd ≠ slot :=
  (live_of_dir tree.cwdDir).ne_free free

/-- A live entry's chain of parents stays among the live entries. -/
theorem live_parent (tree : FsTree st) {i p : FsIdx} (live : st.Live i)
    (above : st.parentOf i = some p) : st.Live p :=
  live_of_dir (tree.parentDir i p live above)

/-- The root is not a child of anything. -/
theorem ne_root_of_parent (tree : FsTree st) {i p : FsIdx}
    (above : (st.table i).parent = some p) : i ≠ fsRootIdx := by
  intro same
  subst same
  rw [tree.rootParent] at above
  cases above

theorem init : FsTree fsInit where
  rootDir := rfl
  rootParent := rfl
  rootOnly i live _ := by
    by_contra ne
    exact live (by simp [fsInit, ne])
  parentDir i p _ above := by simp [fsInit] at above
  rooted i live := by
    by_cases isRoot : i = fsRootIdx
    · subst isRoot; exact .root
    · exact (live (by simp [fsInit, isRoot])).elim
  cwdDir := rfl

/-- Moving to the root or to a directory keeps the tree. -/
theorem chdir (tree : FsTree st) {target : FsIdx}
    (dest : target = fsRootIdx ∨ (st.table target).type = .dir) :
    FsTree { st with cwd := target } where
  rootDir := tree.rootDir
  rootParent := tree.rootParent
  rootOnly := tree.rootOnly
  parentDir := tree.parentDir
  rooted := tree.rooted
  cwdDir := by
    rcases dest with rfl | dir
    · exact tree.rootDir
    · exact dir

/-- Hanging a free slot under the working directory keeps the tree. -/
theorem place (tree : FsTree st) {slot : FsIdx} (free : (st.table slot).type = .none)
    {type : FsType} (name : CStr) : FsTree (fsPlace st slot type name) := by
  have rootNe := tree.root_ne_free free
  have cwdNe := tree.cwd_ne_free free
  have liveNe {i : FsIdx} (live : st.Live i) : i ≠ slot := live.ne_free free
  -- entries that were live keep their chain: it never meets the free slot
  have rootedOld {i : FsIdx} (live : st.Live i) :
      Rooted (fsPlace st slot type name).parentOf fsRootIdx i :=
    (tree.rooted i live).frame live (fun _ _ => tree.live_parent)
      fun x liveX => by simp [FsState.parentOf, liveNe liveX]
  refine ⟨by simpa [rootNe] using tree.rootDir, by simpa [rootNe] using tree.rootParent,
    ?_, ?_, ?_, by simpa [cwdNe] using tree.cwdDir⟩
  · intro i live above
    by_cases new : i = slot
    · subst new; simp at above
    · exact tree.rootOnly i (by simpa [FsState.Live, new] using live) (by simpa [new] using above)
  · intro i p live above
    by_cases new : i = slot
    · subst new
      obtain rfl : st.cwd = p := by simpa using above
      simpa [cwdNe] using tree.cwdDir
    · have dir : (st.table p).type = .dir :=
        tree.parentDir i p (by simpa [FsState.Live, new] using live) (by simpa [new] using above)
      simpa [liveNe (live_of_dir dir)] using dir
  · intro i live
    by_cases new : i = slot
    · subst new
      exact .up (by simp [FsState.parentOf]) (rootedOld (live_of_dir tree.cwdDir))
    · exact rootedOld (by simpa [FsState.Live, new] using live)

/-- Writing a file keeps the tree. -/
theorem fill (tree : FsTree st) (idx : FsIdx) (data : CStr) : FsTree (fsFill st idx data) where
  rootDir := by simpa using tree.rootDir
  rootParent := by simpa using tree.rootParent
  rootOnly i live above :=
    tree.rootOnly i (by simpa [FsState.Live] using live) (by simpa using above)
  parentDir i p live above := by
    simpa using tree.parentDir i p (by simpa [FsState.Live] using live) (by simpa using above)
  rooted i live := by
    have same : (fsFill st idx data).parentOf = st.parentOf := by
      funext j; simp [FsState.parentOf]
    rw [same]
    exact tree.rooted i (by simpa [FsState.Live] using live)
  cwdDir := by simpa using tree.cwdDir

/-- Freeing a child of the working directory that has no live children keeps the tree. -/
theorem drop (tree : FsTree st) {idx : FsIdx} (child : (st.table idx).parent = some st.cwd)
    (live : st.Live idx) (childless : ∀ i, st.Live i → (st.table i).parent ≠ some idx) :
    FsTree (fsDrop st idx) := by
  have rootNe : fsRootIdx ≠ idx := (tree.ne_root_of_parent child).symm
  -- were `idx` the working directory it would be its own live child
  have cwdNe : st.cwd ≠ idx := by
    intro same
    exact childless idx live (same ▸ child)
  have stays {i : FsIdx} (live' : (fsDrop st idx).Live i) : i ≠ idx ∧ st.Live i := by
    have ne : i ≠ idx := by
      intro same
      subst same
      exact live' (by simp)
    exact ⟨ne, by simpa [FsState.Live, ne] using live'⟩
  refine ⟨by simpa [rootNe] using tree.rootDir, by simpa using tree.rootParent, ?_, ?_, ?_,
    by simpa [cwdNe] using tree.cwdDir⟩
  · intro i live' above
    exact tree.rootOnly i (stays live').2 (by simpa using above)
  · intro i p live' above
    have above' : (st.table i).parent = some p := by simpa using above
    have parentNe : p ≠ idx := by
      intro same
      subst same
      exact childless i (stays live').2 above'
    simpa [parentNe] using tree.parentDir i p (stays live').2 above'
  · intro i live'
    have same : (fsDrop st idx).parentOf = st.parentOf := by
      funext j; simp [FsState.parentOf]
    rw [same]
    exact tree.rooted i (stays live').2

/-- Files have no live children. -/
theorem childless_of_file (tree : FsTree st) {idx : FsIdx} (file : (st.table idx).type = .file) :
    ∀ i, st.Live i → (st.table i).parent ≠ some idx := by
  intro i live above
  have dir := tree.parentDir i idx live above
  rw [file] at dir
  cases dir

/-- Every call keeps the tree. -/
theorem run (tree : FsTree st) (op : FsOp) : FsTree (op.run st) := by
  have step := fsStep_run st op
  generalize op.run st = st' at step
  cases step with
  | idle => exact tree
  | cd dest => exact tree.chdir dest
  | mkdir _ _ free => exact tree.place (fsAlloc_free free) _
  | createFile _ _ free => exact tree.place (fsAlloc_free free) _
  | writeFile _ => exact tree.fill _ _
  | rm found =>
    obtain ⟨⟨live, child, -⟩, file⟩ := named_of_fsChild found
    exact tree.drop child live (tree.childless_of_file file)
  | rmdir found empty =>
    obtain ⟨⟨live, child, -⟩, -⟩ := named_of_fsChild found
    exact tree.drop child live (fsDirEmpty_iff.mp empty)

/-- The root is at most 31 parent links away. -/
theorem climbs (tree : FsTree st) {i : FsIdx} (live : st.Live i) :
    ∃ k ≤ 31, climb st.parentOf k i = some fsRootIdx := by
  obtain ⟨k, arrives⟩ := (tree.rooted i live).exists_climb
  have short : k < Fintype.card FsIdx := climb_lt_card tree.rootParent arrives
  rw [Fintype.card_fin] at short
  exact ⟨k, Nat.lt_succ_iff.mp short, arrives⟩

end FsTree

theorem fsTree_fsRun (ops : List FsOp) : FsTree (fsRun fsInit ops) :=
  fsRun_induction (P := FsTree) (fun _ op tree => tree.run op) FsTree.init ops

/-! ## The walk of `fs_print_path` -/

/-- With room for the climb to the root, the walk stops at the root. -/
theorem fsPathWalk_of_climb {st : FsState} :
    ∀ {k room : Nat} {i : FsIdx}, climb st.parentOf k i = some fsRootIdx → k ≤ room →
      ∃ stack, fsPathWalk st room (some i) = some (stack, some fsRootIdx) ∧ stack.length ≤ k := by
  intro k
  induction k with
  | zero =>
    intro room i arrives _
    obtain rfl : i = fsRootIdx := Option.some.inj arrives
    cases room <;> exact ⟨[], by simp [fsPathWalk], le_rfl⟩
  | succ k ih =>
    intro room i arrives le
    obtain ⟨room, rfl⟩ : ∃ r, room = r + 1 := ⟨room - 1, by omega⟩
    by_cases isRoot : i = fsRootIdx
    · subst isRoot
      exact ⟨[], by simp [fsPathWalk], Nat.zero_le _⟩
    · obtain ⟨p, above, rest⟩ := Option.bind_eq_some_iff.mp arrives
      obtain ⟨stack, walk, short⟩ := ih rest (Nat.le_of_succ_le_succ le)
      refine ⟨i :: stack, ?_, Nat.succ_le_succ short⟩
      rw [fsPathWalk, if_neg isRoot, show (st.table i).parent = some p from above, walk]
      rfl

/-- **The tree invariant.**  In every reachable state the table is a tree of depth at
most 31 under the root, the working directory is one of its directories, and the walk
of `fs_print_path` from it ends at the root inside its stack. -/
theorem fs_tree_invariant (ops : List FsOp) :
    let st := fsRun fsInit ops
    ((st.table fsRootIdx).type = .dir ∧ (st.table fsRootIdx).parent = none ∧
      ∀ i, st.Live i → (st.table i).parent = none → i = fsRootIdx) ∧
    (∀ i, st.Live i → i ≠ fsRootIdx →
      ∃ p, (st.table i).parent = some p ∧ (st.table p).type = .dir) ∧
    (∀ i, st.Live i → ∃ k ≤ 31, climb st.parentOf k i = some fsRootIdx) ∧
    (st.table st.cwd).type = .dir ∧
    ∃ stack, fsPathWalk st fsMaxEntries (some st.cwd) = some (stack, some fsRootIdx) ∧
      stack.length ≤ 31 := by
  intro st
  have tree : FsTree st := fsTree_fsRun ops
  refine ⟨⟨tree.rootDir, tree.rootParent, tree.rootOnly⟩, ?_, fun i live => tree.climbs live,
    tree.cwdDir, ?_⟩
  · intro i live notRoot
    cases above : (st.table i).parent with
    | none => exact (notRoot (tree.rootOnly i live above)).elim
    | some p => exact ⟨p, rfl, tree.parentDir i p live above⟩
  · obtain ⟨k, short, arrives⟩ := tree.climbs (FsTree.live_of_dir tree.cwdDir)
    obtain ⟨stack, walk, length⟩ :=
      fsPathWalk_of_climb arrives (short.trans (by decide : 31 ≤ fsMaxEntries))
    exact ⟨stack, walk, length.trans short⟩

end MOKernel
