import MOKernel.FsPath

/-!
# mkdir, cd, cd back, rmdir

The four calls with one name undo each other (`mkdir_round_trip_iff`) unless the name is the
one that `fs_cd` keeps for itself and `fs_mkdir` does not: a directory called `/` can be
created but not entered.
-/

namespace MOKernel

/-- The same working directory and the same live entries; a slot that is free on both sides
may differ. -/
structure SameFiles (st st' : FsState) : Prop where
  cwd : st'.cwd = st.cwd
  live : ∀ i, st'.Live i ↔ st.Live i
  entry : ∀ i, st.Live i → st'.table i = st.table i

/-- `fs_mkdir(name)` and then `fs_cd(name)`. -/
def mkdirEnter (st : FsState) (name : CStr) : FsResult Int := fsCd (fsMkdir st name).st name

/-- `fs_cd("..")` after these. -/
def mkdirLeave (st : FsState) (name : CStr) : FsResult Int :=
  fsCd (mkdirEnter st name).st dotDotName

/-- `fs_rmdir(name)` after these. -/
def mkdirRemove (st : FsState) (name : CStr) : FsResult Int :=
  fsRmdir (mkdirLeave st name).st name

/-- The directory `s` that `fs_mkdir(name)` returned can be entered by its name and left with
`..`, and removing it by its name brings back what was there before. -/
structure MkdirUndone (st : FsState) (name : CStr) (s : FsIdx) : Prop where
  entered : (mkdirEnter st name).ret = 0 ∧ (mkdirEnter st name).st.cwd = s
  left : (mkdirLeave st name).ret = 0 ∧ (mkdirLeave st name).st.cwd = st.cwd
  removed : (mkdirRemove st name).ret = 0 ∧ SameFiles st (mkdirRemove st name).st

variable {st : FsState} {name : CStr} {s : FsIdx}

/-- What a successful `fs_mkdir` has found and done. -/
theorem fsMkdir_made (made : (fsMkdir st name).ret = (s.val : Int)) :
    MkdirAdmits name ∧ (∀ i, ¬ FsNamed st (some st.cwd) name.chars i) ∧
      (st.table s).type = .none ∧ (fsMkdir st name).st = fsPlace st s .dir name := by
  have admits : MkdirAdmits name := by
    by_contra rejects
    rw [(fsMkdir_of_not_admits rejects st).1] at made
    omega
  rw [fsMkdir_of_admits admits] at made ⊢
  rcases fsAdd_cases st name .dir "mkdir: '" "mkdir: filesystem full\n" with
    ⟨fails, -, -⟩ | ⟨slot, fresh, free, placed⟩
  · rw [fails] at made
    omega
  · rw [placed] at made ⊢
    obtain rfl : slot = s := Fin.ext (Int.ofNat_inj.mp made)
    exact ⟨admits, fsFindIn_eq_none_iff.mp fresh, fsAlloc_free free, rfl⟩

/-- An empty directory is removed by its name. -/
theorem fsRmdir_of_child (admits : MkdirAdmits name) (child : fsChild st name .dir = some s)
    (empty : fsDirEmpty st s = true) : fsRmdir st name = ⟨0, [], fsDrop st s⟩ := by
  unfold fsRmdir
  rw [if_neg (by rw [strcmp_dot, strcmp_dotDot, not_or]; exact admits.2), child]
  simp only [empty, if_true]

/-- The new directory is empty: live entries hang under directories. -/
theorem fsDirEmpty_place (tree : FsTree st) (free : (st.table s).type = .none) (type : FsType) :
    fsDirEmpty (fsPlace st s type name) s = true := by
  refine fsDirEmpty_iff.mpr fun i live above => ?_
  rcases eq_or_ne i s with rfl | ne
  · rw [fsPlace_parent] at above
    injection above with same
    exact tree.cwd_ne_free free same
  · rw [fsPlace_of_ne _ _ _ ne] at live above
    have dir := tree.parentDir i s live above
    rw [free] at dir
    cases dir

theorem sameFiles_drop_place (free : (st.table s).type = .none) (type : FsType) :
    SameFiles st (fsDrop (fsPlace st s type name) s) := by
  refine ⟨rfl, fun i => ?_, fun i live => ?_⟩
  · rcases eq_or_ne i s with rfl | ne
    · simp [FsState.Live, free]
    · simp [FsState.Live, ne]
  · have ne := live.ne_free free
    rw [fsDrop_of_ne _ ne, fsPlace_of_ne _ _ _ ne]

/-- An ordinary name leads there and back. -/
theorem mkdirUndone_of_ordinary (tree : FsTree st) (short : name.chars.length ≤ fsMaxNameLen)
    (made : (fsMkdir st name).ret = (s.val : Int)) (ordinary : name.chars ≠ ascii "/") :
    MkdirUndone st name s := by
  obtain ⟨admits, fresh, free, placed⟩ := fsMkdir_made made
  have plain : CdName name := ⟨admits.1, ordinary, admits.2.1, admits.2.2⟩
  have found := fsFindIn_place_self free (by decide : FsType.dir ≠ .none) short fresh
  have enter : mkdirEnter st name = ⟨0, [], { fsPlace st s .dir name with cwd := s }⟩ := by
    rw [mkdirEnter, placed]
    exact fsCd_child plain found (fsPlace_type ..)
  have cwdDir : ((fsPlace st s .dir name).table st.cwd).type = .dir := by
    rw [fsPlace_of_ne _ _ _ (tree.cwd_ne_free free)]
    exact tree.cwdDir
  have leave : mkdirLeave st name = ⟨0, [], fsPlace st s .dir name⟩ := by
    rw [mkdirLeave, enter]
    exact fsCd_dotDot_up (fsPlace_parent ..) cwdDir
  have remove : mkdirRemove st name = ⟨0, [], fsDrop (fsPlace st s .dir name) s⟩ := by
    rw [mkdirRemove, leave]
    exact fsRmdir_of_child admits (fsChild_eq_some_iff.mpr ⟨found, fsPlace_type ..⟩)
      (fsDirEmpty_place tree free .dir)
  refine ⟨?_, ?_, ?_⟩
  · rw [enter]
    exact ⟨rfl, rfl⟩
  · rw [leave]
    exact ⟨rfl, rfl⟩
  · rw [remove]
    exact ⟨rfl, sameFiles_drop_place free .dir⟩

/-- `fs_cd("/")` goes to the root, which no new directory is. -/
theorem not_mkdirUndone_slash (tree : FsTree st) (made : (fsMkdir st name).ret = (s.val : Int))
    (slash : name.chars = ascii "/") : ¬ MkdirUndone st name s := by
  intro undone
  obtain ⟨-, -, free, -⟩ := fsMkdir_made made
  obtain rfl : name = slashName := CStr.ext slash
  have atRoot := undone.entered.2
  rw [mkdirEnter, fsCd_slash] at atRoot
  exact tree.root_ne_free free atRoot

/-- **mkdir round trip.**  In every reachable state, a directory that `fs_mkdir` has created
under a name of at most 16 characters can be entered, left and removed by that name, and
everything is as before, exactly when the name is not `/`. -/
theorem mkdir_round_trip_iff (ops : List FsOp) (short : name.chars.length ≤ fsMaxNameLen)
    (made : (fsMkdir (fsRun fsInit ops) name).ret = (s.val : Int)) :
    MkdirUndone (fsRun fsInit ops) name s ↔ name.chars ≠ ascii "/" := by
  have tree := fsTree_fsRun ops
  exact ⟨fun undone slash => not_mkdirUndone_slash tree made slash undone,
    mkdirUndone_of_ordinary tree short made⟩

/-- A directory called `docs`. -/
def docsName : CStr := ⟨ascii "docs", by decide⟩

theorem mkdir_round_trip_docs :
    (fsMkdir (fsRun fsInit []) docsName).ret = ((1 : FsIdx).val : Int) ∧
      MkdirUndone (fsRun fsInit []) docsName 1 :=
  ⟨by decide, (mkdir_round_trip_iff [] (by decide) (by decide)).mpr (by decide)⟩

/-- `mkdir /` creates a directory that cannot be entered. -/
theorem mkdir_slash_not_entered :
    ¬ ∀ (ops : List FsOp) (name : CStr) (s : FsIdx), name.chars.length ≤ fsMaxNameLen →
      (fsMkdir (fsRun fsInit ops) name).ret = (s.val : Int) →
        MkdirUndone (fsRun fsInit ops) name s := by
  intro undone
  exact not_mkdirUndone_slash (fsTree_fsRun []) (by decide) rfl
    (undone [] slashName 1 (by decide) (by decide))

end MOKernel
