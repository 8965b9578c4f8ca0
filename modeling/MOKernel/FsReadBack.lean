import MOKernel.FsTree
import MOKernel.FsFrame

/-!
# Read after write

`Stored st d name idx body` says that in directory `d` the name `name` resolves to
the file `idx` holding the string `body`.  A successful `fs_write_file`
establishes it, and every call that does not write or remove that name in `d`, and
does not create an entry of `d` stored under that name, keeps it: the slot is not
recycled, the first match stays the same slot, the directory is not empty and so
cannot be removed, and writes elsewhere land in other slots.
-/

namespace MOKernel

/-- In the directory `d` the name resolves to the file `idx`, which holds `body`. -/
structure Stored (st : FsState) (d : FsIdx) (name : CStr) (idx : FsIdx)
    (body : List UInt8) : Prop where
  dir : (st.table d).type = .dir
  found : fsFindIn st name (some d) = some idx
  file : (st.table idx).type = .file
  body : (st.table idx).body = body

/-- The call leaves the name `name` of directory `d` alone: executed in `d`, it neither
writes nor removes that name successfully and creates nothing stored under it. -/
def FsOp.Spares (st : FsState) (d : FsIdx) (name : CStr) (op : FsOp) : Prop :=
  st.cwd = d →
    match op with
    | .writeFile other data => other = name → (FsOp.writeFile other data).Fails st
    | .rm other => other = name → (FsOp.rm other).Fails st
    | .mkdir other | .createFile other => other.chars.take fsMaxNameLen ≠ name.chars
    | _ => True

/-- Every call of the run spares the name, in the state it meets. -/
def SparesAll (d : FsIdx) (name : CStr) : FsState → List FsOp → Prop
  | _, [] => True
  | st, op :: ops => op.Spares st d name ∧ SparesAll d name (op.run st) ops

namespace Stored

variable {st : FsState} {d idx : FsIdx} {name : CStr} {body : List UInt8}

theorem named (stored : Stored st d name idx body) : FsNamed st (some d) name.chars idx :=
  (fsFindIn_eq_some_iff.mp stored.found).1

/-- Lookup still lands on the same slot when that slot kept its naming fields and no
entry of the directory gained the name. -/
theorem found_of {st' : FsState} (stored : Stored st d name idx body)
    (kept : FsNamed st' (some d) name.chars idx)
    (noNew : ∀ j, FsNamed st' (some d) name.chars j → FsNamed st (some d) name.chars j) :
    fsFindIn st' name (some d) = some idx :=
  fsFindIn_eq_some_iff.mpr
    ⟨kept, fun j before there => (fsFindIn_eq_some_iff.mp stored.found).2 j before (noNew j there)⟩

/-- A successful lookup in the working directory that lands on the stored slot used the
stored name in the stored directory. -/
theorem name_of_child (stored : Stored st d name idx body) {other : CStr} {type : FsType}
    (child : fsChild st other type = some idx) : st.cwd = d ∧ other = name := by
  obtain ⟨⟨-, parent, storedName⟩, -⟩ := named_of_fsChild child
  refine ⟨?_, CStr.ext (storedName.symm.trans stored.named.2.2)⟩
  exact Option.some.inj (parent.symm.trans stored.named.2.1)

theorem place (stored : Stored st d name idx body) {slot : FsIdx}
    (free : (st.table slot).type = .none) {type : FsType} {other : CStr}
    (spares : st.cwd = d → other.chars.take fsMaxNameLen ≠ name.chars) :
    Stored (fsPlace st slot type other) d name idx body := by
  have idxNe : idx ≠ slot := FsState.Live.ne_free stored.named.1 free
  have dirNe : d ≠ slot := (FsTree.live_of_dir stored.dir).ne_free free
  refine ⟨by simpa [dirNe] using stored.dir, stored.found_of ?_ ?_,
    by simpa [idxNe] using stored.file, by simpa [idxNe] using stored.body⟩
  · simpa [FsNamed, idxNe] using stored.named
  · intro j there
    by_cases new : j = slot
    · subst new
      obtain ⟨-, parent, named⟩ := there
      rw [fsPlace_parent] at parent
      rw [fsPlace_storedName] at named
      exact (spares (Option.some.inj parent) named).elim
    · simpa [FsNamed, new] using there

theorem fill (stored : Stored st d name idx body) {j : FsIdx} (ne : j ≠ idx) (data : CStr) :
    Stored (fsFill st j data) d name idx body where
  dir := by simpa using stored.dir
  found := stored.found_of (by simpa [FsNamed] using stored.named)
    fun i there => by simpa [FsNamed] using there
  file := by simpa using stored.file
  body := by simpa [ne.symm] using stored.body

theorem drop (stored : Stored st d name idx body) {j : FsIdx} (ne : j ≠ idx) (dirNe : j ≠ d) :
    Stored (fsDrop st j) d name idx body where
  dir := by simpa [dirNe.symm] using stored.dir
  found := stored.found_of (by simpa [FsNamed, ne.symm] using stored.named) fun i there => by
    have iNe : i ≠ j := by
      intro same
      subst same
      exact there.1 (by simp)
    simpa [FsNamed, iNe] using there
  file := by simpa [ne.symm] using stored.file
  body := by simpa [ne.symm] using stored.body

/-- A call that spares the name keeps what is stored under it. -/
theorem run (stored : Stored st d name idx body) {op : FsOp} (spares : op.Spares st d name) :
    Stored (op.run st) d name idx body := by
  have step := fsStep_run st op
  generalize op.run st = st' at step
  cases step with
  | idle => exact stored
  | cd _ => exact ⟨stored.dir, stored.found, stored.file, stored.body⟩
  | mkdir _ _ free => exact stored.place (fsAlloc_free free) spares
  | createFile _ _ free => exact stored.place (fsAlloc_free free) spares
  | @writeFile other data j child =>
    refine stored.fill ?_ data
    intro same
    subst same
    obtain ⟨inDir, same⟩ := stored.name_of_child child
    exact writeFile_succeeds child (spares inDir same)
  | @rm other j child =>
    refine stored.drop ?_ ?_
    · intro same
      subst same
      obtain ⟨inDir, same⟩ := stored.name_of_child child
      exact rm_succeeds child (spares inDir same)
    · intro same
      subst same
      exact absurd ((named_of_fsChild child).2.symm.trans stored.dir) (by decide)
  | @rmdir other j child empty =>
    refine stored.drop ?_ ?_
    · intro same
      subst same
      exact absurd ((named_of_fsChild child).2.symm.trans stored.file) (by decide)
    · -- the directory has the stored file as a child
      intro same
      subst same
      exact fsDirEmpty_iff.mp empty idx stored.named.1 stored.named.2.1

theorem fsRun (stored : Stored st d name idx body) {ops : List FsOp}
    (spares : SparesAll d name st ops) : Stored (fsRun st ops) d name idx body := by
  induction ops generalizing st with
  | nil => exact stored
  | cons op ops ih => exact ih (stored.run spares.1) spares.2

/-- Reading the name in its directory prints what is stored and a newline. -/
theorem read (stored : Stored st d name idx body) :
    (fsReadFile { st with cwd := d } name).out = body ++ ascii "\n" := by
  have child : fsChild { st with cwd := d } name .file = some idx := by
    rw [fsChild_eq_some_iff, fsFindIn_chdir]
    exact ⟨stored.found, stored.file⟩
  rw [fsReadFile_of_child child]
  exact congrArg (· ++ ascii "\n") stored.body

end Stored

/-- A successful write stores the first 255 characters. -/
theorem stored_of_write {st : FsState} (tree : FsTree st) {name data : CStr}
    (wrote : ¬ (FsOp.writeFile name data).Fails st) :
    ∃ idx, Stored ((FsOp.writeFile name data).run st) st.cwd name idx
      (data.chars.take (fsMaxFileSize - 1)) := by
  rcases fsWriteFile_cases st name data with ⟨-, failed⟩ | ⟨idx, child, filled⟩
  · exact (wrote (by rw [FsOp.Fails, failed])).elim
  · obtain ⟨found, file⟩ := fsChild_eq_some_iff.mp child
    have before : Stored st st.cwd name idx (st.table idx).body :=
      ⟨tree.cwdDir, found, file, rfl⟩
    rw [FsOp.run, filled]
    exact ⟨idx, by simpa using tree.cwdDir,
      before.found_of (by simpa [FsNamed] using before.named)
        fun i there => by simpa [FsNamed] using there,
      by simpa using file, fsFill_body st idx data⟩

/-- **Read after write.**  After a successful write of `data` to `name` in the working
directory `d` of a reachable state, any run of calls that spare `name` in `d` leaves `d` a
live directory in which reading `name` prints the first 255 characters of `data`. -/
theorem fs_read_after_write (before : List FsOp) (name data : CStr) (ops : List FsOp)
    (wrote : ¬ (FsOp.writeFile name data).Fails (fsRun fsInit before))
    (spares : SparesAll (fsRun fsInit before).cwd name
      ((FsOp.writeFile name data).run (fsRun fsInit before)) ops) :
    let d := (fsRun fsInit before).cwd
    let st := fsRun fsInit (before ++ .writeFile name data :: ops)
    (st.table d).type = .dir ∧
      (fsReadFile { st with cwd := d } name).out = data.chars.take 255 ++ ascii "\n" := by
  obtain ⟨idx, stored⟩ := stored_of_write (fsTree_fsRun before) wrote
  rw [fsRun_append, fsRun_cons]
  exact ⟨(stored.fsRun spares).dir, (stored.fsRun spares).read⟩

def noteName : CStr := ⟨ascii "note", by decide⟩
def otherName : CStr := ⟨ascii "other", by decide⟩

/-- A file written in the root survives work on its namesake in a subdirectory. -/
theorem fs_read_after_write_note :
    let d := (fsRun fsInit [.createFile noteName]).cwd
    let st := fsRun fsInit ([.createFile noteName] ++ .writeFile noteName otherName ::
      [.mkdir otherName, .cd otherName, .createFile noteName, .rm noteName])
    (st.table d).type = .dir ∧
      (fsReadFile { st with cwd := d } noteName).out =
        otherName.chars.take 255 ++ ascii "\n" :=
  fs_read_after_write [.createFile noteName] noteName otherName
    [.mkdir otherName, .cd otherName, .createFile noteName, .rm noteName]
    (fun fails => absurd fails (by unfold FsOp.Fails; decide +kernel))
    ⟨fun _ => by decide +kernel, fun _ => trivial,
      fun inRoot => absurd inRoot (by decide +kernel),
      fun inRoot => absurd inRoot (by decide +kernel), trivial⟩

end MOKernel
