import MOKernel.FsAbstracts
import MOKernel.FsFrame

/-!
# The table refines the store

One lemma for each command, and from these the simulation: the transcript of every run
that cuts no name onto a sibling's is one of the hierarchical store.
-/

namespace MOKernel

/-! ## The commands -/

/-- The store allows the answer of the call, and the table it leaves still stands for
what the store becomes. -/
def FsSimulates (st : FsState) (h : FsStore) (op : FsOp) : Prop :=
  ∃ h', FsServes h op (op.reply st) h' ∧ FsAbstracts (op.run st) h'

theorem strcmp_special {name : CStr} :
    strcmp name.chars (ascii ".") = 0 ∨ strcmp name.chars (ascii "..") = 0 ↔
      name.chars = ascii "." ∨ name.chars = ascii ".." :=
  or_congr strcmp_dot strcmp_dotDot

theorem FsResult.reply_slot (slot : FsIdx) (text : List UInt8) (st : FsState) :
    (⟨(slot.val : Int), text, st⟩ : FsResult Int).reply = .prints text := by
  unfold FsResult.reply FsReply.prints
  rw [decide_eq_false (idx_ne_failure slot)]

namespace FsAbstracts

variable {st : FsState} {h : FsStore}

/-- The part mkdir and touch share: the name is taken, the table is full, or there is a
new child. -/
theorem add_cases (abs : FsAbstracts st h) {name : CStr} (noClash : ¬TruncationClash st name)
    (type : FsType) (live : type ≠ .none) (dup full : String) :
    (fsAdd st name type dup full = ⟨-1, report dup name "' already exists\n", st⟩ ∧
      h.child name.chars ≠ none) ∨
    (fsAdd st name type dup full = ⟨-1, ascii full, st⟩ ∧ h.child name.chars = none ∧
      h.size = fsMaxEntries) ∨
    ∃ slot, fsAdd st name type dup full = ⟨(slot.val : Int), [], fsPlace st slot type name⟩ ∧
      h.child name.chars = none ∧ h.size < fsMaxEntries ∧
      ∃ absent : h.child name.stored = none, FsAbstracts (fsPlace st slot type name)
        (h.add name.stored ((fsPlace st slot type name).table slot).node absent) := by
  unfold fsAdd
  cases found : fsFindIn st name (some st.cwd) with
  | some i =>
    refine .inl ⟨rfl, ?_⟩
    rw [abs.child_of_find found]
    nofun
  | none =>
    have new := abs.find_eq_none_iff.mp found
    cases free : fsAlloc st with
    | none => exact .inr (.inl ⟨rfl, new, abs.size_of_full free⟩)
    | some slot =>
      -- what is stored is the whole name, or no sibling has it
      have fresh : fsFindIn st (name.take fsMaxNameLen) (some st.cwd) = none := by
        by_contra taken
        refine noClash ⟨?_, taken, Option.ne_none_iff_exists'.mpr ⟨_, free⟩⟩
        by_contra short
        rw [CStr.take_of_length_le (Nat.not_lt.mp short)] at taken
        exact taken found
      have absent : h.child name.stored = none := abs.find_eq_none_iff.mp fresh
      exact .inr (.inr ⟨slot, rfl, new, abs.size_of_room free, absent,
        abs.place (fsAlloc_free free) live absent⟩)

theorem mkdir (abs : FsAbstracts st h) {name : CStr} (noClash : ¬TruncationClash st name) :
    FsSimulates st h (.mkdir name) := by
  change ∃ h', FsServes h _ (fsMkdir st name).reply h' ∧ FsAbstracts (fsMkdir st name).st h'
  rcases eq_or_ne name.chars [] with empty | nonempty
  · unfold fsMkdir
    rw [if_pos empty]
    exact ⟨h, .mkdirInvalid empty, abs⟩
  by_cases special : name.chars = ascii "." ∨ name.chars = ascii ".."
  · unfold fsMkdir
    rw [if_neg nonempty, if_pos (strcmp_special.mpr special)]
    exact ⟨h, .mkdirSpecial special, abs⟩
  have admits : MkdirAdmits name := ⟨nonempty, not_or.mp special⟩
  rw [fsMkdir_of_admits admits]
  rcases abs.add_cases noClash .dir (by decide) "mkdir: '" "mkdir: filesystem full\n" with
    ⟨same, taken⟩ | ⟨same, new, full⟩ | ⟨slot, same, new, room, absent, placed⟩
  · rw [same]
    exact ⟨h, .mkdirExists admits taken, abs⟩
  · rw [same]
    exact ⟨h, .mkdirFull admits new full, abs⟩
  · have dir := FsEntry.node_eq_dir.mpr (fsPlace_type st slot .dir name)
    rw [same, FsResult.reply_slot]
    rw [dir] at placed
    exact ⟨_, .mkdir admits new room absent, placed⟩

theorem createFile (abs : FsAbstracts st h) {name : CStr} (noClash : ¬TruncationClash st name) :
    FsSimulates st h (.createFile name) := by
  change ∃ h', FsServes h _ (fsCreateFile st name).reply h' ∧
    FsAbstracts (fsCreateFile st name).st h'
  rcases eq_or_ne name.chars [] with empty | nonempty
  · unfold fsCreateFile
    rw [if_pos empty]
    exact ⟨h, .touchInvalid empty, abs⟩
  rw [fsCreateFile_of_nonempty nonempty]
  rcases abs.add_cases noClash .file (by decide) "touch: '" "touch: filesystem full\n" with
    ⟨same, taken⟩ | ⟨same, new, full⟩ | ⟨slot, same, new, room, absent, placed⟩
  · rw [same]
    exact ⟨h, .touchExists nonempty taken, abs⟩
  · rw [same]
    exact ⟨h, .touchFull nonempty new full, abs⟩
  · have file := FsEntry.node_of_file (fsPlace_type st slot .file name)
    rw [same, FsResult.reply_slot]
    rw [file] at placed
    exact ⟨_, .touch _ nonempty new room absent, placed⟩

theorem writeFile (abs : FsAbstracts st h) (name data : CStr) :
    FsSimulates st h (.writeFile name data) := by
  change ∃ h', FsServes h _ (.prints (fsWriteFile st name data).out) h' ∧
    FsAbstracts (fsWriteFile st name data).st h'
  unfold fsWriteFile
  cases child : fsChild st name .file with
  | none => exact ⟨h, .writeMissing (abs.not_file_of_fsChild child), abs⟩
  | some idx =>
    have file := abs.file_of_fsChild child
    exact ⟨_, .write file, abs.fill child data file⟩

theorem readFile (abs : FsAbstracts st h) (name : CStr) : FsSimulates st h (.readFile name) := by
  change ∃ h', FsServes h _ (.prints (fsReadFile st name).out) h' ∧
    FsAbstracts (fsReadFile st name).st h'
  unfold fsReadFile
  cases child : fsChild st name .file with
  | none => exact ⟨h, .catMissing (abs.not_file_of_fsChild child), abs⟩
  | some idx => exact ⟨h, .cat (abs.file_of_fsChild child), abs⟩

theorem rm (abs : FsAbstracts st h) (name : CStr) : FsSimulates st h (.rm name) := by
  change ∃ h', FsServes h _ (fsRm st name).reply h' ∧ FsAbstracts (fsRm st name).st h'
  unfold fsRm
  cases child : fsChild st name .file with
  | none => exact ⟨h, .rmMissing (abs.not_file_of_fsChild child), abs⟩
  | some idx =>
    have file := abs.file_of_fsChild child
    exact ⟨_, .rm file, abs.drop (named_of_fsChild child).1 _⟩

theorem rmdir (abs : FsAbstracts st h) (name : CStr) : FsSimulates st h (.rmdir name) := by
  change ∃ h', FsServes h _ (fsRmdir st name).reply h' ∧ FsAbstracts (fsRmdir st name).st h'
  unfold fsRmdir
  split
  · next special => exact ⟨h, .rmdirSpecial (strcmp_special.mp special), abs⟩
  · next plain =>
    have plain := not_or.mp fun special => plain (strcmp_special.mpr special)
    cases child : fsChild st name .dir with
    | none => exact ⟨h, .rmdirMissing plain (abs.not_dir_of_fsChild child), abs⟩
    | some idx =>
      have dir := abs.dir_of_fsChild child
      have named := (named_of_fsChild child).1
      have childless := abs.childless_iff named
      dsimp only
      split
      · next empty =>
        have gone := childless.mpr (fsDirEmpty_iff.mp empty)
        exact ⟨_, .rmdir plain dir gone, abs.drop named gone⟩
      · next occupied =>
        have stays : ¬h.Childless name.chars :=
          fun gone => occupied (fsDirEmpty_iff.mpr (childless.mp gone))
        exact ⟨h, .rmdirNotEmpty plain dir stays, abs⟩

/-- The working directory is the root exactly when its path is empty. -/
theorem cwd_root_iff (abs : FsAbstracts st h) : st.cwd = fsRootIdx ↔ h.cwd = [] := by
  constructor
  · intro root
    have path := abs.cwd
    rw [root] at path
    exact abs.tree.path_unique path .root
  · intro root
    have path := abs.cwd
    rw [root] at path
    exact labelPath_nil_iff.mp path

theorem pwd (abs : FsAbstracts st h) : FsSimulates st h .pwd := by
  have text : fsPwd st = some h.pwdText := by
    unfold fsPwd FsStore.pwdText
    rcases eq_or_ne st.cwd fsRootIdx with root | below
    · rw [if_pos (abs.cwd_root_iff.mp root)]
      unfold fsPrintPath
      rw [if_pos root, Option.map_some]
    · obtain ⟨names, path, printed⟩ := fsPrintPath_of_live abs.tree abs.cwd_live below
      rw [if_neg fun root => below (abs.cwd_root_iff.mpr root), printed, Option.map_some,
        abs.tree.path_unique path abs.cwd]
  change ∃ h', FsServes h _ ⟨false, fsPwd st⟩ h' ∧ FsAbstracts st h'
  rw [text]
  exact ⟨h, .pwd, abs⟩

/-- An ordinary name is looked up in the working directory. -/
theorem fsCd_plain {name : CStr} (plain : CdName name) :
    fsCd st name = (fsFindIn st name (some st.cwd)).elim
      ⟨-1, report "cd: '" name "': no such directory\n", st⟩ fun target =>
        if (st.table target).type ≠ .dir then ⟨-1, report "cd: '" name "': not a directory\n", st⟩
        else ⟨0, [], { st with cwd := target }⟩ := by
  have notDots : strcmp name.chars (ascii "..") ≠ 0 := fun dots =>
    plain.dotDot (strcmp_dotDot.mp dots)
  have notDot : strcmp name.chars (ascii ".") ≠ 0 := fun dot => plain.dot (strcmp_dot.mp dot)
  have resolved : fsResolveDir st name = fsFindIn st name (some st.cwd) := by
    rw [fsResolveDir, if_neg notDot, if_neg notDots]
  rw [← resolved]
  unfold fsCd
  rw [if_neg plain.nonempty, if_neg plain.slash, if_neg fun top => notDots top.1]
  cases fsResolveDir st name with
  | none => rfl
  | some target => rfl

/-- `cd ..` goes to the path without its last name. -/
theorem cdUp (abs : FsAbstracts st h) {name : CStr} (dots : name.chars = ascii "..") :
    FsSimulates st h (.cd name) := by
  obtain rfl : name = dotDotName := CStr.ext dots
  change ∃ h', FsServes h _ (fsCd st dotDotName).reply h' ∧ FsAbstracts (fsCd st dotDotName).st h'
  cases above : (st.table st.cwd).parent with
  | none =>
    have root := abs.tree.rootOnly st.cwd abs.cwd_live above
    have path : FsPathTo st fsRootIdx h.cwd.dropLast := by
      rw [abs.cwd_root_iff.mp root]
      exact .root
    rw [fsCd_dotDot_root above]
    exact ⟨_, .cdUp dots, abs.chdir path abs.tree.rootDir h.upDir⟩
  | some p =>
    have dir := abs.tree.parentDir st.cwd p abs.cwd_live above
    have path : FsPathTo st p h.cwd.dropLast := by
      obtain ⟨up, toP⟩ := abs.tree.exists_path (FsTree.live_of_dir dir)
      rw [abs.tree.path_unique abs.cwd (.down above toP), List.dropLast_concat]
      exact toP
    rw [fsCd_dotDot_up above dir]
    exact ⟨_, .cdUp dots, abs.chdir path dir h.upDir⟩

theorem cd (abs : FsAbstracts st h) (name : CStr) : FsSimulates st h (.cd name) := by
  rcases eq_or_ne name.chars (ascii "..") with dots | notDots
  · exact abs.cdUp dots
  change ∃ h', FsServes h _ (fsCd st name).reply h' ∧ FsAbstracts (fsCd st name).st h'
  rcases eq_or_ne name.chars [] with empty | nonempty
  · unfold fsCd
    rw [if_pos empty]
    exact ⟨h, .cdNothing empty, abs⟩
  rcases eq_or_ne name.chars (ascii "/") with slash | notSlash
  · unfold fsCd
    rw [if_neg nonempty, if_pos slash]
    exact ⟨_, .cdRoot slash, abs.chdir .root abs.tree.rootDir h.rootDir⟩
  rcases eq_or_ne name.chars (ascii ".") with dot | notDot
  · have resolved : fsResolveDir st name = some st.cwd := by
      unfold fsResolveDir
      rw [if_pos (strcmp_dot.mpr dot)]
    rw [fsCd_of_resolved nonempty notSlash (fun top => notDots (strcmp_dotDot.mp top.1)) resolved
      abs.tree.cwdDir]
    exact ⟨h, .cdStay dot, abs⟩
  have plain : CdName name := ⟨nonempty, notSlash, notDot, notDots⟩
  rw [fsCd_plain plain]
  cases found : fsFindIn st name (some st.cwd) with
  | none => exact ⟨h, .cdMissing plain (abs.find_eq_none_iff.mp found), abs⟩
  | some target =>
    have child := abs.child_of_find found
    have named := abs.find_eq_some_iff.mp found
    dsimp only [Option.elim_some]
    split
    · next notDir =>
      cases node : (st.table target).node with
      | dir => exact absurd (FsEntry.node_eq_dir.mp node) notDir
      | file content =>
        rw [node] at child
        exact ⟨h, .cdFile plain child, abs⟩
    · next isDir =>
      have dir := not_not.mp isDir
      rw [FsEntry.node_eq_dir.mpr dir] at child
      exact ⟨_, .cdDown plain child, abs.chdir (abs.path_of_named named) dir child⟩

/-- The scan of the table lists the children of the working directory. -/
theorem lists (abs : FsAbstracts st h) :
    h.Lists (((List.finRange fsMaxEntries).filter fun i =>
      (st.table i).type ≠ .none ∧ (st.table i).parent = some st.cwd).map fun i =>
        ((st.table i).storedName, (st.table i).node)) := by
  constructor
  · rw [List.map_map]
    refine List.Nodup.map_on ?_ ((List.nodup_finRange _).filter _)
    intro i listedI j listedJ same
    obtain ⟨liveI, aboveI⟩ := of_decide_eq_true (List.mem_filter.mp listedI).2
    obtain ⟨liveJ, aboveJ⟩ := of_decide_eq_true (List.mem_filter.mp listedJ).2
    exact abs.unique i j liveI liveJ (aboveI.trans aboveJ.symm) same
  · intro name n
    rw [abs.child_eq_some_iff, List.mem_map]
    constructor
    · rintro ⟨i, listed, same⟩
      obtain ⟨live, above⟩ := of_decide_eq_true (List.mem_filter.mp listed).2
      exact ⟨i, ⟨live, above, congrArg Prod.fst same⟩, congrArg Prod.snd same⟩
    · rintro ⟨i, ⟨live, above, named⟩, same⟩
      exact ⟨i, List.mem_filter.mpr ⟨List.mem_finRange i, decide_eq_true ⟨live, above⟩⟩,
        Prod.ext named same⟩

/-- The line printed for an entry. -/
theorem listLine_node (e : FsEntry) :
    listLine (e.storedName, e.node) =
      ascii (if e.type = .dir then "[DIR]  " else "[FILE] ") ++ e.storedName ++ ascii "\n" := by
  unfold FsEntry.node
  split <;> rfl

theorem listFiles (abs : FsAbstracts st h) : FsSimulates st h .listFiles := by
  change ∃ h', FsServes h _ (.prints (fsListFiles st)) h' ∧ FsAbstracts st h'
  have lists := abs.lists
  unfold fsListFiles
  dsimp only
  split
  · next none =>
    rw [none] at lists
    exact ⟨h, .listEmpty lists, abs⟩
  · next some =>
    have listed := FsServes.list (fun none => some (List.map_eq_nil_iff.mp none)) lists
    rw [List.flatMap_map] at listed
    simp only [listLine_node] at listed
    exact ⟨h, listed, abs⟩

/-- **Step.**  A call that cuts no name onto a sibling's is simulated by the store. -/
theorem serves (abs : FsAbstracts st h) {op : FsOp} (clashFree : op.ClashFree st) :
    FsSimulates st h op := by
  cases op with
  | mkdir name => exact abs.mkdir clashFree
  | createFile name => exact abs.createFile clashFree
  | writeFile name data => exact abs.writeFile name data
  | readFile name => exact abs.readFile name
  | cd name => exact abs.cd name
  | rm name => exact abs.rm name
  | rmdir name => exact abs.rmdir name
  | pwd => exact abs.pwd
  | listFiles => exact abs.listFiles

end FsAbstracts

/-! ## Runs -/

theorem fsAbstracts_fsInit : FsAbstracts fsInit .empty where
  tree := FsTree.init
  unique := siblingsUnique_fsInit
  bounded := namesBounded_fsInit
  node path n := by
    have onlyRoot {i : FsIdx} (live : fsInit.Live i) : i = fsRootIdx := by
      by_contra ne
      exact live (by simp [fsInit, ne])
    rcases eq_or_ne path [] with rfl | below
    · constructor
      · intro root
        exact ⟨fsRootIdx, FsTree.live_of_dir FsTree.init.rootDir, .root, Option.some.inj root⟩
      · rintro ⟨i, live, -, rfl⟩
        rw [onlyRoot live]
        rfl
    · refine iff_of_false (fun found => ?_) ?_
      · have absent : (Hierarchy.empty : FsStore).node path = none := if_neg below
        rw [absent] at found
        cases found
      · rintro ⟨i, live, toI, -⟩
        rw [onlyRoot live] at toI
        exact below (FsTree.init.path_unique toI .root)
  cwd := .root

/-- **Refinement.**  In every run in which no call cuts a name onto a sibling's, what the
calls return and print is what a hierarchical store allows: the transcript is one of the
store's, from the empty store to the one the table then stands for. -/
theorem fs_refines_hierarchy (ops : List FsOp)
    (clashFree : ∀ (k : Nat) (op : FsOp), ops[k]? = some op →
      op.ClashFree (fsRun fsInit (ops.take k))) :
    ∃ h, Served FsServes .empty (transcript FsOp.run FsOp.reply fsInit ops) h ∧
      FsAbstracts (fsRun fsInit ops) h :=
  Served.of_simulation (C := fun st op => op.ClashFree st)
    (fun abs clashFree => abs.serves clashFree) fsAbstracts_fsInit ops clashFree

/-- A directory with a file in it, listed from inside. -/
theorem fs_refines_hierarchy_nested :
    ∃ h, Served FsServes .empty (transcript FsOp.run FsOp.reply fsInit
        [.mkdir aName, .cd aName, .createFile bName, .listFiles]) h ∧
      FsAbstracts (fsRun fsInit [.mkdir aName, .cd aName, .createFile bName, .listFiles]) h := by
  refine fs_refines_hierarchy [.mkdir aName, .cd aName, .createFile bName, .listFiles] ?_
  have short : ∀ op ∈ [FsOp.mkdir aName, .cd aName, .createFile bName, .listFiles],
      op.ShortName := by
    simp only [List.mem_cons, List.not_mem_nil, or_false]
    rintro op (rfl | rfl | rfl | rfl) name same <;> cases same <;> decide
  intro k op atK
  exact (short op (List.mem_of_getElem? atK)).clashFree _

end MOKernel
