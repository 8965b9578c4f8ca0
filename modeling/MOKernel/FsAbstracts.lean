import MOKernel.FsHierarchy

/-!
# What a table stands for

`FsAbstracts st h`: the live entries of the table sit at the paths of the store.  Lookup
and allocation then agree on both sides, and each of the updates of the table is an
operation of the store.
-/

namespace MOKernel

/-- What an entry is to its user. -/
def FsEntry.node (e : FsEntry) : HNode (List UInt8) :=
  if e.type = .dir then .dir else .file e.body

/-- The table stands for the store: its live entries sit at the store's paths. -/
structure FsAbstracts (st : FsState) (h : FsStore) : Prop where
  tree : FsTree st
  unique : SiblingsUnique st
  bounded : NamesBounded st
  node : ∀ path n, h.node path = some n ↔
    ∃ i, st.Live i ∧ FsPathTo st i path ∧ (st.table i).node = n
  cwd : FsPathTo st st.cwd h.cwd

/-! ## Paths of live entries -/

section Paths

variable {st st' : FsState} {i j : FsIdx} {path : List (List UInt8)}

theorem FsTree.exists_path (tree : FsTree st) (live : st.Live i) : ∃ path, FsPathTo st i path :=
  (tree.rooted i live).exists_labelPath

theorem FsTree.path_unique (tree : FsTree st) {path' : List (List UInt8)}
    (left : FsPathTo st i path) (right : FsPathTo st i path') : path = path' :=
  LabelPath.unique tree.rootParent left right

theorem FsTree.path_injective (tree : FsTree st) (unique : SiblingsUnique st)
    (liveI : st.Live i) (liveJ : st.Live j) (left : FsPathTo st i path)
    (right : FsPathTo st j path) : i = j :=
  left.injective (fun _ _ => tree.live_parent) (fun x y => unique x y) right liveI liveJ

/-- Entries that keep their parents and names keep their paths. -/
theorem FsTree.path_agree (tree : FsTree st) (tree' : FsTree st')
    (agree : ∀ i, st.Live i → (st'.table i).parent = (st.table i).parent ∧
      (st'.table i).storedName = (st.table i).storedName) (live : st.Live i) :
    FsPathTo st' i path ↔ FsPathTo st i path := by
  have keeps {path : List (List UInt8)} (old : FsPathTo st i path) : FsPathTo st' i path :=
    old.frame live (fun _ _ => tree.live_parent) agree
  refine ⟨fun new => ?_, keeps⟩
  obtain ⟨path', old⟩ := tree.exists_path live
  rwa [tree'.path_unique new (keeps old)]

end Paths

section Node

variable {e : FsEntry}

theorem FsEntry.node_eq_dir : e.node = .dir ↔ e.type = .dir := by
  unfold node
  split
  · next dir => exact iff_of_true rfl dir
  · next notDir => exact iff_of_false nofun notDir

theorem FsEntry.node_of_file (file : e.type = .file) : e.node = .file e.body := by
  unfold node
  rw [file, if_neg (by decide)]

theorem FsEntry.file_of_node (live : e.type ≠ .none) {content : List UInt8}
    (same : e.node = .file content) : e.type = .file ∧ e.body = content := by
  unfold node at same
  cases type : e.type with
  | none => exact absurd type live
  | dir => rw [type, if_pos rfl] at same; cases same
  | file =>
    rw [type, if_neg (by decide)] at same
    cases same
    exact ⟨rfl, rfl⟩

end Node

namespace FsAbstracts

variable {st : FsState} {h : FsStore}

theorem cwd_live (abs : FsAbstracts st h) : st.Live st.cwd := FsTree.live_of_dir abs.tree.cwdDir

/-- The path of a child of the working directory. -/
theorem path_of_named (abs : FsAbstracts st h) {name : List UInt8} {i : FsIdx}
    (named : FsNamed st (some st.cwd) name i) : FsPathTo st i (h.cwd ++ [name]) :=
  labelPath_concat_iff.mpr ⟨_, named.2.1, abs.cwd, named.2.2⟩

/-- The children of the working directory, on both sides. -/
theorem child_eq_some_iff (abs : FsAbstracts st h) {name : List UInt8} {n : HNode (List UInt8)} :
    h.child name = some n ↔
      ∃ i, FsNamed st (some st.cwd) name i ∧ (st.table i).node = n := by
  unfold Hierarchy.child
  rw [abs.node]
  constructor
  · rintro ⟨i, live, path, same⟩
    obtain ⟨p, above, toP, named⟩ := labelPath_concat_iff.mp path
    have liveP : st.Live p := abs.tree.live_parent live above
    obtain rfl := abs.tree.path_injective abs.unique liveP abs.cwd_live toP abs.cwd
    exact ⟨i, ⟨live, above, named⟩, same⟩
  · rintro ⟨i, named, same⟩
    exact ⟨i, named.1, abs.path_of_named named, same⟩

theorem child_eq_none_iff (abs : FsAbstracts st h) {name : List UInt8} :
    h.child name = none ↔ ∀ i, ¬FsNamed st (some st.cwd) name i := by
  constructor
  · intro absent i named
    rw [abs.child_eq_some_iff.mpr ⟨i, named, rfl⟩] at absent
    cases absent
  · intro unnamed
    cases found : h.child name with
    | none => rfl
    | some n =>
      obtain ⟨i, named, -⟩ := abs.child_eq_some_iff.mp found
      exact absurd named (unnamed i)

/-- A path that ends below a live entry exists only for its children. -/
theorem childless_iff (abs : FsAbstracts st h) {name : List UInt8} {i : FsIdx}
    (named : FsNamed st (some st.cwd) name i) :
    h.Childless name ↔ ∀ j, st.Live j → (st.table j).parent ≠ some i := by
  have toI := abs.path_of_named named
  constructor
  · intro childless j live above
    have path : FsPathTo st j (h.cwd ++ [name] ++ [(st.table j).storedName]) := .down above toI
    have exists_ := (abs.node _ _).mpr ⟨j, live, path, rfl⟩
    rw [childless] at exists_
    cases exists_
  · intro childless name'
    by_contra exists_
    obtain ⟨n, found⟩ := Option.ne_none_iff_exists'.mp exists_
    obtain ⟨j, live, path, -⟩ := (abs.node _ _).mp found
    obtain ⟨p, above, toP, -⟩ := labelPath_concat_iff.mp path
    have liveP : st.Live p := abs.tree.live_parent live above
    obtain rfl := abs.tree.path_injective abs.unique liveP named.1 toP toI
    exact childless j live above

/-! ### Lookup -/

section Lookup

variable {name : CStr} {i : FsIdx}

/-- Lookup finds the child. -/
theorem find_eq_some_iff (abs : FsAbstracts st h) :
    fsFindIn st name (some st.cwd) = some i ↔ FsNamed st (some st.cwd) name.chars i := by
  rw [fsFindIn_eq_some_iff]
  refine ⟨And.left, fun named => ⟨named, fun j before other => ?_⟩⟩
  have same := abs.unique j i other.1 named.1 (other.2.1.trans named.2.1.symm)
    (other.2.2.trans named.2.2.symm)
  exact absurd same before.ne

theorem find_eq_none_iff (abs : FsAbstracts st h) :
    fsFindIn st name (some st.cwd) = none ↔ h.child name.chars = none := by
  rw [fsFindIn_eq_none_iff, abs.child_eq_none_iff]

theorem child_of_find (abs : FsAbstracts st h)
    (found : fsFindIn st name (some st.cwd) = some i) :
    h.child name.chars = some (st.table i).node :=
  abs.child_eq_some_iff.mpr ⟨i, abs.find_eq_some_iff.mp found, rfl⟩

theorem file_of_fsChild (abs : FsAbstracts st h) (child : fsChild st name .file = some i) :
    h.child name.chars = some (.file (st.table i).body) := by
  obtain ⟨found, file⟩ := fsChild_eq_some_iff.mp child
  rw [abs.child_of_find found, FsEntry.node_of_file file]

theorem dir_of_fsChild (abs : FsAbstracts st h) (child : fsChild st name .dir = some i) :
    h.child name.chars = some .dir := by
  obtain ⟨found, dir⟩ := fsChild_eq_some_iff.mp child
  rw [abs.child_of_find found, FsEntry.node_eq_dir.mpr dir]

theorem not_file_of_fsChild (abs : FsAbstracts st h) (missing : fsChild st name .file = none)
    (content : List UInt8) : h.child name.chars ≠ some (.file content) := by
  intro file
  obtain ⟨i, named, same⟩ := abs.child_eq_some_iff.mp file
  have child := fsChild_eq_some_iff.mpr
    ⟨abs.find_eq_some_iff.mpr named, (FsEntry.file_of_node named.1 same).1⟩
  rw [missing] at child
  cases child

theorem not_dir_of_fsChild (abs : FsAbstracts st h) (missing : fsChild st name .dir = none) :
    h.child name.chars ≠ some .dir := by
  intro dir
  obtain ⟨i, named, same⟩ := abs.child_eq_some_iff.mp dir
  have child := fsChild_eq_some_iff.mpr
    ⟨abs.find_eq_some_iff.mpr named, FsEntry.node_eq_dir.mp same⟩
  rw [missing] at child
  cases child

end Lookup

/-! ### Room -/

/-- The store is as large as the table is full. -/
theorem size_eq (abs : FsAbstracts st h) : h.size = Nat.card {i // st.Live i} := by
  choose pathOf path_spec using fun i : {i // st.Live i} => abs.tree.exists_path i.2
  have injective : Function.Injective pathOf := by
    intro i j same
    have path := path_spec j
    rw [← same] at path
    exact Subtype.ext (abs.tree.path_injective abs.unique i.2 j.2 (path_spec i) path)
  have range : h.paths = Set.range pathOf := by
    ext path
    constructor
    · intro exists_
      obtain ⟨n, found⟩ := Option.ne_none_iff_exists'.mp exists_
      obtain ⟨i, live, toI, -⟩ := (abs.node _ _).mp found
      exact ⟨⟨i, live⟩, abs.tree.path_unique (path_spec _) toI⟩
    · rintro ⟨i, rfl⟩
      have found := (abs.node _ _).mpr ⟨i, i.2, path_spec i, rfl⟩
      exact Option.ne_none_iff_exists'.mpr ⟨_, found⟩
  unfold Hierarchy.size
  rw [range, Set.ncard_range_of_injective injective]

theorem size_of_full (abs : FsAbstracts st h) (full : fsAlloc st = none) :
    h.size = fsMaxEntries := by
  have all : ∀ i, st.Live i := fsAlloc_eq_none_iff.mp full
  rw [abs.size_eq, Nat.card_congr (Equiv.subtypeUnivEquiv all), Nat.card_eq_fintype_card,
    Fintype.card_fin]

theorem size_of_room (abs : FsAbstracts st h) {slot : FsIdx} (free : fsAlloc st = some slot) :
    h.size < fsMaxEntries := by
  classical
  have notLive : ¬st.Live slot := fun live => live (fsAlloc_free free)
  rw [abs.size_eq, Nat.card_eq_fintype_card]
  exact (Fintype.card_subtype_lt notLive).trans_eq (Fintype.card_fin _)

/-! ### The updates of the table -/

/-- A new entry in a free slot is a new child of the working directory. -/
theorem place (abs : FsAbstracts st h) {slot : FsIdx} (free : (st.table slot).type = .none)
    {type : FsType} (live : type ≠ .none) {name : CStr} (absent : h.child name.stored = none) :
    FsAbstracts (fsPlace st slot type name)
      (h.add name.stored ((fsPlace st slot type name).table slot).node absent) := by
  have tree : FsTree (fsPlace st slot type name) := abs.tree.place free name
  have fresh : fsFindIn st (name.take fsMaxNameLen) (some st.cwd) = none :=
    abs.find_eq_none_iff.mpr absent
  have unique := (siblingsUnique_place_iff abs.unique free live).mpr fresh
  have liveNe {i : FsIdx} (liveI : st.Live i) : i ≠ slot := liveI.ne_free free
  have agree {i : FsIdx} {path : List (List UInt8)} (liveI : st.Live i) :
      FsPathTo (fsPlace st slot type name) i path ↔ FsPathTo st i path := by
    refine abs.tree.path_agree tree (fun j liveJ => ?_) liveI
    rw [fsPlace_of_ne st type name (liveNe liveJ)]
    exact ⟨rfl, rfl⟩
  have cwd : FsPathTo (fsPlace st slot type name) st.cwd h.cwd := (agree abs.cwd_live).mpr abs.cwd
  have liveSlot : (fsPlace st slot type name).Live slot := by
    rw [FsState.Live, fsPlace_type]
    exact live
  have toSlot : FsPathTo (fsPlace st slot type name) slot (h.cwd ++ [name.stored]) :=
    labelPath_concat_iff.mpr ⟨_, fsPlace_parent st slot type name, cwd,
      fsPlace_storedName st slot type name⟩
  refine ⟨tree, unique, abs.bounded.place slot type name, fun path n => ?_, cwd⟩
  rcases eq_or_ne path (h.cwd ++ [name.stored]) with rfl | ne
  · unfold Hierarchy.add
    rw [Hierarchy.put_node_self]
    constructor
    · intro same
      exact ⟨slot, liveSlot, toSlot, Option.some.inj same⟩
    · rintro ⟨i, liveI, toI, rfl⟩
      rw [tree.path_injective unique liveI liveSlot toI toSlot]
  · unfold Hierarchy.add
    rw [Hierarchy.put_node_of_ne _ ne, abs.node]
    constructor
    · rintro ⟨i, liveI, toI, same⟩
      refine ⟨i, ?_, (agree liveI).mpr toI, ?_⟩
      · rwa [FsState.Live, fsPlace_of_ne st type name (liveNe liveI)]
      · rwa [fsPlace_of_ne st type name (liveNe liveI)]
    · rintro ⟨i, liveI, toI, same⟩
      have neSlot : i ≠ slot := by
        rintro rfl
        exact ne (tree.path_unique toI toSlot)
      rw [FsState.Live, fsPlace_of_ne st type name neSlot] at liveI
      rw [fsPlace_of_ne st type name neSlot] at same
      exact ⟨i, liveI, (agree liveI).mp toI, same⟩

/-- Writing a file changes what is at its path. -/
theorem fill (abs : FsAbstracts st h) {name : CStr} {idx : FsIdx}
    (child : fsChild st name .file = some idx) (data : CStr) {old : List UInt8}
    (file : h.child name.chars = some (.file old)) :
    FsAbstracts (fsFill st idx data)
      (h.fill name.chars (data.chars.take (fsMaxFileSize - 1)) file) := by
  obtain ⟨named, isFile⟩ := named_of_fsChild child
  have toIdx := abs.path_of_named named
  have tree := abs.tree.fill idx data
  have live {i : FsIdx} : (fsFill st idx data).Live i ↔ st.Live i := by
    rw [FsState.Live, fsFill_type]
    rfl
  have agree {i : FsIdx} {path : List (List UInt8)} (liveI : st.Live i) :
      FsPathTo (fsFill st idx data) i path ↔ FsPathTo st i path :=
    abs.tree.path_agree tree (fun j _ => ⟨fsFill_parent st idx data j,
      fsFill_storedName st idx data j⟩) liveI
  have node : ((fsFill st idx data).table idx).node =
      .file (data.chars.take (fsMaxFileSize - 1)) := by
    rw [FsEntry.node_of_file (by rw [fsFill_type, isFile]), fsFill_body]
  refine ⟨tree, abs.unique.fill idx data, fun i => ?_, fun path n => ?_,
    (agree abs.cwd_live).mpr abs.cwd⟩
  · rw [fsFill_storedName]
    exact abs.bounded i
  unfold Hierarchy.fill
  rcases eq_or_ne path (h.cwd ++ [name.chars]) with rfl | ne
  · rw [Hierarchy.put_node_self]
    constructor
    · intro same
      exact ⟨idx, live.mpr named.1, (agree named.1).mpr toIdx, node.trans (Option.some.inj same)⟩
    · rintro ⟨i, liveI, toI, rfl⟩
      have liveI := live.mp liveI
      rw [abs.tree.path_injective abs.unique liveI named.1 ((agree liveI).mp toI) toIdx, node]
  · rw [Hierarchy.put_node_of_ne _ ne, abs.node]
    refine exists_congr fun i => ?_
    rw [live]
    refine and_congr_right fun liveI => ?_
    rw [agree liveI]
    refine and_congr_right fun toI => ?_
    have neIdx : i ≠ idx := by
      rintro rfl
      exact ne (abs.tree.path_unique toI toIdx)
    rw [fsFill_of_ne st data neIdx]

/-- Freeing a child of the working directory without children removes its path. -/
theorem drop (abs : FsAbstracts st h) {name : CStr} {idx : FsIdx}
    (named : FsNamed st (some st.cwd) name.chars idx) (childless : h.Childless name.chars) :
    FsAbstracts (fsDrop st idx) (h.remove name.chars childless) := by
  have toIdx := abs.path_of_named named
  have tree := abs.tree.drop named.2.1 named.1 ((abs.childless_iff named).mp childless)
  have live {i : FsIdx} : (fsDrop st idx).Live i ↔ st.Live i ∧ i ≠ idx := by
    rcases eq_or_ne i idx with rfl | ne
    · simp [FsState.Live]
    · simp [FsState.Live, ne]
  have agree {i : FsIdx} {path : List (List UInt8)} (liveI : st.Live i) :
      FsPathTo (fsDrop st idx) i path ↔ FsPathTo st i path :=
    abs.tree.path_agree tree (fun j _ => ⟨fsDrop_parent st idx j, fsDrop_storedName st idx j⟩) liveI
  refine ⟨tree, abs.unique.drop idx, abs.bounded.drop idx, fun path n => ?_,
    (agree abs.cwd_live).mpr abs.cwd⟩
  rcases eq_or_ne path (h.cwd ++ [name.chars]) with rfl | ne
  · rw [Hierarchy.remove_node_self]
    refine iff_of_false (Option.some_ne_none n).symm ?_
    rintro ⟨i, liveI, toI, -⟩
    obtain ⟨liveI, neIdx⟩ := live.mp liveI
    exact neIdx (abs.tree.path_injective abs.unique liveI named.1 ((agree liveI).mp toI) toIdx)
  · rw [Hierarchy.remove_node_of_ne _ ne, abs.node]
    constructor
    · rintro ⟨i, liveI, toI, same⟩
      have neIdx : i ≠ idx := by
        rintro rfl
        exact ne (abs.tree.path_unique toI toIdx)
      rw [← fsDrop_of_ne st neIdx] at same
      exact ⟨i, live.mpr ⟨liveI, neIdx⟩, (agree liveI).mpr toI, same⟩
    · rintro ⟨i, liveI, toI, same⟩
      obtain ⟨liveI, neIdx⟩ := live.mp liveI
      rw [fsDrop_of_ne st neIdx] at same
      exact ⟨i, liveI, (agree liveI).mp toI, same⟩

/-- Moving to a directory moves to its path. -/
theorem chdir (abs : FsAbstracts st h) {target : FsIdx} {path : List (List UInt8)}
    (toTarget : FsPathTo st target path) (dir : (st.table target).type = .dir)
    (dir' : h.node path = some .dir) :
    FsAbstracts { st with cwd := target } (h.moveTo path dir') where
  tree := abs.tree.chdir (.inr dir)
  unique := abs.unique
  bounded := abs.bounded
  node := abs.node
  cwd := toTarget

end FsAbstracts

end MOKernel
