import MOKernel.FsTree

/-!
# Paths of the working directory

`CdPath st x names`: from the root, `fs_cd` of one name after the other leads to `x`.
Sibling names need not be unique, but every directory on the way is the first match for
its name in its parent: it was when `fs_cd` entered it, and since then only children of
directories further down were touched.  So the path that `fs_print_path` prints for the
working directory leads back to it (`path_round_trip`).
-/

namespace MOKernel

def slashName : CStr := ⟨ascii "/", by decide⟩

def dotDotName : CStr := ⟨ascii "..", by decide⟩

/-- A name that `fs_cd` looks up in the working directory. -/
structure CdName (name : CStr) : Prop where
  nonempty : name.chars ≠ []
  slash : name.chars ≠ ascii "/"
  dot : name.chars ≠ ascii "."
  dotDot : name.chars ≠ ascii ".."

/-- The directories from the root to `x`, by name. -/
inductive CdPath (st : FsState) : FsIdx → List CStr → Prop
  | root : CdPath st fsRootIdx []
  | down {p c : FsIdx} {names : List CStr} {name : CStr} :
    CdPath st p names → fsFindIn st name (some p) = some c → (st.table c).type = .dir →
    CdName name → CdPath st c (names ++ [name])

/-- The names that `fs_print_path` prints for the working directory, in order. -/
def fsPathNames (st : FsState) : Option (List CStr) :=
  (fsPathWalk st fsMaxEntries (some st.cwd)).map fun walk =>
    walk.1.reverse.map fun i => ⟨(st.table i).storedName, cstr_nulFree _⟩

/-- `fs_cd` of one name after the other, as long as it succeeds. -/
def fsCdAll (st : FsState) : List CStr → Option FsState
  | [] => some st
  | name :: names => if (fsCd st name).ret = 0 then fsCdAll (fsCd st name).st names else none

theorem fsCdAll_append {st st' : FsState} {names : List CStr} (name : CStr)
    (moved : fsCdAll st names = some st') :
    fsCdAll st (names ++ [name]) = fsCdAll st' [name] := by
  induction names generalizing st with
  | nil =>
    cases moved
    rfl
  | cons head names ih =>
    rw [fsCdAll] at moved
    rw [List.cons_append, fsCdAll]
    split
    · rename_i succeeds
      rw [if_pos succeeds] at moved
      exact ih moved
    · rename_i fails
      rw [if_neg fails] at moved
      cases moved

/-! ## One `fs_cd` -/

section Cd

variable {st : FsState} {name : CStr} {target : FsIdx}

theorem fsCd_slash (st : FsState) : fsCd st slashName = ⟨0, [], { st with cwd := fsRootIdx }⟩ := by
  unfold fsCd
  rw [if_neg (by decide), if_pos (show slashName.chars = ascii "/" from rfl)]

/-- A name that is neither empty nor handled before the lookup. -/
theorem fsCd_of_resolved (nonempty : name.chars ≠ []) (slash : name.chars ≠ ascii "/")
    (below : ¬(strcmp name.chars (ascii "..") = 0 ∧ (st.table st.cwd).parent = none))
    (resolved : fsResolveDir st name = some target) (dir : (st.table target).type = .dir) :
    fsCd st name = ⟨0, [], { st with cwd := target }⟩ := by
  unfold fsCd
  rw [if_neg nonempty, if_neg slash, if_neg below, resolved]
  simp only [dir, ne_eq, not_true_eq_false, if_false]

/-- An ordinary name is looked up in the working directory. -/
theorem fsCd_child (plain : CdName name) (found : fsFindIn st name (some st.cwd) = some target)
    (dir : (st.table target).type = .dir) :
    fsCd st name = ⟨0, [], { st with cwd := target }⟩ := by
  have resolved : fsResolveDir st name = some target := by
    unfold fsResolveDir
    rw [if_neg fun dot => plain.dot (strcmp_dot.mp dot),
      if_neg fun dots => plain.dotDot (strcmp_dotDot.mp dots), found]
  exact fsCd_of_resolved plain.nonempty plain.slash
    (fun top => plain.dotDot (strcmp_dotDot.mp top.1)) resolved dir

theorem fsCd_dotDot_root (top : (st.table st.cwd).parent = none) :
    fsCd st dotDotName = ⟨0, [], { st with cwd := fsRootIdx }⟩ := by
  unfold fsCd
  rw [if_neg (by decide), if_neg (by decide), if_pos ⟨strcmp_dotDot.mpr rfl, top⟩]

theorem fsCd_dotDot_up (above : (st.table st.cwd).parent = some target)
    (dir : (st.table target).type = .dir) :
    fsCd st dotDotName = ⟨0, [], { st with cwd := target }⟩ := by
  have resolved : fsResolveDir st dotDotName = some target := by
    unfold fsResolveDir
    rw [if_neg (by decide), if_pos (strcmp_dotDot.mpr rfl), above, if_neg (Option.some_ne_none _)]
  have below : ¬ (strcmp dotDotName.chars (ascii "..") = 0 ∧ (st.table st.cwd).parent = none) := by
    rw [above]
    exact fun top => absurd top.2 (Option.some_ne_none _)
  exact fsCd_of_resolved (by decide) (by decide) below resolved dir

/-- What a name resolves to. -/
theorem fsResolveDir_some (resolved : fsResolveDir st name = some target) :
    target = st.cwd ∨
      strcmp name.chars (ascii "..") = 0 ∧
        ((st.table st.cwd).parent = none ∨ (st.table st.cwd).parent = some target) ∨
      name.chars ≠ ascii "." ∧ name.chars ≠ ascii ".." ∧
        fsFindIn st name (some st.cwd) = some target := by
  unfold fsResolveDir at resolved
  by_cases dot : strcmp name.chars (ascii ".") = 0
  · rw [if_pos dot] at resolved
    exact .inl (Option.some.inj resolved).symm
  rw [if_neg dot] at resolved
  by_cases dots : strcmp name.chars (ascii "..") = 0
  · rw [if_pos dots] at resolved
    by_cases top : (st.table st.cwd).parent = none
    · exact .inr (.inl ⟨dots, .inl top⟩)
    · rw [if_neg top] at resolved
      exact .inr (.inl ⟨dots, .inr resolved⟩)
  · rw [if_neg dots] at resolved
    exact .inr (.inr ⟨fun same => dot (strcmp_dot.mpr same),
      fun same => dots (strcmp_dotDot.mpr same), resolved⟩)

/-- Where a successful `fs_cd` can lead. -/
theorem fsCd_target (st : FsState) (name : CStr) :
    (fsCd st name).st = st ∨ (fsCd st name).st = { st with cwd := fsRootIdx } ∨
      ∃ target, (fsCd st name).st = { st with cwd := target } ∧
        ((st.table st.cwd).parent = some target ∨
          CdName name ∧ fsFindIn st name (some st.cwd) = some target ∧
            (st.table target).type = .dir) := by
  unfold fsCd
  by_cases empty : name.chars = []
  · rw [if_pos empty]
    exact .inl rfl
  by_cases slash : name.chars = ascii "/"
  · rw [if_neg empty, if_pos slash]
    exact .inr (.inl rfl)
  by_cases top : strcmp name.chars (ascii "..") = 0 ∧ (st.table st.cwd).parent = none
  · rw [if_neg empty, if_neg slash, if_pos top]
    exact .inr (.inl rfl)
  rw [if_neg empty, if_neg slash, if_neg top]
  rcases resolved : fsResolveDir st name with _ | target
  · exact .inl rfl
  dsimp only
  by_cases dir : (st.table target).type = .dir
  · rw [if_neg (not_not.mpr dir)]
    rcases fsResolveDir_some resolved with rfl | ⟨dots, parentless | above⟩ | ⟨dot, dots, found⟩
    · exact .inl rfl
    · exact absurd ⟨dots, parentless⟩ top
    · exact .inr (.inr ⟨target, rfl, .inl above⟩)
    · exact .inr (.inr ⟨target, rfl, .inr ⟨⟨empty, slash, dot, dots⟩, found, dir⟩⟩)
  · rw [if_pos dir]
    exact .inl rfl

end Cd

/-! ## Paths -/

section Path

variable {st st' : FsState} {x : FsIdx} {names names' : List CStr}

theorem CdPath.dir (path : CdPath st x names) (tree : FsTree st) : (st.table x).type = .dir := by
  cases path with
  | root => exact tree.rootDir
  | down _ _ dir _ => exact dir

/-- The name of the last step is stored in the directory it leads to. -/
theorem parent_of_found {p c : FsIdx} {name : CStr} (found : fsFindIn st name (some p) = some c) :
    (st.table c).parent = some p ∧ (st.table c).storedName = name.chars :=
  (fsFindIn_eq_some_iff.mp found).1.2

/-- There is one path to a directory. -/
theorem CdPath.unique (path : CdPath st x names) (tree : FsTree st)
    (path' : CdPath st x names') : names = names' := by
  induction path generalizing names' with
  | root =>
    cases path' with
    | root => rfl
    | down _ found _ _ => exact absurd rfl (tree.ne_root_of_parent (parent_of_found found).1)
  | @down p c names name path found dir plain ih =>
    cases path' with
    | root => exact absurd rfl (tree.ne_root_of_parent (parent_of_found found).1)
    | @down p' _ names' name' path' found' _ _ =>
      obtain ⟨above, stored⟩ := parent_of_found found
      obtain ⟨above', stored'⟩ := parent_of_found found'
      rw [above] at above'
      injection above' with same
      subst same
      rw [ih path', show name = name' from CStr.ext (stored.symm.trans stored')]

/-- A path does not depend on the working directory. -/
theorem CdPath.chdir (path : CdPath st x names) (target : FsIdx) :
    CdPath { st with cwd := target } x names := by
  induction path with
  | root => exact .root
  | down _ found dir plain ih => exact .down ih ((fsFindIn_chdir _ _ _ _).trans found) dir plain

/-- Entries below other directories than the working directory are the same. -/
def SameElsewhere (st st' : FsState) : Prop :=
  ∀ p, p ≠ st.cwd → ∀ name j, (FsNamed st' (some p) name j ↔ FsNamed st (some p) name j) ∧
    (FsNamed st (some p) name j → (st'.table j).type = (st.table j).type)

theorem SameElsewhere.find (same : SameElsewhere st st') {p c : FsIdx} {name : CStr}
    (apart : p ≠ st.cwd) (found : fsFindIn st name (some p) = some c) :
    fsFindIn st' name (some p) = some c ∧ (st'.table c).type = (st.table c).type := by
  obtain ⟨named, first⟩ := fsFindIn_eq_some_iff.mp found
  have keep := same p apart name.chars
  exact ⟨fsFindIn_eq_some_iff.mpr
    ⟨(keep c).1.mpr named, fun j lt named' => first j lt ((keep j).1.mp named')⟩,
    (keep c).2 named⟩

/-- A path that is no longer than the one to the working directory stays. -/
theorem CdPath.frame (path : CdPath st x names) (same : SameElsewhere st st')
    (above : ∀ cwdNames, CdPath st st.cwd cwdNames → names.length ≤ cwdNames.length) :
    CdPath st' x names := by
  induction path with
  | root => exact .root
  | @down p c names name path found dir plain ih =>
    have apart : p ≠ st.cwd := by
      intro here
      have shorter := above names (here ▸ path)
      rw [List.length_append, List.length_singleton] at shorter
      omega
    obtain ⟨found', type⟩ := same.find apart found
    refine .down (ih fun cwdNames cwdPath => ?_) found' (type.trans dir) plain
    have le := above cwdNames cwdPath
    rw [List.length_append, List.length_singleton] at le
    omega

end Path

/-! ## The working directory keeps a path -/

section Step

variable {st : FsState}

theorem sameElsewhere_place {slot : FsIdx} (free : (st.table slot).type = .none) (type : FsType)
    (name : CStr) : SameElsewhere st (fsPlace st slot type name) := by
  intro p apart n j
  rcases eq_or_ne j slot with rfl | ne
  · have unnamed : ¬ FsNamed st (some p) n j := fun named => named.1 free
    refine ⟨⟨fun named => ?_, fun named => absurd named unnamed⟩,
      fun named => absurd named unnamed⟩
    have parent := named.2.1
    rw [fsPlace_parent] at parent
    injection parent with here
    exact absurd here.symm apart
  · simp [FsNamed, ne]

theorem sameElsewhere_fill (idx : FsIdx) (data : CStr) : SameElsewhere st (fsFill st idx data) := by
  intro p _ n j
  simp [FsNamed]

theorem sameElsewhere_drop {idx : FsIdx} (child : (st.table idx).parent = some st.cwd) :
    SameElsewhere st (fsDrop st idx) := by
  intro p apart n j
  rcases eq_or_ne j idx with rfl | ne
  · have unnamed : ¬ FsNamed st (some p) n j := by
      intro named
      have parent := named.2.1
      rw [child] at parent
      injection parent with here
      exact apart here.symm
    refine ⟨⟨fun named => ?_, fun named => absurd named unnamed⟩,
      fun named => absurd named unnamed⟩
    exact absurd (fsDrop_type_self st j) named.1
  · simp [FsNamed, ne]

/-- A call that does not change the working directory only touches its children. -/
theorem sameElsewhere_run (st : FsState) (op : FsOp) (stays : ∀ name, op ≠ .cd name) :
    (op.run st).cwd = st.cwd ∧ SameElsewhere st (op.run st) := by
  have step := fsStep_run st op
  generalize op.run st = st' at step
  cases step with
  | idle => exact ⟨rfl, fun p _ n j => ⟨Iff.rfl, fun _ => rfl⟩⟩
  | @cd name _ _ => exact absurd rfl (stays name)
  | mkdir _ _ free => exact ⟨rfl, sameElsewhere_place (fsAlloc_free free) _ _⟩
  | createFile _ _ free => exact ⟨rfl, sameElsewhere_place (fsAlloc_free free) _ _⟩
  | writeFile _ => exact ⟨rfl, sameElsewhere_fill _ _⟩
  | rm found => exact ⟨rfl, sameElsewhere_drop (named_of_fsChild found).1.2.1⟩
  | rmdir found _ => exact ⟨rfl, sameElsewhere_drop (named_of_fsChild found).1.2.1⟩

/-- The path of the parent is the path without its last name. -/
theorem CdPath.parent {x p : FsIdx} {names : List CStr} (path : CdPath st x names)
    (tree : FsTree st) (above : (st.table x).parent = some p) :
    CdPath st p names.dropLast := by
  cases path with
  | root => exact absurd rfl (tree.ne_root_of_parent above)
  | down path found _ _ =>
    rw [(parent_of_found found).1] at above
    injection above with same
    rw [List.dropLast_concat, ← same]
    exact path

theorem cdPath_run (tree : FsTree st) {names : List CStr} (path : CdPath st st.cwd names)
    (op : FsOp) : ∃ names', CdPath (op.run st) (op.run st).cwd names' := by
  by_cases isCd : ∃ name, op = .cd name
  · obtain ⟨name, rfl⟩ := isCd
    rw [FsOp.run]
    rcases fsCd_target st name with same | home | ⟨target, moved, up | ⟨plain, found, dir⟩⟩
    · rw [same]
      exact ⟨names, path⟩
    · rw [home]
      exact ⟨[], .root⟩
    · rw [moved]
      exact ⟨names.dropLast, (path.parent tree up).chdir target⟩
    · rw [moved]
      exact ⟨names ++ [name], (CdPath.down path found dir plain).chdir target⟩
  · obtain ⟨cwd, same⟩ := sameElsewhere_run st op fun name is => isCd ⟨name, is⟩
    rw [cwd]
    refine ⟨names, path.frame same fun cwdNames cwdPath => ?_⟩
    rw [path.unique tree cwdPath]

end Step

theorem cdPath_fsRun (ops : List FsOp) :
    FsTree (fsRun fsInit ops) ∧
      ∃ names, CdPath (fsRun fsInit ops) (fsRun fsInit ops).cwd names :=
  fsRun_induction (P := fun st => FsTree st ∧ ∃ names, CdPath st st.cwd names)
    (fun _ op inv => ⟨inv.1.run op, by
      obtain ⟨tree, names, path⟩ := inv
      exact cdPath_run tree path op⟩)
    ⟨FsTree.init, [], .root⟩ ops

/-! ## The printed path -/

/-- What `fs_print_path` prints for these names. -/
def printedPath (names : List CStr) : List UInt8 :=
  if names = [] then ascii "/" else names.flatMap fun name => ascii "/" ++ name.chars

section Print

variable {st : FsState} {x : FsIdx} {names : List CStr}

/-- The walk up the tree collects the names of the path. -/
theorem CdPath.walk (path : CdPath st x names) (tree : FsTree st) {room : Nat}
    {stack : List FsIdx} {stop : Option FsIdx}
    (walk : fsPathWalk st room (some x) = some (stack, stop)) :
    (stack.reverse.map fun i => (⟨(st.table i).storedName, cstr_nulFree _⟩ : CStr)) = names := by
  induction path generalizing room stack with
  | root =>
    cases room <;>
    · rw [fsPathWalk, if_pos rfl] at walk
      cases walk
      rfl
  | @down p c names name path found dir plain ih =>
    obtain ⟨above, stored⟩ := parent_of_found found
    have notRoot := tree.ne_root_of_parent above
    cases room with
    | zero =>
      rw [fsPathWalk, if_neg notRoot] at walk
      cases walk
    | succ room =>
      rw [fsPathWalk, if_neg notRoot, above, Option.map_eq_some_iff] at walk
      obtain ⟨⟨rest, stop'⟩, walk, whole⟩ := walk
      cases whole
      have last : (⟨(st.table c).storedName, cstr_nulFree _⟩ : CStr) = name := CStr.ext stored
      rw [List.reverse_cons, List.map_append, List.map_singleton, ih walk, last]

theorem CdPath.pathNames (path : CdPath st st.cwd names) (tree : FsTree st) :
    fsPathNames st = some names ∧ fsPrintPath st st.cwd = some (printedPath names) := by
  obtain ⟨k, short, arrives⟩ := tree.climbs (FsTree.live_of_dir tree.cwdDir)
  obtain ⟨stack, walk, -⟩ :=
    fsPathWalk_of_climb arrives (short.trans (by decide : 31 ≤ fsMaxEntries))
  have names_eq := path.walk tree walk
  refine ⟨by rw [fsPathNames, walk, Option.map_some, names_eq], ?_⟩
  rw [fsPrintPath]
  split
  · rename_i home
    have empty : names = [] := path.unique tree (home ▸ CdPath.root)
    rw [printedPath, if_pos empty]
  · rename_i away
    have nonempty : names ≠ [] := by
      rintro rfl
      generalize st.cwd = cwd at path away
      generalize empty : ([] : List CStr) = list at path
      cases path with
      | root => exact away rfl
      | down _ _ _ _ => simp at empty
    rw [walk, Option.map_some, printedPath, if_neg nonempty, ← names_eq, List.flatMap_map]

/-- Following a path from the root leads to its directory. -/
theorem CdPath.replay (path : CdPath st x names) :
    fsCdAll { st with cwd := fsRootIdx } names = some { st with cwd := x } := by
  induction path with
  | root => rfl
  | @down p c names name path found dir plain ih =>
    have step : fsCd { st with cwd := p } name = ⟨0, [], { st with cwd := c }⟩ :=
      fsCd_child plain ((fsFindIn_chdir _ _ _ _).trans found) dir
    rw [fsCdAll_append name ih, fsCdAll, step, if_pos rfl]
    rfl

theorem CdPath.replay_slash (path : CdPath st x names) :
    fsCdAll st (slashName :: names) = some { st with cwd := x } := by
  rw [fsCdAll, fsCd_slash, if_pos rfl]
  exact path.replay

/-- `fs_cd("..")` leads where the path without its last name does. -/
theorem CdPath.dotDot (path : CdPath st st.cwd names) (tree : FsTree st) :
    ∃ up, fsCdAll st [dotDotName] = some up ∧
      fsCdAll st (slashName :: names.dropLast) = some up := by
  rcases above : (st.table st.cwd).parent with _ | p
  · have home : st.cwd = fsRootIdx := tree.rootOnly st.cwd (FsTree.live_of_dir tree.cwdDir) above
    have empty : names = [] := path.unique tree (home ▸ CdPath.root)
    refine ⟨{ st with cwd := fsRootIdx }, ?_, ?_⟩
    · rw [fsCdAll, fsCd_dotDot_root above, if_pos rfl]
      rfl
    · rw [empty]
      exact CdPath.root.replay_slash
  · have parent := path.parent tree above
    refine ⟨{ st with cwd := p }, ?_, parent.replay_slash⟩
    rw [fsCdAll, fsCd_dotDot_up above (parent.dir tree), if_pos rfl]
    rfl

end Print

/-- **Path round trip.**  In every reachable state, `fs_cd` of `/` and then of each name
that `fs_print_path` prints for the working directory succeeds and ends in the same state,
and `fs_cd("..")` ends where the names without the last one lead. -/
theorem path_round_trip (ops : List FsOp) :
    let st := fsRun fsInit ops
    ∃ names, fsPathNames st = some names ∧ fsPrintPath st st.cwd = some (printedPath names) ∧
      fsCdAll st (slashName :: names) = some st ∧
      ∃ up, fsCdAll st [dotDotName] = some up ∧
        fsCdAll st (slashName :: names.dropLast) = some up := by
  intro st
  obtain ⟨tree, names, path⟩ : FsTree st ∧ ∃ names, CdPath st st.cwd names := cdPath_fsRun ops
  obtain ⟨walked, printed⟩ := path.pathNames tree
  exact ⟨names, walked, printed, path.replay_slash, path.dotDot tree⟩

end MOKernel
