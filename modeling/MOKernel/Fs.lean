import MOKernel.CString

/-!
# The in-memory filesystem

`fs.c` over its two globals: the table of 32 inodes and the index of the
working directory.  An `int` that holds an inode index or `FS_NULL_IDX` is an
`Option FsIdx`; nothing else is ever stored in one.  Every operation returns its
C return value, the bytes it hands to `kprint` and the state it leaves.
-/

namespace MOKernel

abbrev fsMaxEntries : Nat := 32
abbrev fsMaxNameLen : Nat := 16
abbrev fsMaxFileSize : Nat := 256

/-- An inode index. -/
abbrev FsIdx := Fin fsMaxEntries

def fsRootIdx : FsIdx := 0

inductive FsType
  | none | file | dir
deriving DecidableEq, Repr

structure FsEntry where
  name : Vector UInt8 (fsMaxNameLen + 1)
  content : Vector UInt8 fsMaxFileSize
  size : Nat
  type : FsType
  parent : Option FsIdx

/-- The globals of `fs.c`. -/
structure FsState where
  table : FsIdx → FsEntry
  cwd : FsIdx

/-- What a call returns, prints and leaves behind. -/
structure FsResult (α : Type) where
  ret : α
  out : List UInt8
  st : FsState

/-- The string in an entry's name array. -/
def FsEntry.storedName (e : FsEntry) : List UInt8 := cstr e.name.toList

/-- The string in an entry's content array. -/
def FsEntry.body (e : FsEntry) : List UInt8 := cstr e.content.toList

def FsState.setEntry (st : FsState) (i : FsIdx) (e : FsEntry) : FsState :=
  { st with table := Function.update st.table i e }

/-- `kprint(pre); kprint(name); kprint(post);` -/
def report (pre : String) (name : CStr) (post : String) : List UInt8 :=
  ascii pre ++ name.chars ++ ascii post

/-! ## Local helpers -/

/-- `fs_strncpy` into a name array. -/
def fsStrncpy (dst : Vector UInt8 (fsMaxNameLen + 1)) (src : CStr) (max : Nat) :
    Vector UInt8 (fsMaxNameLen + 1) :=
  applyStores dst (copyLoop max 0 src.chars).1

/-- The first live entry with the given parent whose name array holds `name`. -/
def fsFindIn (st : FsState) (name : CStr) (parentIdx : Option FsIdx) : Option FsIdx :=
  Fin.find? fun i =>
    (st.table i).type ≠ .none ∧ (st.table i).parent = parentIdx ∧
      strcmp (st.table i).name.toList name.chars = 0

def fsAlloc (st : FsState) : Option FsIdx :=
  Fin.find? fun i => (st.table i).type = .none

/-- The upward walk of `fs_print_path` from `cur` with `room` free slots left in
`stack`: the indices it stacks and the index that stops it.  `none` is a store
past the end of `stack`. -/
def fsPathWalk (st : FsState) : Nat → Option FsIdx → Option (List FsIdx × Option FsIdx)
  | _, none => some ([], none)
  | 0, some cur => if cur = fsRootIdx then some ([], some cur) else none
  | room + 1, some cur =>
    if cur = fsRootIdx then some ([], some cur)
    else (fsPathWalk st room (st.table cur).parent).map fun walk => (cur :: walk.1, walk.2)

def fsPrintPath (st : FsState) (idx : FsIdx) : Option (List UInt8) :=
  if idx = fsRootIdx then some (ascii "/")
  else (fsPathWalk st fsMaxEntries (some idx)).map fun walk =>
    walk.1.reverse.flatMap fun i => ascii "/" ++ (st.table i).storedName

def fsDirEmpty (st : FsState) (dirIdx : FsIdx) : Bool :=
  (Fin.find? fun i => (st.table i).type ≠ .none ∧ (st.table i).parent = some dirIdx).isNone

def fsResolveDir (st : FsState) (name : CStr) : Option FsIdx :=
  if strcmp name.chars (ascii ".") = 0 then some st.cwd
  else if strcmp name.chars (ascii "..") = 0 then
    if (st.table st.cwd).parent = none then some fsRootIdx else (st.table st.cwd).parent
  else fsFindIn st name (some st.cwd)

/-- The child of the working directory that `name` resolves to, when it has the
wanted type: `idx == FS_NULL_IDX || fs_table[idx].type != type` is the failure test
of write, cat, rm and rmdir. -/
def fsChild (st : FsState) (name : CStr) (type : FsType) : Option FsIdx :=
  (fsFindIn st name (some st.cwd)).filter fun idx => (st.table idx).type = type

/-! ## State updates -/

/-- The four stores that make `slot` a fresh entry of the working directory. -/
def fsPlace (st : FsState) (slot : FsIdx) (type : FsType) (name : CStr) : FsState :=
  st.setEntry slot { st.table slot with
    type := type
    parent := some st.cwd
    size := 0
    name := fsStrncpy (st.table slot).name name fsMaxNameLen }

/-- The copy loop of `fs_write_file` and the store of the final counter. -/
def fsFill (st : FsState) (idx : FsIdx) (data : CStr) : FsState :=
  let copy := copyLoop (fsMaxFileSize - 1) 0 data.chars
  st.setEntry idx { st.table idx with
    content := applyStores (st.table idx).content copy.1
    size := copy.2 }

/-- `fs_table[idx].type = FS_TYPE_NONE`; every other field of the slot stays. -/
def fsDrop (st : FsState) (idx : FsIdx) : FsState :=
  st.setEntry idx { st.table idx with type := .none }

/-! ## Public API -/

def fsInit : FsState where
  table i :=
    { name := Vector.replicate _ 0
      content := Vector.replicate _ 0
      size := 0
      type := if i = fsRootIdx then .dir else .none
      parent := none }
  cwd := fsRootIdx

/-- The part mkdir and touch share: the duplicate check, the allocation and the
stores. -/
def fsAdd (st : FsState) (name : CStr) (type : FsType) (dup full : String) : FsResult Int :=
  match fsFindIn st name (some st.cwd) with
  | some _ => ⟨-1, report dup name "' already exists\n", st⟩
  | none =>
    match fsAlloc st with
    | none => ⟨-1, ascii full, st⟩
    | some slot => ⟨slot, [], fsPlace st slot type name⟩

def fsMkdir (st : FsState) (name : CStr) : FsResult Int :=
  if name.chars = [] then ⟨-1, ascii "mkdir: invalid name\n", st⟩
  else if strcmp name.chars (ascii ".") = 0 ∨ strcmp name.chars (ascii "..") = 0 then
    ⟨-1, ascii "mkdir: cannot use '.' or '..'\n", st⟩
  else fsAdd st name .dir "mkdir: '" "mkdir: filesystem full\n"

def fsCd (st : FsState) (name : CStr) : FsResult Int :=
  if name.chars = [] then ⟨-1, ascii "cd: missing argument\n", st⟩
  else if name.chars = ascii "/" then ⟨0, [], { st with cwd := fsRootIdx }⟩
  else if strcmp name.chars (ascii "..") = 0 ∧ (st.table st.cwd).parent = none then
    ⟨0, [], { st with cwd := fsRootIdx }⟩
  else
    match fsResolveDir st name with
    | none => ⟨-1, report "cd: '" name "': no such directory\n", st⟩
    | some target =>
      if (st.table target).type ≠ .dir then ⟨-1, report "cd: '" name "': not a directory\n", st⟩
      else ⟨0, [], { st with cwd := target }⟩

/-- `fs_pwd`; `none` is the out-of-bounds store of `fs_print_path`. -/
def fsPwd (st : FsState) : Option (List UInt8) :=
  (fsPrintPath st st.cwd).map (· ++ ascii "\n")

def fsListFiles (st : FsState) : List UInt8 :=
  let listed := (List.finRange fsMaxEntries).filter fun i =>
    (st.table i).type ≠ .none ∧ (st.table i).parent = some st.cwd
  if listed = [] then ascii "(empty)\n"
  else listed.flatMap fun i =>
    ascii (if (st.table i).type = .dir then "[DIR]  " else "[FILE] ") ++
      (st.table i).storedName ++ ascii "\n"

def fsCreateFile (st : FsState) (name : CStr) : FsResult Int :=
  if name.chars = [] then ⟨-1, ascii "touch: invalid name\n", st⟩
  else fsAdd st name .file "touch: '" "touch: filesystem full\n"

def fsWriteFile (st : FsState) (name data : CStr) : FsResult Unit :=
  match fsChild st name .file with
  | none => ⟨(), report "write: '" name "': no such file\n", st⟩
  | some idx => ⟨(), [], fsFill st idx data⟩

def fsReadFile (st : FsState) (name : CStr) : FsResult Unit :=
  match fsChild st name .file with
  | none => ⟨(), report "cat: '" name "': no such file\n", st⟩
  | some idx => ⟨(), (st.table idx).body ++ ascii "\n", st⟩

def fsRm (st : FsState) (name : CStr) : FsResult Int :=
  match fsChild st name .file with
  | none => ⟨-1, report "rm: '" name "': no such file\n", st⟩
  | some idx => ⟨0, [], fsDrop st idx⟩

def fsRmdir (st : FsState) (name : CStr) : FsResult Int :=
  if strcmp name.chars (ascii ".") = 0 ∨ strcmp name.chars (ascii "..") = 0 then
    ⟨-1, ascii "rmdir: cannot remove '.' or '..'\n", st⟩
  else
    match fsChild st name .dir with
    | none => ⟨-1, report "rmdir: '" name "': no such directory\n", st⟩
    | some idx =>
      if fsDirEmpty st idx then ⟨0, [], fsDrop st idx⟩
      else ⟨-1, report "rmdir: '" name "': directory not empty\n", st⟩

/-! ## Runs -/

/-- A call of the public API after `fs_init`. -/
inductive FsOp
  | mkdir (name : CStr)
  | createFile (name : CStr)
  | writeFile (name data : CStr)
  | readFile (name : CStr)
  | cd (name : CStr)
  | rm (name : CStr)
  | rmdir (name : CStr)
  | pwd
  | listFiles

/-- The state a call leaves. -/
def FsOp.run (st : FsState) : FsOp → FsState
  | .mkdir name => (fsMkdir st name).st
  | .createFile name => (fsCreateFile st name).st
  | .writeFile name data => (fsWriteFile st name data).st
  | .readFile name => (fsReadFile st name).st
  | .cd name => (fsCd st name).st
  | .rm name => (fsRm st name).st
  | .rmdir name => (fsRmdir st name).st
  | .pwd => st
  | .listFiles => st

def fsRun (st : FsState) (ops : List FsOp) : FsState := ops.foldl FsOp.run st

@[simp] theorem fsRun_nil (st : FsState) : fsRun st [] = st := rfl

@[simp] theorem fsRun_cons (st : FsState) (op : FsOp) (ops : List FsOp) :
    fsRun st (op :: ops) = fsRun (op.run st) ops := rfl

theorem fsRun_append (st : FsState) (ops ops' : List FsOp) :
    fsRun st (ops ++ ops') = fsRun (fsRun st ops) ops' :=
  List.foldl_append

/-- What every call preserves holds after every run. -/
theorem fsRun_induction {P : FsState → Prop} (step : ∀ st (op : FsOp), P st → P (op.run st))
    {st : FsState} (start : P st) (ops : List FsOp) : P (fsRun st ops) := by
  induction ops generalizing st with
  | nil => exact start
  | cons op ops ih => exact ih (step st op start)

theorem fsRun_take_succ (ops : List FsOp) {k : Nat} {op : FsOp} (atK : ops[k]? = some op) :
    fsRun fsInit (ops.take (k + 1)) = op.run (fsRun fsInit (ops.take k)) := by
  rw [List.take_add_one, atK, fsRun_append]
  rfl

/-- What a call preserves under the condition `C` holds in every state of a run whose
calls all meet `C`. -/
theorem fsRun_invariant {P : FsState → Prop} {C : FsState → FsOp → Prop} (start : P fsInit)
    (step : ∀ (before : List FsOp) (op : FsOp), P (fsRun fsInit before) →
      C (fsRun fsInit before) op → P (op.run (fsRun fsInit before))) {ops : List FsOp}
    (meets : ∀ (k : Nat) (op : FsOp), ops[k]? = some op → C (fsRun fsInit (ops.take k)) op)
    (k : Nat) : P (fsRun fsInit (ops.take k)) := by
  induction k with
  | zero => exact start
  | succ k ih =>
    cases atK : ops[k]? with
    | none =>
      rw [List.take_add_one, atK]
      simpa using ih
    | some op =>
      rw [fsRun_take_succ ops atK]
      exact step _ op ih (meets k op atK)

/-- What a call preserves exactly under the condition `C` holds in every state of a run
exactly when every call of the run meets `C`. -/
theorem fsRun_invariant_iff {P : FsState → Prop} {C : FsState → FsOp → Prop} (start : P fsInit)
    (step : ∀ (before : List FsOp) (op : FsOp), P (fsRun fsInit before) →
      (P (op.run (fsRun fsInit before)) ↔ C (fsRun fsInit before) op)) (ops : List FsOp) :
    (∀ k, P (fsRun fsInit (ops.take k))) ↔
      ∀ (k : Nat) (op : FsOp), ops[k]? = some op → C (fsRun fsInit (ops.take k)) op := by
  constructor
  · intro keeps k op atK
    have next := keeps (k + 1)
    rw [fsRun_take_succ ops atK] at next
    exact (step _ op (keeps k)).mp next
  · intro meets
    exact fsRun_invariant start (fun before op holds => (step before op holds).mpr) meets

/-! ## Field lemmas -/

section Fields

variable (st : FsState) (i j : FsIdx) (e : FsEntry)

@[simp] theorem FsState.setEntry_self : (st.setEntry i e).table i = e := by
  simp [setEntry]

@[simp] theorem FsState.setEntry_cwd : (st.setEntry i e).cwd = st.cwd := rfl

variable {i j} in
@[simp] theorem FsState.setEntry_of_ne (ne : j ≠ i) :
    (st.setEntry i e).table j = st.table j := by
  simp [setEntry, ne]

end Fields

/-! ## Lookup -/

/-- `i` is a live entry of directory `parentIdx` under the name `name`. -/
def FsNamed (st : FsState) (parentIdx : Option FsIdx) (name : List UInt8) (i : FsIdx) : Prop :=
  (st.table i).type ≠ .none ∧ (st.table i).parent = parentIdx ∧ (st.table i).storedName = name

theorem fsFindIn_eq_some_iff {st : FsState} {name : CStr} {parentIdx : Option FsIdx} {i : FsIdx} :
    fsFindIn st name parentIdx = some i ↔
      FsNamed st parentIdx name.chars i ∧ ∀ j < i, ¬ FsNamed st parentIdx name.chars j := by
  simp [fsFindIn, strcmp_eq_zero_iff, FsNamed, FsEntry.storedName]

theorem fsFindIn_eq_none_iff {st : FsState} {name : CStr} {parentIdx : Option FsIdx} :
    fsFindIn st name parentIdx = none ↔ ∀ i, ¬ FsNamed st parentIdx name.chars i := by
  simp [fsFindIn, strcmp_eq_zero_iff, FsNamed, FsEntry.storedName]

/-- Lookup does not consult the working directory. -/
theorem fsFindIn_chdir (st : FsState) (dir : FsIdx) (name : CStr) (parentIdx : Option FsIdx) :
    fsFindIn { st with cwd := dir } name parentIdx = fsFindIn st name parentIdx := by
  unfold fsFindIn
  rfl

theorem fsAlloc_free {st : FsState} {slot : FsIdx} (found : fsAlloc st = some slot) :
    (st.table slot).type = .none := by
  simpa using (Fin.find?_eq_some_iff.mp found).1

theorem fsAlloc_eq_none_iff {st : FsState} :
    fsAlloc st = none ↔ ∀ i, (st.table i).type ≠ .none := by
  simp [fsAlloc]

theorem fsDirEmpty_iff {st : FsState} {dirIdx : FsIdx} :
    fsDirEmpty st dirIdx = true ↔
      ∀ i, (st.table i).type ≠ .none → (st.table i).parent ≠ some dirIdx := by
  simp [fsDirEmpty]

theorem fsChild_eq_some_iff {st : FsState} {name : CStr} {type : FsType} {idx : FsIdx} :
    fsChild st name type = some idx ↔
      fsFindIn st name (some st.cwd) = some idx ∧ (st.table idx).type = type := by
  simp [fsChild, Option.filter_eq_some_iff]

end MOKernel
