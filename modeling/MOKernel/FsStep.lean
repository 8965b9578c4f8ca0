import MOKernel.Fs

/-!
# What one filesystem call can do

`FsStep st op st'` lists the five ways a call changes the state: not at all, by
moving the working directory, by making a free slot an entry of it, by
overwriting the content of one of its files, or by freeing one of its children.
`fsStep_run` inverts every public function into it, so an invariant is proved by
cases on the step and never by unfolding a function of `fs.c`.
-/

namespace MOKernel

/-- What a call of the API can do to the state. -/
inductive FsStep (st : FsState) : FsOp → FsState → Prop
  | idle {op : FsOp} : FsStep st op st
  | cd {name : CStr} {target : FsIdx} :
    target = fsRootIdx ∨ (st.table target).type = .dir →
    FsStep st (.cd name) { st with cwd := target }
  | mkdir {name : CStr} {slot : FsIdx} :
    name.chars ≠ [] → fsFindIn st name (some st.cwd) = none → fsAlloc st = some slot →
    FsStep st (.mkdir name) (fsPlace st slot .dir name)
  | createFile {name : CStr} {slot : FsIdx} :
    name.chars ≠ [] → fsFindIn st name (some st.cwd) = none → fsAlloc st = some slot →
    FsStep st (.createFile name) (fsPlace st slot .file name)
  | writeFile {name data : CStr} {idx : FsIdx} :
    fsChild st name .file = some idx → FsStep st (.writeFile name data) (fsFill st idx data)
  | rm {name : CStr} {idx : FsIdx} :
    fsChild st name .file = some idx → FsStep st (.rm name) (fsDrop st idx)
  | rmdir {name : CStr} {idx : FsIdx} :
    fsChild st name .dir = some idx → fsDirEmpty st idx = true →
    FsStep st (.rmdir name) (fsDrop st idx)

/-! ## One specification per function -/

/-- `fsAdd` fails without a trace or places the allocated slot. -/
theorem fsAdd_cases (st : FsState) (name : CStr) (type : FsType) (dup full : String) :
    ((fsAdd st name type dup full).ret = -1 ∧ (fsAdd st name type dup full).st = st ∧
      (fsFindIn st name (some st.cwd) = none → fsAlloc st = none)) ∨
    ∃ slot, fsFindIn st name (some st.cwd) = none ∧ fsAlloc st = some slot ∧
      fsAdd st name type dup full = ⟨slot, [], fsPlace st slot type name⟩ := by
  unfold fsAdd
  cases found : fsFindIn st name (some st.cwd) with
  | some _ => exact Or.inl ⟨rfl, rfl, by simp⟩
  | none =>
    cases free : fsAlloc st with
    | none => exact Or.inl ⟨rfl, rfl, fun _ => rfl⟩
    | some slot => exact Or.inr ⟨slot, rfl, rfl, rfl⟩

/-- The names `fs_mkdir` accepts. -/
def MkdirAdmits (name : CStr) : Prop :=
  name.chars ≠ [] ∧ name.chars ≠ ascii "." ∧ name.chars ≠ ascii ".."

theorem strcmp_ascii_eq_zero {name : CStr} {lit : String} (nulFree : (0 : UInt8) ∉ ascii lit) :
    strcmp name.chars (ascii lit) = 0 ↔ name.chars = ascii lit := by
  rw [strcmp_eq_zero_iff, CStr.cstr_chars, cstr_eq_self nulFree]

theorem strcmp_dot {name : CStr} : strcmp name.chars (ascii ".") = 0 ↔ name.chars = ascii "." :=
  strcmp_ascii_eq_zero (by decide)

theorem strcmp_dotDot {name : CStr} :
    strcmp name.chars (ascii "..") = 0 ↔ name.chars = ascii ".." :=
  strcmp_ascii_eq_zero (by decide)

theorem fsMkdir_of_admits {name : CStr} (admits : MkdirAdmits name) (st : FsState) :
    fsMkdir st name = fsAdd st name .dir "mkdir: '" "mkdir: filesystem full\n" := by
  simp [fsMkdir, strcmp_dot, strcmp_dotDot, admits.1, admits.2.1, admits.2.2]

theorem fsMkdir_of_not_admits {name : CStr} (rejects : ¬ MkdirAdmits name) (st : FsState) :
    (fsMkdir st name).ret = -1 ∧ (fsMkdir st name).st = st := by
  unfold fsMkdir
  by_cases empty : name.chars = []
  · simp [empty]
  · have special : name.chars = ascii "." ∨ name.chars = ascii ".." := by
      by_contra neither
      exact rejects ⟨empty, fun h => neither (Or.inl h), fun h => neither (Or.inr h)⟩
    simp [empty, strcmp_dot, strcmp_dotDot, special]

theorem fsCreateFile_of_nonempty {name : CStr} (nonempty : name.chars ≠ []) (st : FsState) :
    fsCreateFile st name = fsAdd st name .file "touch: '" "touch: filesystem full\n" := by
  simp [fsCreateFile, nonempty]

theorem fsCreateFile_of_empty {name : CStr} (empty : name.chars = []) (st : FsState) :
    (fsCreateFile st name).ret = -1 ∧ (fsCreateFile st name).st = st := by
  simp [fsCreateFile, empty]

/-- `fs_cd` fails without a trace or moves to the root or to a directory. -/
theorem fsCd_cases (st : FsState) (name : CStr) :
    ((fsCd st name).ret = -1 ∧ (fsCd st name).st = st) ∨
    ∃ target, (target = fsRootIdx ∨ (st.table target).type = .dir) ∧
      fsCd st name = ⟨0, [], { st with cwd := target }⟩ := by
  unfold fsCd
  split
  · exact Or.inl ⟨rfl, rfl⟩
  · split
    · exact Or.inr ⟨fsRootIdx, Or.inl rfl, rfl⟩
    · split
      · exact Or.inr ⟨fsRootIdx, Or.inl rfl, rfl⟩
      · split
        · exact Or.inl ⟨rfl, rfl⟩
        · next target _ =>
          by_cases dir : (st.table target).type = .dir
          · exact Or.inr ⟨target, Or.inr dir, by simp [dir]⟩
          · exact Or.inl (by simp [dir])

section Child

variable {st : FsState} {name : CStr} {idx : FsIdx}

theorem fsWriteFile_of_child (child : fsChild st name .file = some idx) (data : CStr) :
    fsWriteFile st name data = ⟨(), [], fsFill st idx data⟩ := by
  unfold fsWriteFile
  rw [child]

theorem fsReadFile_of_child (child : fsChild st name .file = some idx) :
    fsReadFile st name = ⟨(), (st.table idx).body ++ ascii "\n", st⟩ := by
  unfold fsReadFile
  rw [child]

theorem fsRm_of_child (child : fsChild st name .file = some idx) :
    fsRm st name = ⟨0, [], fsDrop st idx⟩ := by
  unfold fsRm
  rw [child]

end Child

theorem fsWriteFile_cases (st : FsState) (name data : CStr) :
    (fsChild st name .file = none ∧
      fsWriteFile st name data = ⟨(), report "write: '" name "': no such file\n", st⟩) ∨
    ∃ idx, fsChild st name .file = some idx ∧
      fsWriteFile st name data = ⟨(), [], fsFill st idx data⟩ := by
  cases child : fsChild st name .file with
  | none => exact Or.inl ⟨rfl, by unfold fsWriteFile; rw [child]⟩
  | some idx => exact Or.inr ⟨idx, rfl, fsWriteFile_of_child child data⟩

theorem fsRm_cases (st : FsState) (name : CStr) :
    ((fsRm st name).ret = -1 ∧ (fsRm st name).st = st ∧ fsChild st name .file = none) ∨
    ∃ idx, fsChild st name .file = some idx ∧ fsRm st name = ⟨0, [], fsDrop st idx⟩ := by
  cases child : fsChild st name .file with
  | none =>
    unfold fsRm
    rw [child]
    exact Or.inl ⟨rfl, rfl, rfl⟩
  | some idx => exact Or.inr ⟨idx, rfl, fsRm_of_child child⟩

theorem fsRmdir_cases (st : FsState) (name : CStr) :
    ((fsRmdir st name).ret = -1 ∧ (fsRmdir st name).st = st) ∨
    ∃ idx, fsChild st name .dir = some idx ∧ fsDirEmpty st idx = true ∧
      fsRmdir st name = ⟨0, [], fsDrop st idx⟩ := by
  unfold fsRmdir
  split
  · exact Or.inl ⟨rfl, rfl⟩
  · cases found : fsChild st name .dir with
    | none => exact Or.inl ⟨rfl, rfl⟩
    | some idx =>
      by_cases empty : fsDirEmpty st idx = true
      · exact Or.inr ⟨idx, rfl, empty, by simp [empty]⟩
      · exact Or.inl (by simp [empty])

theorem fsReadFile_st (st : FsState) (name : CStr) : (fsReadFile st name).st = st := by
  unfold fsReadFile
  split <;> rfl

/-! ## Inversion -/

/-- **Inversion.**  Every call is one of the steps. -/
theorem fsStep_run (st : FsState) (op : FsOp) : FsStep st op (op.run st) := by
  cases op with
  | mkdir name =>
    by_cases admits : MkdirAdmits name
    · simp only [FsOp.run, fsMkdir_of_admits admits]
      rcases fsAdd_cases st name .dir _ _ with ⟨-, same, -⟩ | ⟨slot, fresh, free, placed⟩
      · rw [same]; exact .idle
      · rw [placed]; exact .mkdir admits.1 fresh free
    · rw [FsOp.run, (fsMkdir_of_not_admits admits st).2]; exact .idle
  | createFile name =>
    by_cases empty : name.chars = []
    · rw [FsOp.run, (fsCreateFile_of_empty empty st).2]; exact .idle
    · simp only [FsOp.run, fsCreateFile_of_nonempty empty]
      rcases fsAdd_cases st name .file _ _ with ⟨-, same, -⟩ | ⟨slot, fresh, free, placed⟩
      · rw [same]; exact .idle
      · rw [placed]; exact .createFile empty fresh free
  | writeFile name data =>
    rcases fsWriteFile_cases st name data with ⟨-, same⟩ | ⟨idx, found, filled⟩
    · rw [FsOp.run, same]; exact .idle
    · rw [FsOp.run, filled]; exact .writeFile found
  | readFile name => rw [FsOp.run, fsReadFile_st]; exact .idle
  | cd name =>
    rcases fsCd_cases st name with ⟨-, same⟩ | ⟨target, dest, moved⟩
    · rw [FsOp.run, same]; exact .idle
    · rw [FsOp.run, moved]; exact .cd dest
  | rm name =>
    rcases fsRm_cases st name with ⟨-, same, -⟩ | ⟨idx, found, dropped⟩
    · rw [FsOp.run, same]; exact .idle
    · rw [FsOp.run, dropped]; exact .rm found
  | rmdir name =>
    rcases fsRmdir_cases st name with ⟨-, same⟩ | ⟨idx, found, empty, dropped⟩
    · rw [FsOp.run, same]; exact .idle
    · rw [FsOp.run, dropped]; exact .rmdir found empty
  | pwd => exact .idle
  | listFiles => exact .idle

/-- A resolved child is a live entry of the working directory under that name. -/
theorem named_of_fsChild {st : FsState} {name : CStr} {type : FsType} {idx : FsIdx}
    (found : fsChild st name type = some idx) :
    FsNamed st (some st.cwd) name.chars idx ∧ (st.table idx).type = type :=
  ⟨(fsFindIn_eq_some_iff.mp (fsChild_eq_some_iff.mp found).1).1, (fsChild_eq_some_iff.mp found).2⟩

/-! ## What the three updates do to an entry -/

section Updates

variable (st : FsState) (slot idx : FsIdx) (type : FsType) (name data : CStr)

@[simp] theorem fsPlace_cwd : (fsPlace st slot type name).cwd = st.cwd := rfl
@[simp] theorem fsFill_cwd : (fsFill st idx data).cwd = st.cwd := rfl
@[simp] theorem fsDrop_cwd : (fsDrop st idx).cwd = st.cwd := rfl

variable {slot idx} in
@[simp] theorem fsPlace_of_ne {j : FsIdx} (ne : j ≠ slot) :
    (fsPlace st slot type name).table j = st.table j := by
  simp [fsPlace, ne]

variable {idx} in
@[simp] theorem fsFill_of_ne {j : FsIdx} (ne : j ≠ idx) :
    (fsFill st idx data).table j = st.table j := by
  simp [fsFill, ne]

variable {idx} in
@[simp] theorem fsDrop_of_ne {j : FsIdx} (ne : j ≠ idx) :
    (fsDrop st idx).table j = st.table j := by
  simp [fsDrop, ne]

@[simp] theorem fsPlace_type : ((fsPlace st slot type name).table slot).type = type := by
  simp [fsPlace]

@[simp] theorem fsPlace_parent :
    ((fsPlace st slot type name).table slot).parent = some st.cwd := by
  simp [fsPlace]

@[simp] theorem fsPlace_storedName :
    ((fsPlace st slot type name).table slot).storedName = name.chars.take fsMaxNameLen := by
  simp only [fsPlace, FsState.setEntry_self, FsEntry.storedName, fsStrncpy]
  exact cstr_applyStores_copyLoop _ name.nulFree (by decide)

@[simp] theorem fsFill_body :
    ((fsFill st idx data).table idx).body = data.chars.take (fsMaxFileSize - 1) := by
  simp only [fsFill, FsState.setEntry_self, FsEntry.body]
  exact cstr_applyStores_copyLoop _ data.nulFree (by decide)

variable (j : FsIdx)

@[simp] theorem fsFill_type : ((fsFill st idx data).table j).type = (st.table j).type := by
  rcases eq_or_ne j idx with rfl | ne
  · simp [fsFill]
  · simp [ne]

@[simp] theorem fsFill_parent : ((fsFill st idx data).table j).parent = (st.table j).parent := by
  rcases eq_or_ne j idx with rfl | ne
  · simp [fsFill]
  · simp [ne]

@[simp] theorem fsFill_storedName :
    ((fsFill st idx data).table j).storedName = (st.table j).storedName := by
  rcases eq_or_ne j idx with rfl | ne
  · simp [fsFill, FsEntry.storedName]
  · simp [ne]

@[simp] theorem fsDrop_type_self : ((fsDrop st idx).table idx).type = .none := by
  simp [fsDrop]

@[simp] theorem fsDrop_parent : ((fsDrop st idx).table j).parent = (st.table j).parent := by
  rcases eq_or_ne j idx with rfl | ne
  · simp [fsDrop]
  · simp [ne]

@[simp] theorem fsDrop_storedName :
    ((fsDrop st idx).table j).storedName = (st.table j).storedName := by
  rcases eq_or_ne j idx with rfl | ne
  · simp [fsDrop, FsEntry.storedName]
  · simp [ne]

end Updates

/-! ## Lookup after a placement -/

/-- Who has a name in the working directory after an entry is placed there. -/
theorem fsNamed_place_iff {st : FsState} {name : CStr} {slot : FsIdx}
    (vacant : (st.table slot).type = .none) {type : FsType} (live : type ≠ .none)
    {n : List UInt8} {i : FsIdx} :
    FsNamed (fsPlace st slot type name) (some st.cwd) n i ↔
      FsNamed st (some st.cwd) n i ∨ i = slot ∧ name.chars.take fsMaxNameLen = n := by
  rcases eq_or_ne i slot with rfl | ne
  · have absent : ¬FsNamed st (some st.cwd) n i := fun named => named.1 vacant
    simp [FsNamed, live, vacant]
  · simp [FsNamed, ne]

/-- A new name that is not cut resolves to the new entry. -/
theorem fsFindIn_place_self {st : FsState} {name : CStr} {slot : FsIdx}
    (vacant : (st.table slot).type = .none) {type : FsType} (live : type ≠ .none)
    (short : name.chars.length ≤ fsMaxNameLen)
    (fresh : ∀ i, ¬FsNamed st (some st.cwd) name.chars i) :
    fsFindIn (fsPlace st slot type name) name (some st.cwd) = some slot := by
  have stored : name.chars.take fsMaxNameLen = name.chars := List.take_of_length_le short
  refine fsFindIn_eq_some_iff.mpr ⟨(fsNamed_place_iff vacant live).mpr (.inr ⟨rfl, stored⟩), ?_⟩
  intro j before named
  rcases (fsNamed_place_iff vacant live).mp named with old | ⟨rfl, -⟩
  · exact fresh j old
  · exact lt_irrefl j before

end MOKernel
