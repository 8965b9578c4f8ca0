import MOKernel.FsStep
import MOKernel.StringCompare

/-!
# Terminated strings

Every later scan of a name or a content ends where its NUL is.  `Terminated` is the
invariant of an entry, free or live: both arrays hold a NUL and the size is a length the
content can have.  The scans of `kernel.c` then stay inside an array that holds one
(`ScansInside`).
-/

namespace MOKernel

/-- The arrays of an entry hold strings, and its size is below that of the content. -/
structure Terminated (e : FsEntry) : Prop where
  name : (0 : UInt8) ∈ e.name.toList
  content : (0 : UInt8) ∈ e.content.toList
  size : e.size ≤ fsMaxFileSize - 1

/-! ## One step -/

theorem terminated_place {st : FsState} (all : ∀ i, Terminated (st.table i)) (slot : FsIdx)
    (type : FsType) (name : CStr) (i : FsIdx) :
    Terminated ((fsPlace st slot type name).table i) := by
  rcases eq_or_ne i slot with rfl | ne
  · rw [fsPlace, FsState.setEntry_self]
    exact {
      name := nul_mem_applyStores_copyLoop _ name.nulFree (by decide)
      content := (all i).content
      size := Nat.zero_le _ }
  · rw [fsPlace_of_ne st type name ne]
    exact all i

theorem terminated_fill {st : FsState} (all : ∀ i, Terminated (st.table i)) (idx : FsIdx)
    (data : CStr) (i : FsIdx) : Terminated ((fsFill st idx data).table i) := by
  rcases eq_or_ne i idx with rfl | ne
  · rw [fsFill, FsState.setEntry_self]
    have counter := copyLoop_counter data.nulFree (Nat.zero_le (fsMaxFileSize - 1))
    have stored := List.length_take_le (fsMaxFileSize - 1 - 0) data.chars
    exact {
      name := (all i).name
      content := nul_mem_applyStores_copyLoop _ data.nulFree (by decide)
      size := by
        change (copyLoop (fsMaxFileSize - 1) 0 data.chars).2 ≤ fsMaxFileSize - 1
        omega }
  · rw [fsFill_of_ne st data ne]
    exact all i

theorem terminated_drop {st : FsState} (all : ∀ i, Terminated (st.table i)) (idx i : FsIdx) :
    Terminated ((fsDrop st idx).table i) := by
  rcases eq_or_ne i idx with rfl | ne
  · rw [fsDrop, FsState.setEntry_self]
    exact { name := (all i).name, content := (all i).content, size := (all i).size }
  · rw [fsDrop_of_ne st ne]
    exact all i

theorem terminated_step {st st' : FsState} {op : FsOp} (step : FsStep st op st')
    (all : ∀ i, Terminated (st.table i)) (i : FsIdx) : Terminated (st'.table i) := by
  cases step with
  | idle => exact all i
  | cd target => exact all i
  | mkdir nonempty fresh free => exact terminated_place all _ _ _ i
  | createFile nonempty fresh free => exact terminated_place all _ _ _ i
  | writeFile found => exact terminated_fill all _ _ i
  | rm found => exact terminated_drop all _ i
  | rmdir found empty => exact terminated_drop all _ i

theorem terminated_init (i : FsIdx) : Terminated (fsInit.table i) where
  name := by simp [fsInit]
  content := by simp [fsInit]
  size := Nat.zero_le _

/-- Every slot is terminated after every run. -/
theorem terminated_fsRun (ops : List FsOp) : ∀ i, Terminated ((fsRun fsInit ops).table i) :=
  fsRun_induction (P := fun st => ∀ i, Terminated (st.table i))
    (fun st op all => terminated_step (fsStep_run st op) all) terminated_init ops

/-! ## Scans -/

/-- Wherever the array is in memory, every scan of the string in it ends, with what the
string gives, and reads no byte that is neither in the array nor in the string it is
compared with. -/
structure ScansInside {n : Nat} (v : Vector UInt8 n) : Prop where
  kprint : ∀ (mem : Nat → UInt8) (base : Nat), BytesAt mem base v.toList →
    ∀ (con : Console), ∀ fuel ≥ n,
      (kprintAt base fuel con 0).run mem = some (kprint con (cstr v.toList)) ∧
        (kprintAt base fuel con 0).ReadsIn mem (Set.Ico base (base + n))
  strcmp : ∀ (mem : Nat → UInt8) (base s2 : Nat) (s : CStr), BytesAt mem base v.toList →
    StringAt mem s2 s → ∀ fuel ≥ n,
      (strcmpAt fuel base s2).run mem = some (strcmp v.toList s.chars) ∧
        (strcmpAt fuel base s2).ReadsIn mem
          (Set.Ico base (base + n) ∪ Set.Icc s2 (s2 + s.chars.length))

theorem scansInside_of_nul_mem {n : Nat} {v : Vector UInt8 n}
    (terminated : (0 : UInt8) ∈ v.toList) :
    ScansInside v := by
  have short : (cstr v.toList).length < n := by simpa using length_cstr_lt terminated
  refine { kprint := fun mem base held con fuel enough => ?_,
           strcmp := fun mem base s2 s held other fuel enough => ?_ }
  · have string : StringAt mem (base + 0) ⟨cstr v.toList, _⟩ := stringAt_of_bytesAt held terminated
    obtain ⟨printed, reads⟩ :=
      kprintAt_spec con (cstr_nulFree v.toList) string (lt_of_lt_of_le short enough)
    refine ⟨printed, reads.mono fun p inside => ⟨inside.1, ?_⟩⟩
    have last : p ≤ base + 0 + (cstr v.toList).length := inside.2
    omega
  · have string := stringAt_of_bytesAt held terminated
    obtain ⟨answer, reads⟩ :=
      strcmpAt_spec (cstr_nulFree v.toList) string other (lt_of_lt_of_le short enough)
    rw [strcmp_cstr] at answer
    refine ⟨answer, reads.mono ?_⟩
    rintro p ⟨i, compared, place⟩
    have le : i ≤ min (cstr v.toList).length s.chars.length :=
      comparedPositions_subset _ _ compared
    rcases place with rfl | rfl
    · exact .inl ⟨Nat.le_add_right _ _, by omega⟩
    · exact .inr ⟨Nat.le_add_right _ _, by omega⟩

/-- **Stored strings stay terminated.**  After every run from `fs_init` the name of every
slot has a NUL at an index up to 16, its content one at an index up to 255, and its size
is at most 255; no string makes the copy loops store outside the arrays; and every scan of
a stored name or content ends inside its array. -/
theorem fs_strings_terminated (ops : List FsOp) (i : FsIdx) :
    let e := (fsRun fsInit ops).table i
    (∃ j ≤ 16, e.name.toList[j]? = some 0) ∧ (∃ j ≤ 255, e.content.toList[j]? = some 0) ∧
      e.size ≤ 255 ∧
      (∀ src : CStr, (∀ store ∈ (copyLoop fsMaxNameLen 0 src.chars).1, store.1 < fsMaxNameLen + 1) ∧
        ∀ store ∈ (copyLoop (fsMaxFileSize - 1) 0 src.chars).1, store.1 < fsMaxFileSize) ∧
      ScansInside e.name ∧ ScansInside e.content := by
  have invariant := terminated_fsRun ops i
  obtain ⟨j, named⟩ := List.mem_iff_getElem?.mp invariant.name
  obtain ⟨k, held⟩ := List.mem_iff_getElem?.mp invariant.content
  have inName := (List.getElem?_eq_some_iff.mp named).1
  have inContent := (List.getElem?_eq_some_iff.mp held).1
  rw [Vector.length_toList] at inName inContent
  refine ⟨⟨j, Nat.le_of_lt_succ inName, named⟩, ⟨k, Nat.le_of_lt_succ inContent, held⟩,
    invariant.size, fun src => ⟨fun store member => ?_, fun store member => ?_⟩,
    scansInside_of_nul_mem invariant.name, scansInside_of_nul_mem invariant.content⟩
  · exact Nat.lt_succ_of_le (copyLoop_store_le (Nat.zero_le _) src.chars store member)
  · exact Nat.lt_succ_of_le (copyLoop_store_le (Nat.zero_le _) src.chars store member)

end MOKernel
