import MOKernel.Paging

/-!
# Page tables as a map

What the tables say about an address is a function of its page number.  Over any calls
of `map_page` and `unmap_page` it is the function in which a call on a page below 4 MiB
sets the value at that page, and any other call does nothing (`paging_refines`).
-/

namespace MOKernel

/-- What a present page maps to. -/
structure PageFrame where
  frame : UInt32
  flags : UInt32
deriving DecidableEq

/-- From page numbers; `none` is not present. -/
abbrev PageMap := Nat → Option PageFrame

def pageNumber (virtAddr : UInt32) : Nat := virtAddr.toNat / 4096

/-- Pages 0 to 1023 map to themselves. -/
def identityMap : PageMap := fun n =>
  if n < pageEntries then some ⟨UInt32.ofNat (n * 4096), pagePresent ||| pageRw⟩ else none

inductive PageCall
  | map (physAddr virtAddr flags : UInt32)
  | unmap (virtAddr : UInt32)

namespace PageCall

def virtAddr : PageCall → UInt32
  | .map _ virtAddr _ => virtAddr
  | .unmap virtAddr => virtAddr

def exec (layout : VmLayout) (mem : ByteMemory) : PageCall → ByteMemory
  | .map physAddr virtAddr flags => mapPage layout mem physAddr virtAddr flags
  | .unmap virtAddr => unmapPage layout mem virtAddr

/-- What the call makes of the page. -/
def value : PageCall → Option PageFrame
  | .map physAddr _ flags => some ⟨physAddr &&& ~~~0xFFF, (flags &&& 0xFFF) ||| pagePresent⟩
  | .unmap _ => none

/-- The call on the abstract map. -/
def apply (map : PageMap) (call : PageCall) : PageMap :=
  if pageNumber call.virtAddr < pageEntries then
    Function.update map (pageNumber call.virtAddr) call.value
  else map

/-- The entry the code stores. -/
def entry : PageCall → UInt32
  | .map physAddr _ flags => pageBase physAddr ||| (flags &&& 0xFFF) ||| pagePresent
  | .unmap _ => 0

end PageCall

/-- What a page table entry says. -/
def decodePte (pte : UInt32) : Option PageFrame :=
  if pte &&& pagePresent = 0 then none else some ⟨pageBase pte, pte &&& 0xFFF⟩

/-- The two-level translation of an address, as a page and its flags. -/
def pageOf (layout : VmLayout) (mem : ByteMemory) (virtAddr : UInt32) : Option PageFrame :=
  (pteOf layout mem virtAddr).bind decodePte

/-! ## Entries -/

/-- Frame and flags of an entry do not overlap. -/
theorem decodePte_entry (call : PageCall) : decodePte call.entry = call.value := by
  cases call with
  | unmap virtAddr =>
    rw [PageCall.entry, PageCall.value, decodePte, if_pos (by decide)]
  | map physAddr virtAddr flags =>
    have apart : (0xFFF : UInt32) &&& ~~~0xFFF = 0 ∧ pagePresent &&& ~~~0xFFF = 0 ∧
        pagePresent &&& 0xFFF = pagePresent := ⟨rfl, rfl, rfl⟩
    have frame : pageBase (pageBase physAddr ||| (flags &&& 0xFFF) ||| pagePresent) =
        physAddr &&& ~~~0xFFF := by
      rw [pageBase, or_and_right, or_and_right, UInt32.and_assoc flags, apart.1, apart.2.1,
        UInt32.and_zero, UInt32.or_zero, UInt32.or_zero, pageBase, UInt32.and_assoc,
        UInt32.and_self]
    have low : (pageBase physAddr ||| (flags &&& 0xFFF) ||| pagePresent) &&& 0xFFF =
        (flags &&& 0xFFF) ||| pagePresent := by
      rw [or_and_right, or_and_right, pageBase_low, UInt32.zero_or, UInt32.and_assoc,
        UInt32.and_self, apart.2.2]
    rw [PageCall.entry, decodePte, or_present_and, if_neg (by decide), frame, low]
    rfl

theorem decodePte_identity {n : Nat} (lt : n < pageEntries) :
    decodePte (UInt32.ofNat n * 4096 ||| pagePresent ||| pageRw) =
      some ⟨UInt32.ofNat (n * 4096), pagePresent ||| pageRw⟩ := by
  have start : UInt32.ofNat n * 4096 = UInt32.ofNat (n * 4096) := by
    rw [UInt32.ofNat_mul]
    rfl
  have aligned : pageBase (UInt32.ofNat (n * 4096)) = UInt32.ofNat (n * 4096) := by
    simp only [pageEntries] at lt
    apply UInt32.toNat_inj.mp
    rw [toNat_pageBase, UInt32.toNat_ofNat', Nat.mod_eq_of_lt (by omega)]
    omega
  have low (addr : UInt32) :
      (pageBase addr ||| pagePresent ||| pageRw) &&& 0xFFF = pagePresent ||| pageRw := by
    rw [or_and_right, or_and_right, pageBase_low, UInt32.zero_or]
    rfl
  rw [decodePte, or_present_rw_and, if_neg (by decide), pageBase_flags, start, aligned,
    ← aligned, low]

/-! ## Page numbers -/

theorem pdIndex_eq_zero {virtAddr : UInt32} :
    pdIndex virtAddr = 0 ↔ pageNumber virtAddr < pageEntries := by
  rw [pdIndex_eq, pageNumber, pageEntries]
  omega

theorem ptIndex_eq_mod (virtAddr : UInt32) : ptIndex virtAddr = pageNumber virtAddr % 1024 := by
  have mask : (virtAddr >>> 12).toNat &&& 1023 = (virtAddr >>> 12).toNat % 1024 :=
    Nat.and_two_pow_sub_one_eq_mod _ 10
  have shift : (virtAddr >>> 12).toNat = virtAddr.toNat / 4096 := by
    simp [Nat.shiftRight_eq_div_pow]
  simp only [ptIndex, UInt32.toNat_and, UInt32.reduceToNat]
  rw [mask, shift, pageNumber]

theorem ptIndex_eq {virtAddr : UInt32} (low : pageNumber virtAddr < pageEntries) :
    ptIndex virtAddr = pageNumber virtAddr := by
  rw [ptIndex_eq_mod]
  exact Nat.mod_eq_of_lt low

/-! ## The refinement -/

/-- The tables agree with an abstract map. -/
structure Refines (layout : VmLayout) (mem : ByteMemory) (map : PageMap) : Prop where
  directory : DirectoryInv layout mem
  low : ∀ n, n < pageEntries →
    decodePte (load32 mem (layout.firstPageTable.toNat + 4 * n)) = map n
  high : ∀ n, pageEntries ≤ n → map n = none

variable {layout : VmLayout} {mem : ByteMemory} {map : PageMap}

theorem refines_pagingTables (layout : VmLayout) (mem : ByteMemory) :
    Refines layout (pagingTables layout mem) identityMap where
  directory := directoryInv_pagingTables layout mem
  low n lt := by
    have pages := layout.pages_apart
    have small := lt
    simp only [pageEntries] at small
    rw [pagingTables, load32_store32_of_disjoint (by simp only [pdeAddr]; omega),
      load32_storeTable _ lt, decodePte_identity lt, identityMap, if_pos lt]
  high n le := by
    rw [identityMap, if_neg (Nat.not_lt.mpr le)]

/-- The directory entry of a page, and where its table entry is. -/
theorem DirectoryInv.pde_low (inv : DirectoryInv layout mem) {virtAddr : UInt32}
    (low : pageNumber virtAddr < pageEntries) :
    load32 mem (pdeAddr layout (pdIndex virtAddr)) &&& pagePresent ≠ 0 ∧
      pteAddr (load32 mem (pdeAddr layout (pdIndex virtAddr))) (ptIndex virtAddr) =
        layout.firstPageTable.toNat + 4 * pageNumber virtAddr := by
  have present : load32 mem (pdeAddr layout (pdIndex virtAddr)) &&& pagePresent ≠ 0 := by
    rw [pdIndex_eq_zero.mpr low, inv.first, or_present_rw_and]
    decide
  exact ⟨present, by rw [(inv.present present).2, ptIndex_eq low]⟩

theorem DirectoryInv.pde_high (inv : DirectoryInv layout mem) {virtAddr : UInt32}
    (high : pageEntries ≤ pageNumber virtAddr) :
    load32 mem (pdeAddr layout (pdIndex virtAddr)) &&& pagePresent = 0 := by
  by_contra present
  exact absurd (pdIndex_eq_zero.mp (inv.present present).1) (Nat.not_lt.mpr high)

/-- Both calls store an entry if the directory has a table for it. -/
theorem PageCall.exec_eq_store (call : PageCall) (layout : VmLayout) (mem : ByteMemory) :
    call.exec layout mem =
      if load32 mem (pdeAddr layout (pdIndex call.virtAddr)) &&& pagePresent = 0 then mem
      else
        store32 mem (pteAddr (load32 mem (pdeAddr layout (pdIndex call.virtAddr)))
          (ptIndex call.virtAddr)) call.entry := by
  cases call with
  | map physAddr virtAddr flags => rfl
  | unmap virtAddr => rfl

/-- A call stores its entry into the table entry of its page, or nothing from 4 MiB on. -/
theorem PageCall.exec_eq (inv : DirectoryInv layout mem) (call : PageCall) :
    call.exec layout mem =
      if pageNumber call.virtAddr < pageEntries then
        store32 mem (layout.firstPageTable.toNat + 4 * pageNumber call.virtAddr) call.entry
      else mem := by
  rw [call.exec_eq_store]
  rcases lt_or_ge (pageNumber call.virtAddr) pageEntries with low | high
  · obtain ⟨present, entry⟩ := inv.pde_low low
    rw [if_pos low, if_neg present, entry]
  · rw [if_neg (Nat.not_lt.mpr high), if_pos (inv.pde_high high)]

theorem Refines.step (refines : Refines layout mem map) (call : PageCall) :
    Refines layout (call.exec layout mem) (call.apply map) := by
  rw [call.exec_eq refines.directory, PageCall.apply]
  split
  · rename_i low
    simp only [pageEntries] at low
    refine ⟨refines.directory.store low _, fun n lt => ?_, fun n le => ?_⟩
    · by_cases own : n = pageNumber call.virtAddr
      · rw [own, load32_store32, decodePte_entry, Function.update_self]
      · rw [load32_store32_of_disjoint (by omega), Function.update_of_ne own, refines.low n lt]
    · simp only [pageEntries] at le
      rw [Function.update_of_ne (by omega), refines.high n le]
  · exact refines

theorem Refines.run (refines : Refines layout mem map) (calls : List PageCall) :
    Refines layout (calls.foldl (PageCall.exec layout) mem) (calls.foldl PageCall.apply map) := by
  induction calls generalizing mem map with
  | nil => exact refines
  | cons call calls ih => exact ih (refines.step call)

theorem Refines.pageOf_eq (refines : Refines layout mem map) (virtAddr : UInt32) :
    pageOf layout mem virtAddr = map (pageNumber virtAddr) := by
  rcases lt_or_ge (pageNumber virtAddr) pageEntries with low | high
  · obtain ⟨present, entry⟩ := refines.directory.pde_low low
    rw [pageOf, pteOf, if_neg present, entry, Option.bind_some, refines.low _ low]
  · rw [pageOf, pteOf, if_pos (refines.directory.pde_high high), Option.bind_none,
      refines.high _ high]

/-- The physical address is the frame and the offset in the page. -/
theorem translate_eq (layout : VmLayout) (mem : ByteMemory) (virtAddr : UInt32) :
    translate layout mem virtAddr =
      (pageOf layout mem virtAddr).map fun page => page.frame.toNat + virtAddr.toNat % 4096 := by
  have offset : (virtAddr &&& 0xFFF).toNat = virtAddr.toNat % 4096 := by
    rw [UInt32.toNat_and]
    exact Nat.and_two_pow_sub_one_eq_mod _ 12
  unfold translate pageOf
  rcases pteOf layout mem virtAddr with _ | pte
  · rfl
  · simp only [Option.bind_some, decodePte, offset]
    split <;> rfl

/-- **Page-table refinement.**  After `paging_init` and any calls the translation of every
address is the abstract map at its page number, and a further call changes the translation
of no other page. -/
theorem paging_refines (layout : VmLayout) (boot : ByteMemory) (calls : List PageCall) :
    let mem := calls.foldl (PageCall.exec layout) (pagingTables layout boot)
    let map := calls.foldl PageCall.apply identityMap
    (∀ virtAddr, pageOf layout mem virtAddr = map (pageNumber virtAddr)) ∧
    (∀ virtAddr, translate layout mem virtAddr =
      (map (pageNumber virtAddr)).map fun page => page.frame.toNat + virtAddr.toNat % 4096) ∧
    (∀ (call : PageCall) virtAddr, pageNumber virtAddr ≠ pageNumber call.virtAddr →
      pageOf layout (call.exec layout mem) virtAddr = pageOf layout mem virtAddr) := by
  intro mem map
  have refines : Refines layout mem map := (refines_pagingTables layout boot).run calls
  refine ⟨refines.pageOf_eq, fun virtAddr => ?_, fun call virtAddr differ => ?_⟩
  · rw [translate_eq, refines.pageOf_eq]
  · rw [(refines.step call).pageOf_eq, refines.pageOf_eq, PageCall.apply]
    split
    · exact Function.update_of_ne differ _ _
    · rfl

end MOKernel
