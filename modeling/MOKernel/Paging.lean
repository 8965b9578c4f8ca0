import MOKernel.ByteMemory
import MOKernel.Swap

/-!
# Page tables

`paging.c` over physical memory as bytes.  The page directory and the first page
table are arrays at addresses that the linker chooses (`VmLayout`).  `translate` is the
two-level walk of the processor, and `mmuBus` is what a pointer access does under it.

`mapPage` and `unmapPage` are the calls where the code's pointers to the tables are
physical addresses, as its comments suppose; `mmuMapPage` and `mmuUnmapPage` are the
same calls where these pointers are translated by the tables like any other.

`DirectoryInv`: only the first directory entry is present, as `paging_init` leaves it, and
no address from 4 MiB on is mapped.
-/

namespace MOKernel

def pageEntries : Nat := 1024

def pagePresent : UInt32 := 0x001
def pageRw : UInt32 := 0x002
def pageUser : UInt32 := 0x004

/-- Where the linker puts the two arrays: page aligned and apart. -/
structure VmLayout where
  pageDirectory : UInt32
  firstPageTable : UInt32
  directoryAligned : pageDirectory.toNat % 4096 = 0
  tableAligned : firstPageTable.toNat % 4096 = 0
  apart : pageDirectory ≠ firstPageTable

variable (layout : VmLayout)

/-! ## The code -/

def pdIndex (virtAddr : UInt32) : Nat := (virtAddr >>> 22).toNat

def ptIndex (virtAddr : UInt32) : Nat := ((virtAddr >>> 12) &&& 0x03FF).toNat

/-- The physical address of a page directory entry. -/
def pdeAddr (index : Nat) : Nat := layout.pageDirectory.toNat + 4 * index

/-- The physical address of an entry of the page table that a directory entry points to. -/
def pteAddr (pde : UInt32) (index : Nat) : Nat := (pageBase pde).toNat + 4 * index

/-- The tables that `paging_init` writes. -/
def pagingTables (mem : ByteMemory) : ByteMemory :=
  let mem := storeTable mem layout.pageDirectory.toNat (fun _ => 0x00000002) pageEntries
  let mem := storeTable mem layout.firstPageTable.toNat
    (fun i => (UInt32.ofNat i * 4096) ||| pagePresent ||| pageRw) pageEntries
  store32 mem (pdeAddr layout 0) (layout.firstPageTable ||| pagePresent ||| pageRw)

def mapPage (mem : ByteMemory) (physAddr virtAddr flags : UInt32) : ByteMemory :=
  let pde := load32 mem (pdeAddr layout (pdIndex virtAddr))
  if pde &&& pagePresent = 0 then mem
  else
    store32 mem (pteAddr pde (ptIndex virtAddr))
      (pageBase physAddr ||| (flags &&& 0xFFF) ||| pagePresent)

def unmapPage (mem : ByteMemory) (virtAddr : UInt32) : ByteMemory :=
  let pde := load32 mem (pdeAddr layout (pdIndex virtAddr))
  if pde &&& pagePresent = 0 then mem
  else store32 mem (pteAddr pde (ptIndex virtAddr)) 0

/-! ## The processor -/

/-- The page table entry of a virtual address, if its table is present. -/
def pteOf (mem : ByteMemory) (virtAddr : UInt32) : Option UInt32 :=
  let pde := load32 mem (pdeAddr layout (pdIndex virtAddr))
  if pde &&& pagePresent = 0 then none
  else some (load32 mem (pteAddr pde (ptIndex virtAddr)))

/-- The physical address of a virtual one. -/
def translate (mem : ByteMemory) (virtAddr : UInt32) : Option Nat :=
  match pteOf layout mem virtAddr with
  | some pte =>
    if pte &&& pagePresent = 0 then none
    else some ((pageBase pte).toNat + (virtAddr &&& 0xFFF).toNat)
  | none => none

/-- Pointer accesses of the kernel under the current tables. -/
def mmuBus : ByteBus ByteMemory where
  load mem virtAddr :=
    match translate layout mem virtAddr with
    | some addr => .ok (mem addr)
    | none => .error virtAddr
  store mem virtAddr b :=
    match translate layout mem virtAddr with
    | some addr => .ok (Function.update mem addr b)
    | none => .error virtAddr

/-- A word inside a page: its address is translated once. -/
def mmuLoad32 (mem : ByteMemory) (virtAddr : UInt32) : Except UInt32 UInt32 :=
  match translate layout mem virtAddr with
  | some addr => .ok (load32 mem addr)
  | none => .error virtAddr

def mmuStore32 (mem : ByteMemory) (virtAddr w : UInt32) : Except UInt32 ByteMemory :=
  match translate layout mem virtAddr with
  | some addr => .ok (store32 mem addr w)
  | none => .error virtAddr

/-! ## The code under its own tables -/

/-- `&page_directory[index]`. -/
def pdePointer (index : Nat) : UInt32 := layout.pageDirectory + 4 * UInt32.ofNat index

/-- `&pt[index]`. -/
def ptePointer (pde : UInt32) (index : Nat) : UInt32 := pageBase pde + 4 * UInt32.ofNat index

/-- `map_page`; it fails with the address of an access that faults. -/
def mmuMapPage (mem : ByteMemory) (physAddr virtAddr flags : UInt32) :
    Except UInt32 ByteMemory := do
  let pde ← mmuLoad32 layout mem (pdePointer layout (pdIndex virtAddr))
  if pde &&& pagePresent = 0 then pure mem
  else
    mmuStore32 layout mem (ptePointer pde (ptIndex virtAddr))
      (pageBase physAddr ||| (flags &&& 0xFFF) ||| pagePresent)

/-- `unmap_page`. -/
def mmuUnmapPage (mem : ByteMemory) (virtAddr : UInt32) : Except UInt32 ByteMemory := do
  let pde ← mmuLoad32 layout mem (pdePointer layout (pdIndex virtAddr))
  if pde &&& pagePresent = 0 then pure mem
  else mmuStore32 layout mem (ptePointer pde (ptIndex virtAddr)) 0

/-! ## Addresses -/

variable {layout} {mem : ByteMemory}

theorem toNat_pageBase (addr : UInt32) : (pageBase addr).toNat = addr.toNat / 4096 * 4096 := by
  have mask : (~~~0xFFF : UInt32).toNat = (2 ^ 20 - 1) <<< 12 := rfl
  have bound := addr.toNat_lt
  rw [pageBase, UInt32.toNat_and, mask, and_mask_shiftLeft, Nat.shiftLeft_eq]
  omega

theorem or_and_right (a b mask : UInt32) : (a ||| b) &&& mask = a &&& mask ||| b &&& mask :=
  UInt32.toBitVec_inj.mp BitVec.and_or_distrib_right

theorem and_or_absorb (a mask : UInt32) : a &&& mask ||| mask = mask := by
  apply UInt32.eq_of_toBitVec_eq
  ext i lt
  simp only [UInt32.toBitVec_and, UInt32.toBitVec_or, BitVec.getElem_and, BitVec.getElem_or]
  cases mask.toBitVec[i] <;> simp

/-- The flags of an entry do not reach the address in it. -/
theorem pageBase_flags (addr : UInt32) :
    pageBase (addr ||| pagePresent ||| pageRw) = pageBase addr := by
  have apart : pagePresent &&& ~~~0xFFF = 0 ∧ pageRw &&& ~~~0xFFF = 0 := ⟨rfl, rfl⟩
  rw [pageBase, or_and_right, or_and_right, apart.1, apart.2, UInt32.or_zero, UInt32.or_zero,
    pageBase]

/-- An entry with the flag is present. -/
theorem or_present_and (addr : UInt32) : (addr ||| pagePresent) &&& pagePresent = pagePresent := by
  rw [or_and_right, UInt32.and_self, and_or_absorb]

theorem or_present_rw_and (addr : UInt32) :
    (addr ||| pagePresent ||| pageRw) &&& pagePresent = pagePresent := by
  have apart : pageRw &&& pagePresent = 0 := rfl
  rw [or_and_right, or_present_and, apart, UInt32.or_zero]

/-- The address of an entry does not reach the flags. -/
theorem pageBase_low (addr : UInt32) : pageBase addr &&& 0xFFF = 0 := by
  have apart : (~~~0xFFF : UInt32) &&& 0xFFF = 0 := rfl
  rw [pageBase, UInt32.and_assoc, apart, UInt32.and_zero]

theorem pdIndex_eq (virtAddr : UInt32) : pdIndex virtAddr = virtAddr.toNat / 4194304 := by
  simp [pdIndex, Nat.shiftRight_eq_div_pow]

theorem pdIndex_lt (virtAddr : UInt32) : pdIndex virtAddr < 1024 := by
  have bound := virtAddr.toNat_lt
  rw [pdIndex_eq]
  omega

theorem ptIndex_lt (virtAddr : UInt32) : ptIndex virtAddr < 1024 := by
  have low : (virtAddr >>> 12).toNat &&& 1023 = (virtAddr >>> 12).toNat % 1024 :=
    Nat.and_two_pow_sub_one_eq_mod _ 10
  simp only [ptIndex, UInt32.toNat_and, UInt32.reduceToNat, low]
  omega

/-! ## The directory -/

/-- The first entry points to the first page table; the others are not present. -/
structure DirectoryInv (layout : VmLayout) (mem : ByteMemory) : Prop where
  first : load32 mem (pdeAddr layout 0) = layout.firstPageTable ||| pagePresent ||| pageRw
  others : ∀ i, 0 < i → i < pageEntries → load32 mem (pdeAddr layout i) = 0x00000002

/-- The arrays occupy different pages. -/
theorem VmLayout.pages_apart (layout : VmLayout) :
    layout.pageDirectory.toNat + 4096 ≤ layout.firstPageTable.toNat ∨
      layout.firstPageTable.toNat + 4096 ≤ layout.pageDirectory.toNat := by
  have directory := layout.directoryAligned
  have table := layout.tableAligned
  have differ : layout.pageDirectory.toNat ≠ layout.firstPageTable.toNat := fun same =>
    layout.apart (UInt32.toNat_inj.mp same)
  omega

theorem directoryInv_pagingTables (layout : VmLayout) (mem : ByteMemory) :
    DirectoryInv layout (pagingTables layout mem) where
  first := load32_store32 _ _ _
  others i positive lt := by
    have pages := layout.pages_apart
    simp only [pageEntries] at lt
    simp only [pagingTables, pdeAddr]
    rw [load32_store32_of_disjoint (by omega),
      load32_storeTable_of_disjoint _ (by simp only [pageEntries]; omega)]
    exact load32_storeTable _ (by simp only [pageEntries]; omega)

/-- A present directory entry is the first. -/
theorem DirectoryInv.present (inv : DirectoryInv layout mem) {virtAddr : UInt32}
    (present : load32 mem (pdeAddr layout (pdIndex virtAddr)) &&& pagePresent ≠ 0) :
    pdIndex virtAddr = 0 ∧ ∀ index,
      pteAddr (load32 mem (pdeAddr layout (pdIndex virtAddr))) index =
        layout.firstPageTable.toNat + 4 * index := by
  have zero : pdIndex virtAddr = 0 := by
    by_contra nonzero
    rw [inv.others _ (Nat.pos_of_ne_zero nonzero) (pdIndex_lt virtAddr)] at present
    exact present (by decide)
  refine ⟨zero, fun index => ?_⟩
  have aligned := layout.tableAligned
  rw [zero, inv.first, pteAddr, pageBase_flags, toNat_pageBase]
  omega

/-- A store into the first page table leaves the directory alone. -/
theorem DirectoryInv.store (inv : DirectoryInv layout mem) {index : Nat} (lt : index < 1024)
    (w : UInt32) :
    DirectoryInv layout (store32 mem (layout.firstPageTable.toNat + 4 * index) w) := by
  have pages := layout.pages_apart
  have kept {i : Nat} (small : i < 1024) :
      load32 (store32 mem (layout.firstPageTable.toNat + 4 * index) w) (pdeAddr layout i) =
        load32 mem (pdeAddr layout i) :=
    load32_store32_of_disjoint (by simp only [pdeAddr]; omega) w
  constructor
  · rw [kept (by omega), inv.first]
  · intro i positive small
    rw [kept small, inv.others i positive small]

end MOKernel
