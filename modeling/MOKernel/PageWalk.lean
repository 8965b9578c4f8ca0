import MOKernel.PageMap

/-!
# The walk and its tables

Which physical pages the processor reads on a walk, and what follows: a store outside
these pages changes no translation, a store of one table entry changes it for one page
(`OwnTable`).

A copy to a page that is mapped outside them is a store of its bytes (`mmuBus_copyOut`),
and where the directory and a table are mapped to themselves, `map_page` and
`unmap_page` reach them at their physical addresses (`mmuMapPage_eq`, `mmuUnmapPage_eq`).
-/

namespace MOKernel

/-- The page table that an entry of the directory points to. -/
def tableOf (layout : VmLayout) (mem : ByteMemory) (index : Nat) : Option UInt32 :=
  let pde := load32 mem (pdeAddr layout index)
  if pde &&& pagePresent = 0 then none else some (pageBase pde)

/-- The physical page holds the directory or a table. -/
def IsTable (layout : VmLayout) (mem : ByteMemory) (page : Nat) : Prop :=
  page = pageNumber layout.pageDirectory ∨
    ∃ index < pageEntries, (tableOf layout mem index).map pageNumber = some page

instance (layout : VmLayout) (mem : ByteMemory) (page : Nat) :
    Decidable (IsTable layout mem page) :=
  inferInstanceAs (Decidable (_ ∨ _))

/-- Two memories that agree on the directory and the tables of the first. -/
def SameTables (layout : VmLayout) (mem mem' : ByteMemory) : Prop :=
  ∀ addr, IsTable layout mem (addr / 4096) → mem' addr = mem addr

variable {layout : VmLayout} {mem mem' : ByteMemory}

/-! ## Pages -/

theorem pdIndex_eq_div (virtAddr : UInt32) : pdIndex virtAddr = pageNumber virtAddr / 1024 := by
  rw [pdIndex_eq, pageNumber, Nat.div_div_eq_div_mul]

/-- The tables see only the page of an address. -/
theorem pteOf_congr {a b : UInt32} (same : pageNumber a = pageNumber b) :
    pteOf layout mem a = pteOf layout mem b := by
  simp only [pteOf, pdIndex_eq_div, ptIndex_eq_mod, same]

theorem pageBase_eq_iff {a b : UInt32} :
    pageBase a = pageBase b ↔ pageNumber a = pageNumber b := by
  rw [← UInt32.toNat_inj, toNat_pageBase, toNat_pageBase, pageNumber, pageNumber]
  omega

/-- Where one address of a page is, the others are beside it. -/
theorem translate_add {page : UInt32} {addr : Nat} (mapped : translate layout mem page = some addr)
    (aligned : page.toNat % 4096 = 0) {i : Nat} (lt : i < 4096) :
    translate layout mem (page + UInt32.ofNat i) = some (addr + i) := by
  have bound := page.toNat_lt
  have sum : (page + UInt32.ofNat i).toNat = page.toNat + i := by
    rw [UInt32.toNat_add, UInt32.toNat_ofNat', Nat.mod_eq_of_lt (show i < 2 ^ 32 by omega)]
    omega
  have same : pageNumber (page + UInt32.ofNat i) = pageNumber page := by
    rw [pageNumber, sum, pageNumber]
    omega
  rw [translate_eq, pageOf] at mapped ⊢
  rw [pteOf_congr same, sum]
  obtain ⟨frame, found, rfl⟩ := Option.map_eq_some_iff.mp mapped
  rw [found, Option.map_some]
  exact congrArg some (by omega)

/-- The frame of a page is page aligned. -/
theorem translate_aligned {page : UInt32} {addr : Nat}
    (mapped : translate layout mem page = some addr) (aligned : page.toNat % 4096 = 0) :
    addr % 4096 = 0 := by
  rw [translate_eq, pageOf] at mapped
  obtain ⟨frame, found, rfl⟩ := Option.map_eq_some_iff.mp mapped
  obtain ⟨pte, -, decoded⟩ := Option.bind_eq_some_iff.mp found
  rw [decodePte] at decoded
  split at decoded
  · contradiction
  · cases decoded
    simp only [toNat_pageBase]
    omega

/-! ## Tables -/

theorem pteOf_eq_map (virtAddr : UInt32) :
    pteOf layout mem virtAddr = (tableOf layout mem (pdIndex virtAddr)).map fun table =>
      load32 mem (table.toNat + 4 * ptIndex virtAddr) := by
  simp only [pteOf, tableOf, pteAddr]
  split <;> rfl

theorem tableOf_aligned {index : Nat} {table : UInt32}
    (present : tableOf layout mem index = some table) : table.toNat % 4096 = 0 := by
  simp only [tableOf] at present
  split at present
  · contradiction
  · cases present
    rw [toNat_pageBase]
    omega

theorem isTable_congr
    (tables : ∀ index < pageEntries, tableOf layout mem' index = tableOf layout mem index)
    (page : Nat) : IsTable layout mem' page ↔ IsTable layout mem page := by
  simp only [IsTable]
  refine or_congr_right (exists_congr fun index => and_congr_right fun lt => ?_)
  rw [tables index lt]

theorem isTable_directory (layout : VmLayout) (mem : ByteMemory) :
    IsTable layout mem (pageNumber layout.pageDirectory) := .inl rfl

theorem isTable_of_tableOf {index : Nat} (lt : index < pageEntries) {table : UInt32}
    (present : tableOf layout mem index = some table) : IsTable layout mem (pageNumber table) :=
  .inr ⟨index, lt, by rw [present, Option.map_some]⟩

/-- A word of a page on which two memories agree. -/
theorem load32_of_page {base index : Nat} (aligned : base % 4096 = 0) (lt : index < 1024)
    (same : ∀ addr, addr / 4096 = base / 4096 → mem' addr = mem addr) :
    load32 mem' (base + 4 * index) = load32 mem (base + 4 * index) := by
  simp only [load32]
  rw [same _ (by omega), same _ (by omega), same _ (by omega), same _ (by omega)]

namespace SameTables

theorem tableOf_eq (same : SameTables layout mem mem') {index : Nat} (lt : index < pageEntries) :
    tableOf layout mem' index = tableOf layout mem index := by
  have directory : load32 mem' (pdeAddr layout index) = load32 mem (pdeAddr layout index) := by
    refine load32_of_page layout.directoryAligned lt fun addr page => same addr ?_
    rw [page]
    exact isTable_directory layout mem
  simp only [tableOf, directory]

theorem pteOf_eq (same : SameTables layout mem mem') (virtAddr : UInt32) :
    pteOf layout mem' virtAddr = pteOf layout mem virtAddr := by
  rw [pteOf_eq_map, pteOf_eq_map, same.tableOf_eq (pdIndex_lt virtAddr)]
  cases present : tableOf layout mem (pdIndex virtAddr) with
  | none => rfl
  | some table =>
    refine congrArg some (load32_of_page (tableOf_aligned present) (ptIndex_lt virtAddr) ?_)
    intro addr page
    apply same
    rw [page]
    exact isTable_of_tableOf (pdIndex_lt virtAddr) present

theorem translate_eq (same : SameTables layout mem mem') (virtAddr : UInt32) :
    translate layout mem' virtAddr = translate layout mem virtAddr := by
  simp only [translate, same.pteOf_eq]

theorem isTable_iff (same : SameTables layout mem mem') (page : Nat) :
    IsTable layout mem' page ↔ IsTable layout mem page :=
  isTable_congr (fun _ lt => same.tableOf_eq lt) page

end SameTables

/-- Bytes stored outside the tables. -/
theorem sameTables_storeAt {off : Nat} {bytes : List UInt8}
    (clear : ∀ i < bytes.length, ¬ IsTable layout mem ((off + i) / 4096)) :
    SameTables layout mem (storeAt mem off bytes) := by
  intro addr table
  apply storeAt_of_notMem
  by_contra inside
  push Not at inside
  refine clear (addr - off) (by omega) ?_
  rwa [Nat.add_sub_cancel' inside.1]

/-! ## Copies -/

/-- A copy whose bytes are all mapped, one behind the other and outside the tables. -/
theorem mmuBus_copyOut {dest : UInt32} {addr : Nat} {bytes : List UInt8}
    (mapped : ∀ i < bytes.length,
      translate layout mem (dest + UInt32.ofNat i) = some (addr + i))
    (clear : ∀ i < bytes.length, ¬ IsTable layout mem ((addr + i) / 4096)) :
    (mmuBus layout).copyOut mem dest bytes = .ok (storeAt mem addr bytes) := by
  induction bytes generalizing mem dest addr with
  | nil =>
    refine congrArg Except.ok (funext fun i => ?_)
    exact (storeAt_of_notMem (by simp only [List.length_nil]; omega)).symm
  | cons b bs ih =>
    simp only [List.length_cons] at mapped clear
    have here : translate layout mem dest = some addr := by
      simpa using mapped 0 (by omega)
    have one : Function.update mem addr b = storeAt mem addr [b] := by
      funext i
      by_cases own : i = addr
      · rw [own, Function.update_self]
        have stored : storeAt mem addr [b] (addr + 0) = [b][0] := storeAt_of_mem (by simp)
        exact stored.symm
      · rw [Function.update_of_ne own, storeAt_of_notMem]
        rw [List.length_singleton]
        omega
    have same : SameTables layout mem (storeAt mem addr [b]) :=
      sameTables_storeAt fun i lt => clear i (by rw [List.length_singleton] at lt; omega)
    have tail : (mmuBus layout).copyOut (storeAt mem addr [b]) (dest + 1) bs =
        .ok (storeAt (storeAt mem addr [b]) (addr + 1) bs) := by
      refine ih (fun i lt => ?_) fun i lt => ?_
      · have next := mapped (i + 1) (by omega)
        rw [same.translate_eq, UInt32.add_assoc, Nat.add_assoc, Nat.add_comm 1 i]
        rwa [UInt32.ofNat_add, UInt32.add_comm (UInt32.ofNat i)] at next
      · rw [same.isTable_iff, Nat.add_assoc, Nat.add_comm 1 i]
        exact clear (i + 1) (by omega)
    have first : (mmuBus layout).store mem dest b = .ok (storeAt mem addr [b]) := by
      simp only [mmuBus, here, one]
    rw [ByteBus.copyOut, first]
    refine Eq.trans tail (congrArg Except.ok ?_)
    exact (storeAt_append mem addr [b] bs).symm

/-- A copy into a page that is mapped outside the tables. -/
theorem mmuBus_copyOut_page {page : UInt32} {addr off : Nat} {bytes : List UInt8}
    (mapped : translate layout mem page = some addr) (aligned : page.toNat % 4096 = 0)
    (fits : off + bytes.length ≤ 4096) (clear : ¬ IsTable layout mem (addr / 4096)) :
    (mmuBus layout).copyOut mem (page + UInt32.ofNat off) bytes =
        .ok (storeAt mem (addr + off) bytes) ∧
      SameTables layout mem (storeAt mem (addr + off) bytes) := by
  have start := translate_aligned mapped aligned
  have outside : ∀ i < bytes.length, ¬ IsTable layout mem ((addr + off + i) / 4096) := by
    intro i lt
    rwa [show (addr + off + i) / 4096 = addr / 4096 by omega]
  refine ⟨mmuBus_copyOut (fun i lt => ?_) outside, sameTables_storeAt outside⟩
  rw [UInt32.add_assoc, ← UInt32.ofNat_add, Nat.add_assoc]
  exact translate_add mapped aligned (by omega)

/-! ## One entry -/

/-- The page has a table, which is neither the directory nor the table of other pages' entry
in the directory. -/
structure OwnTable (layout : VmLayout) (mem : ByteMemory) (virtAddr table : UInt32) : Prop where
  present : tableOf layout mem (pdIndex virtAddr) = some table
  apart : table ≠ layout.pageDirectory
  unshared : ∀ index < pageEntries,
    tableOf layout mem index = some table → index = pdIndex virtAddr

/-- With a table the call stores its entry. -/
theorem PageCall.exec_of_table (call : PageCall) {table : UInt32}
    (present : tableOf layout mem (pdIndex call.virtAddr) = some table) :
    call.exec layout mem =
      store32 mem (table.toNat + 4 * ptIndex call.virtAddr) call.entry := by
  rw [call.exec_eq_store]
  simp only [tableOf] at present
  split at present
  · contradiction
  · rename_i absent
    cases present
    rw [if_neg absent, pteAddr]

namespace OwnTable

variable {virtAddr table : UInt32}

/-- A store into the table does not reach another table. -/
theorem load32_other (own : OwnTable layout mem virtAddr table) {other : UInt32} {index : Nat}
    (aligned : other.toNat % 4096 = 0) (lt : index < 1024) (differ : other ≠ table)
    (entry : UInt32) :
    load32 (store32 mem (table.toNat + 4 * ptIndex virtAddr) entry) (other.toNat + 4 * index) =
      load32 mem (other.toNat + 4 * index) := by
  have start := tableOf_aligned own.present
  have small := ptIndex_lt virtAddr
  have pages : other.toNat ≠ table.toNat := fun same => differ (UInt32.toNat_inj.mp same)
  exact load32_store32_of_disjoint (by omega) entry

theorem tableOf_store (own : OwnTable layout mem virtAddr table) (entry : UInt32) {index : Nat}
    (lt : index < pageEntries) :
    tableOf layout (store32 mem (table.toNat + 4 * ptIndex virtAddr) entry) index =
      tableOf layout mem index := by
  have kept : load32 (store32 mem (table.toNat + 4 * ptIndex virtAddr) entry)
      (pdeAddr layout index) = load32 mem (pdeAddr layout index) :=
    own.load32_other layout.directoryAligned lt own.apart.symm entry
  simp only [tableOf, kept]

theorem isTable_store (own : OwnTable layout mem virtAddr table) (entry : UInt32) (page : Nat) :
    IsTable layout (store32 mem (table.toNat + 4 * ptIndex virtAddr) entry) page ↔
      IsTable layout mem page :=
  isTable_congr (fun _ lt => own.tableOf_store entry lt) page

theorem pteOf_store (own : OwnTable layout mem virtAddr table) (entry : UInt32) :
    pteOf layout (store32 mem (table.toNat + 4 * ptIndex virtAddr) entry) virtAddr =
      some entry := by
  rw [pteOf_eq_map, own.tableOf_store entry (pdIndex_lt virtAddr), own.present,
    Option.map_some, load32_store32]

/-- The entries of the other pages stay. -/
theorem pteOf_other (own : OwnTable layout mem virtAddr table) (entry : UInt32) {other : UInt32}
    (differ : pageNumber other ≠ pageNumber virtAddr) :
    pteOf layout (store32 mem (table.toNat + 4 * ptIndex virtAddr) entry) other =
      pteOf layout mem other := by
  rw [pteOf_eq_map, pteOf_eq_map, own.tableOf_store entry (pdIndex_lt other)]
  cases present : tableOf layout mem (pdIndex other) with
  | none => rfl
  | some table' =>
    refine congrArg some ?_
    by_cases same : table' = table
    · -- the same table: the pages differ in the index into it
      subst same
      have directory := own.unshared _ (pdIndex_lt other) present
      rw [pdIndex_eq_div, pdIndex_eq_div] at directory
      have index : ptIndex other ≠ ptIndex virtAddr := by
        rw [ptIndex_eq_mod, ptIndex_eq_mod]
        omega
      exact load32_store32_of_disjoint (by omega) entry
    · exact own.load32_other (tableOf_aligned present) (ptIndex_lt other) same entry

theorem translate_other (own : OwnTable layout mem virtAddr table) (entry : UInt32)
    {other : UInt32} (differ : pageNumber other ≠ pageNumber virtAddr) :
    translate layout (store32 mem (table.toNat + 4 * ptIndex virtAddr) entry) other =
      translate layout mem other := by
  simp only [translate, own.pteOf_other entry differ]

/-- The table is still its own where the tables are the same. -/
theorem of_same (own : OwnTable layout mem virtAddr table) (same : SameTables layout mem mem') :
    OwnTable layout mem' virtAddr table where
  present := by rw [same.tableOf_eq (pdIndex_lt virtAddr), own.present]
  apart := own.apart
  unshared index lt shared := own.unshared index lt (by rwa [same.tableOf_eq lt] at shared)

end OwnTable

/-! ## Tables mapped to themselves -/

/-- The directory and the table of an address, if it has one, are where their physical
addresses point. -/
structure TablesMapped (layout : VmLayout) (mem : ByteMemory) (virtAddr : UInt32) : Prop where
  directory : translate layout mem layout.pageDirectory = some layout.pageDirectory.toNat
  table : ∀ table, tableOf layout mem (pdIndex virtAddr) = some table →
    translate layout mem table = some table.toNat

namespace TablesMapped

variable {virtAddr : UInt32}

theorem of_same (tables : TablesMapped layout mem virtAddr) (same : SameTables layout mem mem') :
    TablesMapped layout mem' virtAddr where
  directory := by rw [same.translate_eq, tables.directory]
  table table present := by
    rw [same.tableOf_eq (pdIndex_lt virtAddr)] at present
    rw [same.translate_eq, tables.table table present]

/-- The directory entry that the code reads. -/
theorem load_pde (tables : TablesMapped layout mem virtAddr) :
    mmuLoad32 layout mem (pdePointer layout (pdIndex virtAddr)) =
      .ok (load32 mem (pdeAddr layout (pdIndex virtAddr))) := by
  have small := pdIndex_lt virtAddr
  have pointer : pdePointer layout (pdIndex virtAddr) =
      layout.pageDirectory + UInt32.ofNat (4 * pdIndex virtAddr) := by
    rw [pdePointer, UInt32.ofNat_mul]
    rfl
  simp only [mmuLoad32, pointer,
    translate_add tables.directory layout.directoryAligned
      (show 4 * pdIndex virtAddr < 4096 by omega), pdeAddr]

/-- The table entry that the code writes. -/
theorem store_pte (tables : TablesMapped layout mem virtAddr) {pde : UInt32}
    (entry : pde = load32 mem (pdeAddr layout (pdIndex virtAddr)))
    (present : pde &&& pagePresent ≠ 0) (w : UInt32) :
    mmuStore32 layout mem (ptePointer pde (ptIndex virtAddr)) w =
      .ok (store32 mem (pteAddr pde (ptIndex virtAddr)) w) := by
  have small := ptIndex_lt virtAddr
  have found : tableOf layout mem (pdIndex virtAddr) = some (pageBase pde) := by
    rw [tableOf, ← entry, if_neg present]
  have pointer : ptePointer pde (ptIndex virtAddr) =
      pageBase pde + UInt32.ofNat (4 * ptIndex virtAddr) := by
    rw [ptePointer, UInt32.ofNat_mul]
    rfl
  simp only [mmuStore32, pointer,
    translate_add (tables.table _ found) (tableOf_aligned found)
      (show 4 * ptIndex virtAddr < 4096 by omega), pteAddr]

/-- What both calls do. -/
theorem store_entry (tables : TablesMapped layout mem virtAddr) (w : UInt32) :
    (do
      let pde ← mmuLoad32 layout mem (pdePointer layout (pdIndex virtAddr))
      if pde &&& pagePresent = 0 then pure mem
      else mmuStore32 layout mem (ptePointer pde (ptIndex virtAddr)) w) =
    Except.ok (
      let pde := load32 mem (pdeAddr layout (pdIndex virtAddr))
      if pde &&& pagePresent = 0 then mem else store32 mem (pteAddr pde (ptIndex virtAddr)) w) := by
  rw [tables.load_pde]
  by_cases absent : load32 mem (pdeAddr layout (pdIndex virtAddr)) &&& pagePresent = 0
  · simp only [if_pos absent]
    exact if_pos absent
  · simp only [if_neg absent]
    exact (if_neg absent).trans (tables.store_pte rfl absent w)

end TablesMapped

theorem mmuMapPage_eq {virtAddr : UInt32} (tables : TablesMapped layout mem virtAddr)
    (physAddr flags : UInt32) :
    mmuMapPage layout mem physAddr virtAddr flags =
      .ok (mapPage layout mem physAddr virtAddr flags) :=
  tables.store_entry _

theorem mmuUnmapPage_eq {virtAddr : UInt32} (tables : TablesMapped layout mem virtAddr) :
    mmuUnmapPage layout mem virtAddr = .ok (unmapPage layout mem virtAddr) :=
  tables.store_entry 0

/-! ## Wherever the tables are -/

/-- Where the pointers of the code lead for the entry of a page, if the directory entry that
the code reads is present. -/
def entryTarget (layout : VmLayout) (mem : ByteMemory) (virtAddr : UInt32) : Option Nat :=
  match mmuLoad32 layout mem (pdePointer layout (pdIndex virtAddr)) with
  | .ok pde =>
    if pde &&& pagePresent = 0 then none
    else translate layout mem (ptePointer pde (ptIndex virtAddr))
  | .error _ => none

theorem entryTarget_eq_some {virtAddr : UInt32} {addr : Nat}
    (found : entryTarget layout mem virtAddr = some addr) :
    ∃ pde, mmuLoad32 layout mem (pdePointer layout (pdIndex virtAddr)) = .ok pde ∧
      pde &&& pagePresent ≠ 0 ∧
      ∀ w, mmuStore32 layout mem (ptePointer pde (ptIndex virtAddr)) w =
        .ok (store32 mem addr w) := by
  rw [entryTarget] at found
  split at found
  · rename_i pde read
    split at found
    · contradiction
    · rename_i present
      exact ⟨pde, read, present, fun w => by simp only [mmuStore32, found]⟩
  · contradiction

/-- The calls store their entry there. -/
theorem mmuMapPage_of_target {virtAddr : UInt32} {addr : Nat}
    (found : entryTarget layout mem virtAddr = some addr) (physAddr flags : UInt32) :
    mmuMapPage layout mem physAddr virtAddr flags =
      .ok (store32 mem addr (PageCall.map physAddr virtAddr flags).entry) := by
  obtain ⟨pde, read, present, stored⟩ := entryTarget_eq_some found
  exact bind_eq_ok.mpr ⟨pde, read, (if_neg present).trans (stored _)⟩

theorem mmuUnmapPage_of_target {virtAddr : UInt32} {addr : Nat}
    (found : entryTarget layout mem virtAddr = some addr) :
    mmuUnmapPage layout mem virtAddr =
      .ok (store32 mem addr (PageCall.unmap virtAddr).entry) := by
  obtain ⟨pde, read, present, stored⟩ := entryTarget_eq_some found
  exact bind_eq_ok.mpr ⟨pde, read, (if_neg present).trans (stored _)⟩

end MOKernel
