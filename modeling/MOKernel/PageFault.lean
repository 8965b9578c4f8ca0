import MOKernel.PageWalk
import MOKernel.PmmFrames

/-!
# The page fault handler

`page_fault_handler` over the page tables, the swap store and the frame allocator.
`VmReach` are the states after `paging_init` and any sequence of swap stores,
mappings, unmappings and handled faults.  Every pointer access to physical memory, the
tables included, is translated by the current tables; the statics of `pmm.c` and
`swap.c` are taken to be reached as they are.

The handler copies the page out of the swap store through the physical address of
the new frame, before it maps anything.  Frames come from 4 MiB on, and `paging_init`
maps nothing there: unless earlier calls of `map_page` have put a table there and mapped
the frame to itself, the first byte of the copy faults.  `map_page` returns silently if
there is no table for the page.  `FaultReady` is what the handler needs
(`page_fault_handled_when`).
-/

namespace MOKernel

/-- Physical memory and the statics of `pmm.c` and `swap.c`. -/
structure VmState where
  mem : ByteMemory
  swap : SwapStore
  pmm : PmmState

/-- Before the kernel runs. -/
def vmBoot (mem : ByteMemory) : VmState := ⟨mem, swapBoot, pmmBoot⟩

def pagingInit (layout : VmLayout) (st : VmState) : VmState :=
  { mem := pagingTables layout st.mem
    swap := swapInit st.swap
    pmm := pmmInit st.pmm 0x1000000 }

/-! ## The handler -/

/-- Text on the screen from an address on, every character with its attribute. -/
def showText {M : Type} (bus : ByteBus M) (mem : M) (video : UInt32) (attr : UInt8) :
    List UInt8 → Except UInt32 M
  | [] => .ok mem
  | c :: cs => do
    let mem ← bus.store mem video c
    let mem ← bus.store mem (video + 1) attr
    showText bus mem (video + 2) attr cs

/-- How the handler ends: it returns to the faulting instruction or halts. -/
inductive FaultEnd
  | returned | halted

/-- The panic code of the handler. -/
def faultPanic (layout : VmLayout) (st : VmState) : Except UInt32 (FaultEnd × VmState) := do
  let mem ← showText (mmuBus layout) st.mem 0xb8000 0x4F (ascii "PAGE FAULT DETECTED!")
  pure (.halted, { st with mem := mem })

/-- `page_fault_handler` for the address in CR2; it fails with the address of an access that
faults in turn. -/
def pageFaultHandler (layout : VmLayout) (st : VmState) (faulting : UInt32) :
    Except UInt32 (FaultEnd × VmState) :=
  if swapExists st.swap faulting then
    let alloc := pmmAllocPage st.pmm
    let st := { st with pmm := alloc.2 }
    if alloc.1 = 0 then faultPanic layout st
    else do
      let mem ← swapRead (mmuBus layout) st.swap st.mem faulting alloc.1
      let mem ← mmuMapPage layout mem alloc.1 faulting (pagePresent ||| pageRw ||| pageUser)
      let mem ← showText (mmuBus layout) mem (0xb8000 + 80 * 24 * 2) 0x02
        (ascii "Page Fault Handled: Loaded from Swap!")
      pure (.returned, { st with mem := mem })
  else faultPanic layout st

/-! ## Runs -/

inductive VmReach (layout : VmLayout) : VmState → Prop
  | init (mem : ByteMemory) : VmReach layout (pagingInit layout (vmBoot mem))
  | swapWrite {st : VmState} {swap : SwapStore} (virtAddr physAddr : UInt32) :
    VmReach layout st → swapWrite (mmuBus layout) st.swap st.mem virtAddr physAddr = .ok swap →
    VmReach layout { st with swap := swap }
  | swapTestStore {st : VmState} (virtAddr : UInt32) (data : CStr) :
    VmReach layout st → VmReach layout { st with swap := swapTestStore st.swap virtAddr data }
  | mapPage {st : VmState} {mem : ByteMemory} (physAddr virtAddr flags : UInt32) :
    VmReach layout st → mmuMapPage layout st.mem physAddr virtAddr flags = .ok mem →
    VmReach layout { st with mem := mem }
  | unmapPage {st : VmState} {mem : ByteMemory} (virtAddr : UInt32) :
    VmReach layout st → mmuUnmapPage layout st.mem virtAddr = .ok mem →
    VmReach layout { st with mem := mem }
  | fault {st st' : VmState} (faulting : UInt32) :
    VmReach layout st → pageFaultHandler layout st faulting = .ok (.returned, st') →
    VmReach layout st'

/-! ## The contract -/

/-- The fault on `faulting` is handled in `st'`: the handler returns without a fault of its
own, the page is mapped to the new frame, the frame holds the stored page, and no other page
is translated differently. -/
structure FaultHandled (layout : VmLayout) (st st' : VmState) (faulting : UInt32) : Prop where
  returns : pageFaultHandler layout st faulting = .ok (.returned, st')
  mapped : ∃ pte, pteOf layout st'.mem faulting = some pte ∧
    pageBase pte = (pmmAllocPage st.pmm).1 ∧
    pte &&& (pagePresent ||| pageRw ||| pageUser) = pagePresent ||| pageRw ||| pageUser
  filled : ∀ i, swapFindIndex st.swap faulting = some i → ∀ j, (lt : j < swapPageBytes) →
    st'.mem ((pmmAllocPage st.pmm).1.toNat + j) = (st.swap i).data[j]
  others : ∀ virtAddr, pageBase virtAddr ≠ pageBase faulting →
    translate layout st'.mem virtAddr = translate layout st.mem virtAddr

/-- What the handler takes for granted before it runs: the new frame, if it is mapped, is mapped
to itself and is no table; directory and table of the page are mapped to themselves, and the
table is the page's own; the screen is mapped outside the tables and the frame, and its page
is not the one that faults. -/
structure PagesInPlace (layout : VmLayout) (st : VmState) (faulting : UInt32) : Prop where
  frame : ∀ addr, translate layout st.mem (pmmAllocPage st.pmm).1 = some addr →
    addr = (pmmAllocPage st.pmm).1.toNat
  frameClear : ¬ IsTable layout st.mem (pageNumber (pmmAllocPage st.pmm).1)
  tables : TablesMapped layout st.mem faulting
  own : ∀ table, tableOf layout st.mem (pdIndex faulting) = some table →
    OwnTable layout st.mem faulting table
  screen : ∃ text, translate layout st.mem 0xb8000 = some text ∧
    ¬ IsTable layout st.mem (text / 4096) ∧ text ≠ (pmmAllocPage st.pmm).1.toNat
  apart : pageNumber faulting ≠ pageNumber 0xb8000

/-- And what it needs besides: the frame is mapped already, and the page has a table. -/
structure FaultReady (layout : VmLayout) (st : VmState) (faulting : UInt32) : Prop
    extends PagesInPlace layout st faulting where
  mapped : translate layout st.mem (pmmAllocPage st.pmm).1 ≠ none
  table : tableOf layout st.mem (pdIndex faulting) ≠ none

variable {layout : VmLayout} {st : VmState} {faulting : UInt32}

/-- The handler on a stored page, with a frame left. -/
theorem handler_eq (stored : swapExists st.swap faulting)
    (available : (pmmAllocPage st.pmm).1 ≠ 0) :
    pageFaultHandler layout st faulting = (do
      let mem ← swapRead (mmuBus layout) st.swap st.mem faulting (pmmAllocPage st.pmm).1
      let mem ← mmuMapPage layout mem (pmmAllocPage st.pmm).1 faulting
        (pagePresent ||| pageRw ||| pageUser)
      let mem ← showText (mmuBus layout) mem (0xb8000 + 80 * 24 * 2) 0x02
        (ascii "Page Fault Handled: Loaded from Swap!")
      pure (.returned, { st with mem := mem, pmm := (pmmAllocPage st.pmm).2 })) := by
  rw [pageFaultHandler, if_pos stored]
  exact if_neg available

/-! ## Where the frame is not mapped -/

/-- Text as the screen holds it. -/
def shownCells (attr : UInt8) (text : List UInt8) : List UInt8 := text.flatMap fun c => [c, attr]

theorem showText_eq_copyOut {M : Type} (bus : ByteBus M) (mem : M) (video : UInt32)
    (attr : UInt8) (text : List UInt8) :
    showText bus mem video attr text = bus.copyOut mem video (shownCells attr text) := by
  induction text generalizing mem video with
  | nil => rfl
  | cons c cs ih =>
    have next : video + 1 + 1 = video + 2 := UInt32.add_assoc video 1 1
    simp only [showText, shownCells, List.flatMap_cons, List.cons_append, List.nil_append,
      ByteBus.copyOut, next]
    refine bind_congr fun mem => bind_congr fun mem => ?_
    exact ih mem (video + 2)

/-- The message of a handled fault. -/
def handledCells : List UInt8 :=
  shownCells 0x02 (ascii "Page Fault Handled: Loaded from Swap!")

/-- What the entry of the page becomes. -/
def faultEntry (frame : UInt32) : UInt32 :=
  pageBase frame ||| ((pagePresent ||| pageRw ||| pageUser) &&& 0xFFF) ||| pagePresent

/-- The page in its frame. -/
def loadedMemory (st : VmState) (i : Fin swapMaxPages) : ByteMemory :=
  storeAt st.mem (pmmAllocPage st.pmm).1.toNat (st.swap i).data.toList

/-- The frame in the table of the page. -/
def mappedMemory (st : VmState) (i : Fin swapMaxPages) (table faulting : UInt32) : ByteMemory :=
  store32 (loadedMemory st i) (table.toNat + 4 * ptIndex faulting)
    (faultEntry (pmmAllocPage st.pmm).1)

/-- The message on the screen, whose page is at `text`. -/
def handledMemory (st : VmState) (i : Fin swapMaxPages) (table faulting : UInt32) (text : Nat) :
    ByteMemory :=
  storeAt (mappedMemory st i table faulting) (text + 80 * 24 * 2) handledCells

variable {i : Fin swapMaxPages} {table : UInt32} {text : Nat}

theorem PagesInPlace.loaded (place : PagesInPlace layout st faulting)
    (aligned : (pmmAllocPage st.pmm).1.toNat % 4096 = 0)
    (mapped : translate layout st.mem (pmmAllocPage st.pmm).1 ≠ none)
    (found : swapFindIndex st.swap faulting = some i) :
    swapRead (mmuBus layout) st.swap st.mem faulting (pmmAllocPage st.pmm).1 =
        .ok (loadedMemory st i) ∧
      SameTables layout st.mem (loadedMemory st i) := by
  obtain ⟨addr, frame⟩ := Option.ne_none_iff_exists'.mp mapped
  obtain rfl := place.frame addr frame
  have fits : 0 + (st.swap i).data.toList.length ≤ 4096 := by
    rw [Vector.length_toList, Nat.zero_add]
  have copied := mmuBus_copyOut_page frame aligned fits place.frameClear
  have start : (pmmAllocPage st.pmm).1 + UInt32.ofNat 0 = (pmmAllocPage st.pmm).1 :=
    UInt32.add_zero _
  rw [start, Nat.add_zero] at copied
  rw [swapRead_of_found found]
  exact copied

/-- The message, wherever the screen is mapped outside the tables. -/
theorem showText_handled {mem : ByteMemory}
    (screen : translate layout mem 0xb8000 = some text)
    (clear : ¬ IsTable layout mem (text / 4096)) :
    showText (mmuBus layout) mem (0xb8000 + 80 * 24 * 2) 0x02
        (ascii "Page Fault Handled: Loaded from Swap!") =
      .ok (storeAt mem (text + 80 * 24 * 2) handledCells) ∧
    SameTables layout mem (storeAt mem (text + 80 * 24 * 2) handledCells) := by
  rw [showText_eq_copyOut]
  exact mmuBus_copyOut_page screen (by decide) (by decide) clear

theorem PagesInPlace.mapped (place : PagesInPlace layout st faulting)
    (same : SameTables layout st.mem (loadedMemory st i))
    (own : OwnTable layout st.mem faulting table) :
    mmuMapPage layout (loadedMemory st i) (pmmAllocPage st.pmm).1 faulting
        (pagePresent ||| pageRw ||| pageUser) =
      .ok (mappedMemory st i table faulting) := by
  rw [mmuMapPage_eq (place.tables.of_same same)]
  exact congrArg Except.ok (PageCall.exec_of_table (.map _ _ _) (own.of_same same).present)

/-- The screen is still mapped when the message is shown. -/
theorem PagesInPlace.shown (place : PagesInPlace layout st faulting)
    (same : SameTables layout st.mem (loadedMemory st i))
    (own : OwnTable layout st.mem faulting table)
    (screen : translate layout st.mem 0xb8000 = some text)
    (clear : ¬ IsTable layout st.mem (text / 4096)) :
    showText (mmuBus layout) (mappedMemory st i table faulting) (0xb8000 + 80 * 24 * 2) 0x02
        (ascii "Page Fault Handled: Loaded from Swap!") =
      .ok (handledMemory st i table faulting text) ∧
    SameTables layout (mappedMemory st i table faulting)
      (handledMemory st i table faulting text) := by
  have own' := own.of_same same
  refine showText_handled ?_ ?_
  · rw [mappedMemory, own'.translate_other _ place.apart.symm, same.translate_eq, screen]
  · rwa [mappedMemory, own'.isTable_store, same.isTable_iff]

/-- The entry leads to the frame, with the flags of the handler. -/
theorem faultEntry_decoded {frame : UInt32} (aligned : frame.toNat % 4096 = 0) :
    pageBase (faultEntry frame) = frame ∧
      faultEntry frame &&& (pagePresent ||| pageRw ||| pageUser) =
        pagePresent ||| pageRw ||| pageUser := by
  have base : pageBase frame = frame := by
    apply UInt32.toNat_inj.mp
    rw [toNat_pageBase]
    omega
  have low : ((pagePresent ||| pageRw ||| pageUser) &&& 0xFFF) ||| pagePresent = 7 := rfl
  have apart : (7 : UInt32) &&& ~~~0xFFF = 0 := rfl
  have flags : pagePresent ||| pageRw ||| pageUser = 7 := rfl
  have entry : faultEntry frame = frame ||| 7 := by
    rw [faultEntry, base, UInt32.or_assoc, low]
  constructor
  · rw [entry, pageBase, or_and_right, apart, UInt32.or_zero]
    exact base
  · rw [entry, flags, or_and_right, UInt32.and_self, and_or_absorb]

/-- The page of the new frame after the handler: neither the table nor the screen is in it. -/
theorem handledMemory_frame (aligned : (pmmAllocPage st.pmm).1.toNat % 4096 = 0)
    (tableAligned : table.toNat % 4096 = 0) (textAligned : text % 4096 = 0)
    (tableApart : table.toNat ≠ (pmmAllocPage st.pmm).1.toNat)
    (textApart : text ≠ (pmmAllocPage st.pmm).1.toNat) {j : Nat} (lt : j < swapPageBytes) :
    handledMemory st i table faulting text ((pmmAllocPage st.pmm).1.toNat + j) =
      (st.swap i).data[j] := by
  have small := ptIndex_lt faulting
  have message : handledCells.length = 74 := by decide
  have inside : j < 4096 := lt
  rw [handledMemory, storeAt_of_notMem (by omega), mappedMemory, store32,
    storeAt_of_notMem (by rw [length_le32]; omega), loadedMemory,
    storeAt_of_mem (by rwa [Vector.length_toList])]
  rfl

theorem FaultReady.handled (ready : FaultReady layout st faulting)
    (aligned : (pmmAllocPage st.pmm).1.toNat % 4096 = 0)
    (available : (pmmAllocPage st.pmm).1 ≠ 0) (stored : swapExists st.swap faulting) :
    ∃ st', FaultHandled layout st st' faulting := by
  obtain ⟨i, found⟩ := Option.isSome_iff_exists.mp stored
  obtain ⟨table, present⟩ := Option.ne_none_iff_exists'.mp ready.table
  obtain ⟨text, screen, clear, textApart⟩ := ready.screen
  have own := ready.own table present
  obtain ⟨loaded, same⟩ := ready.loaded aligned ready.mapped found
  obtain ⟨shown, sameShown⟩ := ready.shown same own screen clear
  have own' := own.of_same same
  have tableApart : table.toNat ≠ (pmmAllocPage st.pmm).1.toNat := by
    intro shared
    refine ready.frameClear ?_
    rw [← UInt32.toNat_inj.mp shared]
    exact isTable_of_tableOf (pdIndex_lt faulting) present
  have returns : pageFaultHandler layout st faulting = .ok (.returned, { st with
      mem := handledMemory st i table faulting text, pmm := (pmmAllocPage st.pmm).2 }) := by
    rw [handler_eq stored available]
    exact bind_eq_ok.mpr ⟨_, loaded, bind_eq_ok.mpr ⟨_, ready.toPagesInPlace.mapped same own,
      bind_eq_ok.mpr ⟨_, shown, rfl⟩⟩⟩
  refine ⟨_, returns, ?_, ?_, ?_⟩
  · obtain ⟨base, flags⟩ := faultEntry_decoded aligned
    refine ⟨_, ?_, base, flags⟩
    rw [sameShown.pteOf_eq]
    exact own'.pteOf_store _
  · intro i' found' j lt
    cases found.symm.trans found'
    exact handledMemory_frame aligned (tableOf_aligned present)
      (translate_aligned screen (by decide)) tableApart textApart lt
  · intro virtAddr differ
    rw [sameShown.translate_eq, mappedMemory,
      own'.translate_other _ (mt pageBase_eq_iff.mpr differ), same.translate_eq]

/-! ## Where the page has no table -/

/-- Calls after `paging_init`, each with the address of the entry it stores. -/
def Lands (layout : VmLayout) : ByteMemory → List (PageCall × Nat) → Prop
  | _, [] => True
  | mem, (call, addr) :: steps =>
    entryTarget layout mem call.virtAddr = some addr ∧
      Lands layout (store32 mem addr call.entry) steps

instance decidableLands (layout : VmLayout) : (mem : ByteMemory) →
    (steps : List (PageCall × Nat)) → Decidable (Lands layout mem steps)
  | _, [] => inferInstanceAs (Decidable True)
  | mem, (call, addr) :: steps =>
    have := decidableLands layout (store32 mem addr call.entry) steps
    inferInstanceAs (Decidable (_ ∧ _))

def storeEntries (mem : ByteMemory) (steps : List (PageCall × Nat)) : ByteMemory :=
  steps.foldl (fun mem step => store32 mem step.2 step.1.entry) mem

theorem VmReach.calls (reach : VmReach layout st) {steps : List (PageCall × Nat)}
    (lands : Lands layout st.mem steps) :
    VmReach layout { st with mem := storeEntries st.mem steps } := by
  induction steps generalizing st with
  | nil => exact reach
  | cons step steps ih =>
    obtain ⟨call, addr⟩ := step
    obtain ⟨found, rest⟩ := lands
    have next : VmReach layout { st with mem := store32 st.mem addr call.entry } := by
      cases call with
      | map physAddr virtAddr flags =>
        exact reach.mapPage physAddr virtAddr flags (mmuMapPage_of_target found physAddr flags)
      | unmap virtAddr => exact reach.unmapPage virtAddr (mmuUnmapPage_of_target found)
    exact ih next rest

end MOKernel
