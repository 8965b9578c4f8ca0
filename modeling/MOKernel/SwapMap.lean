import MOKernel.Paging
import MOKernel.SlotTable

/-!
# The swap store as a map

The store as a table of slots, keyed by page.  `swap_write` puts a page into the slot
it has, or into the first free one (`swapWrite_cases`), so slot `i` holds the `i`-th page
that was ever written, and the store is the map from the first 256 pages to what was last
written for them.

Memory is all of the address space, apart from the store itself.
-/

namespace MOKernel

/-- The slots in use. -/
def swapSlots (store : SwapStore) : SlotTable swapMaxPages UInt32 (Vector UInt8 swapPageBytes) :=
  fun i => if (store i).used then some ((store i).virtAddr, (store i).data) else none

section Table

variable {store : SwapStore} {i : Fin swapMaxPages} {virtAddr page : UInt32}

theorem swapSlots_holds :
    (swapSlots store).Holds i page ↔ (store i).used ∧ (store i).virtAddr = page := by
  unfold SlotTable.Holds swapSlots
  split <;> simp_all

theorem swapSlots_eq_none : swapSlots store i = none ↔ (store i).used = false := by
  unfold swapSlots
  split <;> simp_all

theorem swapFindIndex_eq (store : SwapStore) (virtAddr : UInt32) :
    swapFindIndex store virtAddr = (swapSlots store).slotOf (pageBase virtAddr) := by
  unfold swapFindIndex SlotTable.slotOf
  congr 1
  funext i
  unfold swapSlots
  cases (store i).used <;> simp [beq_eq_decide]

theorem swapExists_iff :
    swapExists store virtAddr ↔ ∃ i, (swapSlots store).Holds i (pageBase virtAddr) := by
  rw [swapExists, swapFindIndex_eq]
  constructor
  · intro found
    obtain ⟨i, slot⟩ := Option.isSome_iff_exists.mp found
    exact ⟨i, (SlotTable.slotOf_eq_some.mp slot).1⟩
  · intro present
    obtain ⟨i, holds⟩ := present
    by_contra missing
    rw [Option.not_isSome_iff_eq_none, SlotTable.slotOf_eq_none] at missing
    exact missing i holds

/-- The first free slot. -/
theorem swapFree_eq_some : swapFree store = some i ↔
    swapSlots store i = none ∧ ∀ j < i, swapSlots store j ≠ none := by
  unfold swapFree
  rw [Fin.find?_eq_some_iff]
  simp only [ne_eq, swapSlots_eq_none, Bool.not_eq_true', Bool.not_eq_false', Bool.not_eq_false]

theorem swapFree_eq_none : swapFree store = none ↔ ∀ i, swapSlots store i ≠ none := by
  unfold swapFree
  rw [Fin.find?_eq_none_iff]
  simp only [ne_eq, swapSlots_eq_none, Bool.not_eq_false', Bool.not_eq_false]

/-- A used slot that is filled is a put. -/
theorem swapSlots_update (store : SwapStore) (i : Fin swapMaxPages) (page : UInt32)
    (data : Vector UInt8 swapPageBytes) :
    swapSlots (Function.update store i ⟨page, data, true⟩) = (swapSlots store).put i page data := by
  funext j
  by_cases here : j = i
  · rw [here]
    simp [swapSlots]
  · simp [swapSlots, SlotTable.put, here]

/-- A page is put into the slot it has, or into the first free one, or nowhere. -/
theorem swapWrite_cases {M : Type} {bus : ByteBus M} {mem : M} {physAddr : UInt32}
    {data : Vector UInt8 swapPageBytes} (store : SwapStore) (virtAddr : UInt32)
    (copied : bus.copyIn mem physAddr swapPageBytes = .ok data) :
    ∃ store', swapWrite bus store mem virtAddr physAddr = .ok store' ∧
      ((∃ i, (swapSlots store).Holds i (pageBase virtAddr) ∧
          swapSlots store' = (swapSlots store).put i (pageBase virtAddr) data) ∨
        (∃ i, (∀ j, ¬ (swapSlots store).Holds j (pageBase virtAddr)) ∧
          swapSlots store i = none ∧ (∀ j < i, swapSlots store j ≠ none) ∧
          swapSlots store' = (swapSlots store).put i (pageBase virtAddr) data) ∨
        ((∀ j, ¬ (swapSlots store).Holds j (pageBase virtAddr)) ∧
          (∀ j, swapSlots store j ≠ none) ∧ store' = store)) := by
  unfold swapWrite
  rcases found : swapFindIndex store virtAddr with _ | i
  · rw [swapFindIndex_eq, SlotTable.slotOf_eq_none] at found
    rcases free : swapFree store with _ | i
    · exact ⟨store, rfl, .inr (.inr ⟨found, swapFree_eq_none.mp free, rfl⟩)⟩
    · obtain ⟨empty, first⟩ := swapFree_eq_some.mp free
      refine ⟨Function.update store i ⟨pageBase virtAddr, data, true⟩, ?_,
        .inr (.inl ⟨i, found, empty, first, swapSlots_update _ _ _ _⟩)⟩
      simp only [copied]
      rfl
  · rw [swapFindIndex_eq, SlotTable.slotOf_eq_some] at found
    obtain ⟨used, page⟩ := swapSlots_holds.mp found.1
    have slot : ({ store i with data := data } : SwapPage) = ⟨pageBase virtAddr, data, true⟩ := by
      rw [← page, ← used]
    refine ⟨Function.update store i { store i with data := data }, ?_,
      .inl ⟨i, found.1, ?_⟩⟩
    · simp only [copied]
      rfl
    · rw [slot]
      exact swapSlots_update _ _ _ _

/-- `swap_read` copies out what a lookup finds. -/
theorem swapRead_eq {M : Type} (bus : ByteBus M) (store : SwapStore) (mem : M)
    (virtAddr physAddr : UInt32) :
    swapRead bus store mem virtAddr physAddr =
      match (swapSlots store).get (pageBase virtAddr) with
      | some data => bus.copyOut mem physAddr data.toList
      | none => .ok mem := by
  unfold swapRead SlotTable.get
  rw [swapFindIndex_eq]
  rcases found : (swapSlots store).slotOf (pageBase virtAddr) with _ | i
  · rfl
  · have used := (swapSlots_holds.mp (SlotTable.slotOf_eq_some.mp found).1).1
    simp [swapSlots, used]

theorem swapSlots_swapInit (store : SwapStore) (i : Fin swapMaxPages) :
    swapSlots (swapInit store) i = none := rfl

end Table

/-! ## Runs of `swap_write` -/

/-- A call of `swap_write` and the memory it finds. -/
structure SwapWrite where
  mem : FlatMemory
  virtAddr : UInt32
  physAddr : UInt32

/-- The page a call stores. -/
def SwapWrite.data (call : SwapWrite) : Vector UInt8 swapPageBytes :=
  call.mem.block call.physAddr swapPageBytes

def swapWrites (store : SwapStore) (calls : List SwapWrite) : Except UInt32 SwapStore :=
  calls.foldlM (fun store call =>
    swapWrite flatBus store call.mem call.virtAddr call.physAddr) store

def swapHistory (calls : List SwapWrite) : List (UInt32 × Vector UInt8 swapPageBytes) :=
  calls.map fun call => (pageBase call.virtAddr, call.data)

/-- The last call for the page of an address. -/
def latestWrite (calls : List SwapWrite) (virtAddr : UInt32) : Option SwapWrite :=
  calls.reverse.find? fun call => pageBase call.virtAddr = pageBase virtAddr

theorem lastWrite_swapHistory (calls : List SwapWrite) (virtAddr : UInt32) :
    lastWrite (swapHistory calls) (pageBase virtAddr) =
      (latestWrite calls virtAddr).map SwapWrite.data := by
  rw [lastWrite, swapHistory, ← List.map_reverse, List.find?_map, Option.map_map]
  rfl

/-- The store after these writes. -/
structure SwapTracks (store : SwapStore)
    (history : List (UInt32 × Vector UInt8 swapPageBytes)) : Prop where
  inOrder : (swapSlots store).InOrder history
  tracks : (swapSlots store).Tracks history

theorem swapTracks_init (store : SwapStore) : SwapTracks (swapInit store) [] where
  inOrder i := by
    rw [swapSlots_swapInit]
    rfl
  tracks i page data entry := by
    rw [swapSlots_swapInit] at entry
    cases entry

theorem SwapTracks.swapWrite {store : SwapStore}
    {history : List (UInt32 × Vector UInt8 swapPageBytes)} (inv : SwapTracks store history)
    (mem : FlatMemory) (virtAddr physAddr : UInt32) :
    ∃ store', MOKernel.swapWrite flatBus store mem virtAddr physAddr = .ok store' ∧
      SwapTracks store' (history ++ [(pageBase virtAddr, mem.block physAddr swapPageBytes)]) := by
  obtain ⟨store', written, cases⟩ :=
    swapWrite_cases store virtAddr (flatBus_copyIn mem physAddr swapPageBytes)
  refine ⟨store', written, ?_⟩
  rcases cases with ⟨i, own, put⟩ | ⟨i, missing, free, first, put⟩ | ⟨missing, full, rfl⟩
  · constructor
    · rw [put]
      exact inv.inOrder.put_own own
    · rw [put]
      exact inv.tracks.put fun j holds => inv.inOrder.distinct j i _ holds own
  · constructor
    · rw [put]
      exact inv.inOrder.put_fresh missing free first
    · rw [put]
      exact inv.tracks.put fun j holds => absurd holds (missing j)
  · exact ⟨inv.inOrder.skip full, inv.tracks.skip missing⟩

theorem swapTracks_run (boot : SwapStore) (calls : List SwapWrite) :
    ∃ store, swapWrites (swapInit boot) calls = .ok store ∧
      SwapTracks store (swapHistory calls) := by
  induction calls using List.reverseRecOn with
  | nil => exact ⟨swapInit boot, rfl, swapTracks_init boot⟩
  | append_singleton calls call ih =>
    obtain ⟨before, reached, inv⟩ := ih
    obtain ⟨store, written, inv⟩ := inv.swapWrite call.mem call.virtAddr call.physAddr
    refine ⟨store, ?_, ?_⟩
    · rw [swapWrites, List.foldlM_append, ← swapWrites, reached]
      simp only [List.foldlM_cons, List.foldlM_nil, bind, Except.bind, written]
      rfl
    · rw [swapHistory, List.map_append]
      exact inv

theorem pageBase_congr {v w : UInt32} (same : v.toNat / 4096 = w.toNat / 4096) :
    pageBase v = pageBase w := by
  apply UInt32.toNat_inj.mp
  rw [toNat_pageBase, toNat_pageBase, same]

/-- The functions of the store depend on the page of an address only. -/
theorem swap_congr {v w : UInt32} (same : v.toNat / 4096 = w.toNat / 4096) (store : SwapStore)
    (mem : FlatMemory) (physAddr : UInt32) :
    swapFindIndex store v = swapFindIndex store w ∧ swapExists store v = swapExists store w ∧
      swapRead flatBus store mem v physAddr = swapRead flatBus store mem w physAddr ∧
      swapWrite flatBus store mem v physAddr = swapWrite flatBus store mem w physAddr := by
  have page := pageBase_congr same
  have index : swapFindIndex store v = swapFindIndex store w := by
    rw [swapFindIndex_eq, swapFindIndex_eq, page]
  refine ⟨index, ?_, ?_, ?_⟩
  · exact congrArg Option.isSome index
  · unfold swapRead
    rw [index]
  · unfold swapWrite
    rw [index, page]

/-- Reading a stored page yields what memory held at the last call for it. -/
theorem SwapTracks.read {store : SwapStore} {calls : List SwapWrite}
    (inv : SwapTracks store (swapHistory calls)) {v : UInt32} (stored : swapExists store v)
    (mem : FlatMemory) (q : UInt32) :
    ∃ call, latestWrite calls v = some call ∧
      swapRead flatBus store mem v q = .ok fun addr =>
        if (addr - q).toNat < swapPageBytes then call.mem (call.physAddr + (addr - q))
        else mem addr := by
  obtain ⟨i, data, entry⟩ := swapExists_iff.mp stored
  have found : (swapSlots store).get (pageBase v) = some data :=
    inv.inOrder.distinct.get_eq_some.mpr ⟨i, entry⟩
  have latest := inv.tracks.get found
  rw [lastWrite_swapHistory, Option.map_eq_some_iff] at latest
  obtain ⟨call, last, rfl⟩ := latest
  refine ⟨call, last, ?_⟩
  have whole : call.data.toList.length < 2 ^ 32 := by
    rw [Vector.length_toList]
    decide
  rw [swapRead_eq, found]
  refine (flatBus_copyOut mem q _ whole).trans (congrArg Except.ok (funext fun addr => ?_))
  split
  · rename_i inside
    rw [List.getD_eq_getElem _ _ (by simpa using inside)]
    simp [SwapWrite.data, FlatMemory.block]
  · rename_i outside
    rw [List.getD_eq_default _ _ (by simpa using outside)]

/-- A new page is dropped when the distinct pages written fill the store. -/
theorem SwapTracks.full {store : SwapStore}
    {history : List (UInt32 × Vector UInt8 swapPageBytes)} (inv : SwapTracks store history)
    {v : UInt32} (missing : ¬ swapExists store v)
    (enough : swapMaxPages ≤ (keysWritten history).length) (mem : FlatMemory) (p : UInt32) :
    MOKernel.swapWrite flatBus store mem v p = .ok store := by
  rw [swapExists_iff, not_exists] at missing
  obtain ⟨store', written, cases⟩ :=
    swapWrite_cases store v (flatBus_copyIn mem p swapPageBytes)
  rcases cases with ⟨i, own, -⟩ | ⟨i, -, free, -⟩ | ⟨-, -, rfl⟩
  · exact absurd own (missing i)
  · have short := inv.inOrder.free_iff.mp free
    omega
  · exact written

/-- **The store as a bounded map.**  After `swap_init` and any calls of `swap_write`, each
on its own memory, a page exists if it is among the first 256 distinct pages written;
reading it yields what memory held at the last call for it, reading another page changes
nothing, and a new page in a full store is dropped. -/
theorem swap_store_map (boot : SwapStore) (calls : List SwapWrite) :
    ∃ store, swapWrites (swapInit boot) calls = .ok store ∧
      (∀ v, swapExists store v ↔
        pageBase v ∈ (keysWritten (swapHistory calls)).take swapMaxPages) ∧
      (∀ v mem q, swapExists store v → ∃ call, latestWrite calls v = some call ∧
        swapRead flatBus store mem v q = .ok fun addr =>
          if (addr - q).toNat < swapPageBytes then call.mem (call.physAddr + (addr - q))
          else mem addr) ∧
      (∀ v mem q, ¬ swapExists store v → swapRead flatBus store mem v q = .ok mem) ∧
      (∀ v mem p, ¬ swapExists store v →
        swapMaxPages ≤ (keysWritten (swapHistory calls)).length →
        swapWrite flatBus store mem v p = .ok store) ∧
      (∀ v w mem p, v.toNat / 4096 = w.toNat / 4096 →
        swapFindIndex store v = swapFindIndex store w ∧
        swapExists store v = swapExists store w ∧
        swapRead flatBus store mem v p = swapRead flatBus store mem w p ∧
        swapWrite flatBus store mem v p = swapWrite flatBus store mem w p) := by
  obtain ⟨store, reached, inv⟩ := swapTracks_run boot calls
  refine ⟨store, reached, fun v => ?_, fun v mem q stored => ?_, fun v mem q missing => ?_,
    fun v mem p missing enough => ?_, fun v w mem p same => swap_congr same store mem p⟩
  · rw [swapExists_iff, inv.inOrder.exists_holds_iff]
  · exact inv.read stored mem q
  · rw [swapExists_iff, not_exists] at missing
    rw [swapRead_eq, SlotTable.get_eq_none.mpr missing]
  · exact inv.full missing enough mem p

end MOKernel
