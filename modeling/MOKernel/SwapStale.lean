import MOKernel.SwapMap

/-!
# Stale pages in the swap store

`swap_test_store` takes the first free slot without looking for the page, so a page can
end up in two slots, of which a lookup only ever sees the first.  The store is free of
that exactly as long as `swap_test_store` is called for pages that are not stored.
-/

namespace MOKernel

/-- A call of `swap_write`, with the memory it finds, or of `swap_test_store`. -/
inductive SwapOp
  | write (mem : FlatMemory) (virtAddr physAddr : UInt32)
  | testStore (virtAddr : UInt32) (data : CStr)

def SwapOp.exec (store : SwapStore) : SwapOp → Except UInt32 SwapStore
  | .write mem virtAddr physAddr => swapWrite flatBus store mem virtAddr physAddr
  | .testStore virtAddr data => .ok (swapTestStore store virtAddr data)

def swapOps (store : SwapStore) (ops : List SwapOp) : Except UInt32 SwapStore :=
  ops.foldlM SwapOp.exec store

/-- The page a call is for. -/
def SwapOp.page : SwapOp → UInt32
  | .write _ virtAddr _ => pageBase virtAddr
  | .testStore virtAddr _ => pageBase virtAddr

/-- A `swap_test_store` that finds a free slot is for a page that is not stored. -/
def SwapOp.Fresh (store : SwapStore) : SwapOp → Prop
  | .write _ _ _ => True
  | .testStore virtAddr _ => swapFree store ≠ none → ¬ swapExists store virtAddr

/-- Every call of the run is, in the store it finds. -/
def FreshRun (boot : SwapStore) (ops : List SwapOp) : Prop :=
  ∀ before op after store, ops = before ++ op :: after →
    swapOps (swapInit boot) before = .ok store → op.Fresh store

/-- No two used slots carry one address. -/
def NoDuplicate (store : SwapStore) : Prop :=
  ∀ i j, (store i).used → (store j).used → (store i).virtAddr = (store j).virtAddr → i = j

/-- Reading the page, by any address in it, starts with these characters. -/
def ReadsBack (store : SwapStore) (page : UInt32) (data : CStr) : Prop :=
  ∀ (mem : FlatMemory) (virtAddr dest : UInt32), pageBase virtAddr = page → ∃ mem',
    swapRead flatBus store mem virtAddr dest = .ok mem' ∧
      ∀ i : Fin data.chars.length, mem' (dest + UInt32.ofNat i.val) = data.chars[i]

/-- In every store of the run no address is used twice, and what a `swap_test_store` put
into a slot is read back, whatever calls for other pages come in between. -/
structure NeverStale (boot : SwapStore) (ops : List SwapOp) : Prop where
  distinct : ∀ before after store, ops = before ++ after →
    swapOps (swapInit boot) before = .ok store → NoDuplicate store
  readBack : ∀ before virtAddr data others after store store',
    ops = before ++ .testStore virtAddr data :: others ++ after →
    (∀ op ∈ others, op.page ≠ pageBase virtAddr) →
    swapOps (swapInit boot) before = .ok store → swapFree store ≠ none →
    data.chars.length < swapPageBytes →
    swapOps (swapInit boot) (before ++ .testStore virtAddr data :: others) = .ok store' →
    ReadsBack store' (pageBase virtAddr) data

section Step

variable {store : SwapStore} {virtAddr : UInt32} {data : CStr}

theorem noDuplicate_iff : NoDuplicate store ↔ (swapSlots store).Distinct := by
  constructor
  · intro alone i j page first second
    obtain ⟨usedI, pageI⟩ := swapSlots_holds.mp first
    obtain ⟨usedJ, pageJ⟩ := swapSlots_holds.mp second
    exact alone i j usedI usedJ (pageI.trans pageJ.symm)
  · intro distinct i j usedI usedJ same
    exact distinct i j (store j).virtAddr (swapSlots_holds.mpr ⟨usedI, same⟩)
      (swapSlots_holds.mpr ⟨usedJ, rfl⟩)

/-- The page goes into the first free slot, or nowhere. -/
theorem swapTestStore_cases (store : SwapStore) (virtAddr : UInt32) (data : CStr) :
    (∃ i, swapFree store = some i ∧ swapSlots (swapTestStore store virtAddr data) =
      (swapSlots store).put i (pageBase virtAddr) (overwriteData (store i).data data.chars)) ∨
      (swapFree store = none ∧ swapTestStore store virtAddr data = store) := by
  unfold swapTestStore
  rcases free : swapFree store with _ | i
  · exact .inr ⟨rfl, rfl⟩
  · exact .inl ⟨i, rfl, swapSlots_update _ _ _ _⟩

/-- A call puts its page into a slot that is its own or free, or nowhere. -/
theorem SwapOp.exec_cases (op : SwapOp) (store : SwapStore) : ∃ store', op.exec store = .ok store' ∧
    ((∃ i data, swapSlots store' = (swapSlots store).put i op.page data ∧
        ∀ page, (swapSlots store).Holds i page → page = op.page) ∨
      store' = store) := by
  cases op with
  | write mem virtAddr physAddr =>
    obtain ⟨store', written, cases⟩ :=
      swapWrite_cases store virtAddr (flatBus_copyIn mem physAddr swapPageBytes)
    refine ⟨store', written, ?_⟩
    rcases cases with ⟨i, own, put⟩ | ⟨i, -, free, -, put⟩ | ⟨-, -, rfl⟩
    · exact .inl ⟨i, _, put, fun page holds => holds.key_eq own⟩
    · refine .inl ⟨i, _, put, fun page holds => ?_⟩
      have used := holds.isSome
      rw [free] at used
      cases used
    · exact .inr rfl
  | testStore virtAddr data =>
    refine ⟨_, rfl, ?_⟩
    rcases swapTestStore_cases store virtAddr data with ⟨i, found, put⟩ | ⟨-, same⟩
    · refine .inl ⟨i, _, put, fun page holds => ?_⟩
      have used := holds.isSome
      rw [(swapFree_eq_some.mp found).1] at used
      cases used
    · exact .inr same

/-- A call for another page leaves an entry alone. -/
theorem SwapOp.keeps {op : SwapOp} {store' : SwapStore} (step : op.exec store = .ok store')
    {i : Fin swapMaxPages} {page : UInt32} {bytes : Vector UInt8 swapPageBytes}
    (entry : swapSlots store i = some (page, bytes)) (other : op.page ≠ page) :
    swapSlots store' i = some (page, bytes) := by
  obtain ⟨after, ran, cases⟩ := op.exec_cases store
  obtain rfl := Except.ok.inj (step.symm.trans ran)
  rcases cases with ⟨j, data, put, own⟩ | rfl
  · have apart : i ≠ j := by
      rintro rfl
      exact other (own page ⟨bytes, entry⟩).symm
    rw [put, SlotTable.put_of_ne apart, entry]
  · exact entry

/-- A call for a fresh page repeats no address. -/
theorem SwapOp.Fresh.distinct {op : SwapOp} (fresh : op.Fresh store)
    (distinct : (swapSlots store).Distinct) :
    ∃ store', op.exec store = .ok store' ∧ (swapSlots store').Distinct := by
  cases op with
  | write mem virtAddr physAddr =>
    obtain ⟨store', written, cases⟩ :=
      swapWrite_cases store virtAddr (flatBus_copyIn mem physAddr swapPageBytes)
    refine ⟨store', written, ?_⟩
    rcases cases with ⟨i, own, put⟩ | ⟨i, missing, -, -, put⟩ | ⟨-, -, rfl⟩
    · rw [put]
      exact distinct.put fun j holds => distinct j i _ holds own
    · rw [put]
      exact distinct.put fun j holds => absurd holds (missing j)
    · exact distinct
  | testStore virtAddr data =>
    refine ⟨_, rfl, ?_⟩
    rcases swapTestStore_cases store virtAddr data with ⟨i, free, put⟩ | ⟨-, same⟩
    · have missing := fresh (by rw [free]; exact Option.some_ne_none i)
      rw [swapExists_iff, not_exists] at missing
      rw [put]
      exact distinct.put fun j holds => absurd holds (missing j)
    · rw [same]
      exact distinct

/-- A page that is stored already is put into a second slot. -/
theorem not_noDuplicate_testStore (free : swapFree store ≠ none)
    (stored : swapExists store virtAddr) :
    ¬ NoDuplicate (swapTestStore store virtAddr data) := by
  intro alone
  obtain ⟨j, holds⟩ := swapExists_iff.mp stored
  rcases swapTestStore_cases store virtAddr data with ⟨i, found, put⟩ | ⟨full, -⟩
  · have apart : j ≠ i := by
      intro same
      have used := holds.isSome
      rw [same, (swapFree_eq_some.mp found).1] at used
      cases used
    have distinct := noDuplicate_iff.mp alone
    rw [put] at distinct
    exact apart (distinct j i (pageBase virtAddr)
      (SlotTable.holds_put.mpr (.inr ⟨apart, holds⟩))
      (SlotTable.holds_put.mpr (.inl ⟨rfl, rfl⟩)))
  · exact free full

/-- The page starts with the string. -/
theorem overwriteData_getD (page : Vector UInt8 swapPageBytes) {chars : List UInt8} {k : Nat}
    {b : UInt8} (lt : k < chars.length) (inside : k < swapPageBytes) :
    (overwriteData page chars).toList.getD k b = chars[k] := by
  have byte : (overwriteData page chars)[k] = chars.getD k page[k] := by
    simp only [overwriteData, Vector.getElem_ofFn]
    rfl
  rw [List.getD_eq_getElem?_getD, Vector.getElem?_toList, Vector.getElem?_eq_getElem inside,
    Option.getD_some, byte, List.getD_eq_getElem _ _ lt]

/-- What a slot holds is read back, if no other slot holds the page. -/
theorem readsBack_of_entry (distinct : (swapSlots store).Distinct) {i : Fin swapMaxPages}
    {page : UInt32} {old : Vector UInt8 swapPageBytes}
    (entry : swapSlots store i = some (page, overwriteData old data.chars))
    (short : data.chars.length < swapPageBytes) : ReadsBack store page data := by
  intro mem virtAddr dest same
  have read := swapRead_eq flatBus store mem virtAddr dest
  rw [same, distinct.get_eq_some.mpr ⟨i, entry⟩] at read
  refine ⟨_, read.trans (flatBus_copyOut mem dest _ ?_), fun k => ?_⟩
  · rw [Vector.length_toList]
    decide
  · have index : (dest + UInt32.ofNat k.val - dest).toNat = k.val := by
      have small := k.isLt
      simp only [swapPageBytes] at short
      rw [UInt32.toNat_sub, UInt32.toNat_add, UInt32.toNat_ofNat',
        Nat.mod_eq_of_lt (a := k.val) (by omega)]
      have bound := dest.toNat_lt
      omega
    simp only [index]
    exact overwriteData_getD _ k.isLt (lt_trans k.isLt short)

end Step

/-! ## Runs -/

theorem swapOps_trans {boot store : SwapStore} {before : List SwapOp}
    (reached : swapOps boot before = .ok store) (rest : List SwapOp) :
    swapOps boot (before ++ rest) = swapOps store rest := by
  rw [swapOps, List.foldlM_append, ← swapOps, reached]
  rfl

theorem swapOps_cons {start next : SwapStore} {op : SwapOp} (step : op.exec start = .ok next)
    (rest : List SwapOp) : swapOps start (op :: rest) = swapOps next rest := by
  rw [swapOps, List.foldlM_cons, step]
  rfl

theorem swapOps_append {boot store : SwapStore} {before : List SwapOp}
    (reached : swapOps boot before = .ok store) (op : SwapOp) :
    swapOps boot (before ++ [op]) = op.exec store := by
  obtain ⟨next, step, -⟩ := op.exec_cases store
  rw [swapOps_trans reached, swapOps_cons step, step]
  rfl

/-- Over fresh calls no address is repeated. -/
theorem FreshRun.distinct {boot : SwapStore} {ops : List SwapOp} (fresh : FreshRun boot ops)
    (before after : List SwapOp) (split : ops = before ++ after) :
    ∃ store, swapOps (swapInit boot) before = .ok store ∧ (swapSlots store).Distinct := by
  induction before using List.reverseRecOn generalizing after with
  | nil =>
    refine ⟨swapInit boot, rfl, fun i j page first _ => ?_⟩
    have used := first.isSome
    rw [swapSlots_swapInit] at used
    cases used
  | append_singleton before op ih =>
    rw [List.append_assoc, List.singleton_append] at split
    obtain ⟨store, reached, distinct⟩ := ih (op :: after) split
    obtain ⟨store', step, distinct'⟩ :=
      (fresh before op after store split reached).distinct distinct
    exact ⟨store', (swapOps_append reached op).trans step, distinct'⟩

/-- Calls for other pages leave an entry alone. -/
theorem swapOps_keeps {start : SwapStore} {others : List SwapOp} {i : Fin swapMaxPages}
    {page : UInt32} {bytes : Vector UInt8 swapPageBytes}
    (entry : swapSlots start i = some (page, bytes)) (apart : ∀ op ∈ others, op.page ≠ page)
    {store : SwapStore} (reached : swapOps start others = .ok store) :
    swapSlots store i = some (page, bytes) := by
  induction others generalizing start with
  | nil =>
    obtain rfl := Except.ok.inj reached
    exact entry
  | cons op others ih =>
    obtain ⟨first, rest⟩ := List.forall_mem_cons.mp apart
    obtain ⟨next, step, -⟩ := op.exec_cases start
    rw [swapOps_cons step] at reached
    exact ih (op.keeps step entry first) rest reached

/-- What a `swap_test_store` has put into a slot is read back later. -/
theorem FreshRun.readBack {boot : SwapStore} {ops : List SwapOp} (fresh : FreshRun boot ops)
    {before others after : List SwapOp} {virtAddr : UInt32} {data : CStr} {store store' : SwapStore}
    (split : ops = before ++ .testStore virtAddr data :: others ++ after)
    (apart : ∀ op ∈ others, op.page ≠ pageBase virtAddr)
    (reached : swapOps (swapInit boot) before = .ok store) (free : swapFree store ≠ none)
    (short : data.chars.length < swapPageBytes)
    (later : swapOps (swapInit boot) (before ++ .testStore virtAddr data :: others) = .ok store') :
    ReadsBack store' (pageBase virtAddr) data := by
  obtain ⟨last, ran, distinct⟩ := fresh.distinct _ after split
  obtain rfl := Except.ok.inj (later.symm.trans ran)
  rcases swapTestStore_cases store virtAddr data with ⟨i, -, put⟩ | ⟨full, -⟩
  · have entry : swapSlots (swapTestStore store virtAddr data) i =
        some (pageBase virtAddr, overwriteData (store i).data data.chars) := by
      rw [put, SlotTable.put_self]
    have step : (SwapOp.testStore virtAddr data).exec store =
        .ok (swapTestStore store virtAddr data) := rfl
    rw [swapOps_trans reached, swapOps_cons step] at later
    exact readsBack_of_entry distinct (swapOps_keeps entry apart later) short
  · exact absurd full free

/-- **Staleness.**  A run of `swap_write` and `swap_test_store` is free of stale pages exactly
when each `swap_test_store` that finds a free slot is for a page that is not stored. -/
theorem never_stale_iff (boot : SwapStore) (ops : List SwapOp) :
    NeverStale boot ops ↔ FreshRun boot ops := by
  constructor
  · intro never before op after store split reached
    cases op with
    | write mem virtAddr physAddr => trivial
    | testStore virtAddr data =>
      intro free stored
      have whole : ops = (before ++ [.testStore virtAddr data]) ++ after := by simp [split]
      exact not_noDuplicate_testStore free stored
        (never.distinct _ after _ whole (swapOps_append reached _))
  · intro fresh
    constructor
    · intro before after store split reached
      obtain ⟨store', reached', distinct⟩ := fresh.distinct before after split
      rw [reached] at reached'
      cases reached'
      exact noDuplicate_iff.mpr distinct
    · intro before virtAddr data others after store store' split apart reached free short later
      exact fresh.readBack split apart reached free short later

/-- Two `swap_test_store` for one page. -/
def staleOps : List SwapOp :=
  [.testStore 0x00401000 ⟨ascii "A", by decide⟩, .testStore 0x00401000 ⟨ascii "B", by decide⟩]

/-- The second takes a second slot. -/
theorem never_stale_fails : ¬ ∀ boot ops, NeverStale boot ops := by
  intro never
  have free : swapFree (swapTestStore (swapInit swapBoot) 0x00401000 ⟨ascii "A", by decide⟩) ≠
      none := by decide +kernel
  have stored : swapExists (swapTestStore (swapInit swapBoot) 0x00401000
      ⟨ascii "A", by decide⟩) 0x00401000 := by decide +kernel
  exact not_noDuplicate_testStore free stored ((never swapBoot staleOps).distinct staleOps [] _
    (List.append_nil _).symm rfl)

end MOKernel
