import MOKernel.NetStack
import MOKernel.SlotTable

/-!
# The ARP cache

The cache as a table of slots.  An insertion takes the first slot that is free or
has the address, and evicts slot 0 if there is none (`arpCacheInsert_cases`).  Over
any sequence of received packets the cache is then a partial copy of the map from an
address to the MAC address that was last announced for it.
-/

namespace MOKernel

def arpCacheInit (cache : ArpCache) : ArpCache := fun i => { cache i with valid := false }

/-! ## Packets received -/

/-- A call of `arp_handle` and the memory it finds. -/
structure ArpCall where
  mem : Nat → UInt8
  pkt : Nat
  len : UInt16

namespace ArpCall

def exec (st : NetState) (call : ArpCall) : NetState :=
  (arpHandle st call.pkt call.len).run call.mem

def senderIp (call : ArpCall) : IpAddr :=
  ntohl (ofLe32 (call.mem (call.pkt + 14)) (call.mem (call.pkt + 15)) (call.mem (call.pkt + 16))
    (call.mem (call.pkt + 17)))

def senderMac (call : ArpCall) : MacAddr :=
  #v[call.mem (call.pkt + 8), call.mem (call.pkt + 9), call.mem (call.pkt + 10),
    call.mem (call.pkt + 11), call.mem (call.pkt + 12), call.mem (call.pkt + 13)]

end ArpCall

def arpRun (st : NetState) (calls : List ArpCall) : NetState := calls.foldl ArpCall.exec st

/-- What the packets of at least 28 bytes announce, in order. -/
def arpAnnounced (calls : List ArpCall) : List (IpAddr × MacAddr) :=
  (calls.filter fun call => arpPktSize ≤ call.len.toNat).map fun call =>
    (call.senderIp, call.senderMac)

/-- The cache after a packet. -/
theorem ArpCall.exec_arpCache (st : NetState) (call : ArpCall) :
    (call.exec st).arpCache =
      if call.len.toNat < arpPktSize then st.arpCache
      else arpCacheInsert st.arpCache call.senderIp call.senderMac := by
  rw [ArpCall.exec, run_arpHandle]
  split
  · rfl
  · simp only
    split
    · exact netSend_arpCache _ _
    · rfl

/-! ## The table -/

/-- The valid entries. -/
def arpSlots (cache : ArpCache) : SlotTable arpCacheSize IpAddr MacAddr :=
  fun i => if (cache i).valid then some ((cache i).ip, (cache i).mac) else none

section Table

variable {cache : ArpCache} {i : Fin arpCacheSize} {ip : IpAddr} {mac : MacAddr}

theorem arpSlots_isSome : (arpSlots cache i).isSome ↔ (cache i).valid := by
  unfold arpSlots
  split <;> simp_all

theorem arpSlots_holds :
    (arpSlots cache).Holds i ip ↔ (cache i).valid ∧ (cache i).ip = ip := by
  unfold SlotTable.Holds arpSlots
  split <;> simp_all

theorem arpLookup_eq (cache : ArpCache) (ip : IpAddr) :
    arpLookup cache ip = (arpSlots cache).get ip := by
  have same : (Fin.find? fun i => (cache i).valid && (cache i).ip == ip) =
      (arpSlots cache).slotOf ip := by
    unfold SlotTable.slotOf
    congr 1
    funext i
    unfold arpSlots
    cases (cache i).valid <;> simp [beq_eq_decide]
  unfold arpLookup SlotTable.get
  rw [same]
  rcases found : (arpSlots cache).slotOf ip with _ | i
  · rfl
  · have valid := (arpSlots_holds.mp (SlotTable.slotOf_eq_some.mp found).1).1
    simp [arpSlots, valid]

/-- An insertion puts the entry into a slot it may choose, slot 0 if every other one is
used for another address. -/
theorem arpCacheInsert_cases (cache : ArpCache) (ip : IpAddr) (mac : MacAddr) :
    ∃ i, arpSlots (arpCacheInsert cache ip mac) = (arpSlots cache).put i ip mac ∧
      (arpSlots cache).Chosen i ip ∧
      ((∀ j, (arpSlots cache j).isSome ∧ ¬ (arpSlots cache).Holds j ip) → i = 0) := by
  have busy (j : Fin arpCacheSize) (skipped : (!(cache j).valid || (cache j).ip == ip) = false) :
      (arpSlots cache j).isSome ∧ ¬ (arpSlots cache).Holds j ip := by
    rw [arpSlots_isSome, arpSlots_holds]
    simp only [Bool.or_eq_false_iff, Bool.not_eq_false', beq_eq_false_iff_ne] at skipped
    exact ⟨skipped.1, fun holds => skipped.2 holds.2⟩
  have updated (i : Fin arpCacheSize) :
      arpSlots (Function.update cache i ⟨ip, mac, true⟩) = (arpSlots cache).put i ip mac := by
    funext j
    by_cases here : j = i
    · rw [here]
      simp [arpSlots]
    · simp [arpSlots, SlotTable.put, here]
  unfold arpCacheInsert
  rcases found : Fin.find? fun i => !(cache i).valid || (cache i).ip == ip with _ | i
  · have full := Fin.find?_eq_none_iff.mp found
    exact ⟨0, updated 0, ⟨fun j _ => busy j (full j), .inr (.inr fun j => busy j (full j))⟩,
      fun _ => rfl⟩
  · obtain ⟨taken, skipped⟩ := Fin.find?_eq_some_iff.mp found
    have here : arpSlots cache i = none ∨ (arpSlots cache).Holds i ip := by
      cases valid : (cache i).valid with
      | false => exact .inl (by simp [arpSlots, valid])
      | true =>
        rw [valid] at taken
        exact .inr (arpSlots_holds.mpr ⟨valid, by simpa using taken⟩)
    refine ⟨i, updated i, ⟨fun j lt => busy j (skipped j lt), here.imp_right .inl⟩, fun full => ?_⟩
    rcases here with free | own
    · have used := (full i).1
      rw [free] at used
      cases used
    · exact absurd own (full i).2

/-- An address is found right after it is inserted, whatever the cache held. -/
theorem arpLookup_arpCacheInsert (cache : ArpCache) (ip : IpAddr) (mac : MacAddr) :
    arpLookup (arpCacheInsert cache ip mac) ip = some mac := by
  obtain ⟨i, put, chosen, _⟩ := arpCacheInsert_cases cache ip mac
  rw [arpLookup_eq, put]
  exact SlotTable.get_put_self fun j lt => (chosen.before j lt).2

end Table

/-! ## The invariant -/

/-- The cache after these announcements. -/
structure ArpTracks (cache : ArpCache) (history : List (IpAddr × MacAddr)) : Prop where
  packed : (arpSlots cache).Packed
  distinct : (arpSlots cache).Distinct
  tracks : (arpSlots cache).Tracks history
  complete : (keysWritten history).length ≤ arpCacheSize →
    ∀ ip ∈ keysWritten history, ∃ i, (arpSlots cache).Holds i ip

theorem arpTracks_init (cache : ArpCache) : ArpTracks (arpCacheInit cache) [] := by
  have free (i : Fin arpCacheSize) : arpSlots (arpCacheInit cache) i = none := rfl
  constructor
  · intro i j _ used
    rw [free j] at used
    cases used
  · intro i j ip first _
    obtain ⟨mac, entry⟩ := first
    rw [free i] at entry
    cases entry
  · intro i ip mac entry
    rw [free i] at entry
    cases entry
  · intro _ ip member
    cases member

/-- A cache that evicts holds eight of the addresses announced. -/
theorem ArpTracks.le_length {cache : ArpCache} {history : List (IpAddr × MacAddr)}
    (inv : ArpTracks cache history) (full : ∀ j, (arpSlots cache j).isSome) :
    arpCacheSize ≤ (keysWritten history).length := by
  rw [← List.toFinset_card_of_nodup (keysWritten_nodup history)]
  refine inv.distinct.le_card fun i => ?_
  obtain ⟨⟨ip, mac⟩, entry⟩ := Option.isSome_iff_exists.mp (full i)
  have holds : (arpSlots cache).Holds i ip := ⟨mac, entry⟩
  exact ⟨ip, List.mem_toFinset.mpr (inv.tracks.mem_keysWritten holds), holds⟩

section Insert

variable {cache : ArpCache} {history : List (IpAddr × MacAddr)} {i : Fin arpCacheSize}
  {ip : IpAddr}

/-- While at most eight addresses have been announced, an insertion loses none of them. -/
theorem ArpTracks.keeps (inv : ArpTracks cache history) (chosen : (arpSlots cache).Chosen i ip)
    (mac : MacAddr)
    (few : (keysWritten (history ++ [(ip, mac)])).length ≤ arpCacheSize) {other : IpAddr}
    (older : other ∈ keysWritten history) (differ : other ≠ ip) :
    ∃ j, ((arpSlots cache).put i ip mac).Holds j other := by
  have held (fewBefore : (keysWritten history).length ≤ arpCacheSize)
      (room : ¬ ∀ j, (arpSlots cache j).isSome ∧ ¬ (arpSlots cache).Holds j ip) :
      ∃ j, ((arpSlots cache).put i ip mac).Holds j other := by
    obtain ⟨j, holds⟩ := inv.complete fewBefore other older
    refine ⟨j, SlotTable.holds_put.mpr (.inr ⟨?_, holds⟩)⟩
    rintro rfl
    rcases chosen.here with free | own | full
    · have used := holds.isSome
      rw [free] at used
      cases used
    · exact differ (holds.key_eq own)
    · exact room full
  by_cases known : ip ∈ keysWritten history
  · rw [keysWritten_append_of_mem known] at few
    obtain ⟨j, own⟩ := inv.complete few ip known
    exact held few fun full => (full j).2 own
  · rw [keysWritten_append_of_notMem known, List.length_append, List.length_singleton] at few
    refine held (by omega) fun full => ?_
    have eight := inv.le_length fun j => (full j).1
    omega

theorem ArpTracks.insert (inv : ArpTracks cache history) (ip : IpAddr) (mac : MacAddr) :
    ArpTracks (arpCacheInsert cache ip mac) (history ++ [(ip, mac)]) := by
  obtain ⟨i, put, chosen, _⟩ := arpCacheInsert_cases cache ip mac
  have alone (j : Fin arpCacheSize) (holds : (arpSlots cache).Holds j ip) : j = i :=
    (inv.distinct.settled inv.packed ip).chosen chosen holds
  constructor
  · rw [put]
    exact inv.packed.put fun j lt => (chosen.before j lt).1
  · rw [put]
    exact inv.distinct.put alone
  · rw [put]
    exact inv.tracks.put alone
  · intro few other member
    rw [put]
    rcases mem_keysWritten_append.mp member with older | rfl
    · by_cases same : other = ip
      · exact ⟨i, SlotTable.holds_put.mpr (.inl ⟨rfl, same⟩)⟩
      · exact inv.keeps chosen mac few older same
    · exact ⟨i, SlotTable.holds_put.mpr (.inl ⟨rfl, rfl⟩)⟩

end Insert

theorem arpTracks_run (st : NetState) (calls : List ArpCall) :
    ArpTracks (arpRun { st with arpCache := arpCacheInit st.arpCache } calls).arpCache
      (arpAnnounced calls) := by
  induction calls using List.reverseRecOn with
  | nil => exact arpTracks_init st.arpCache
  | append_singleton calls call ih =>
    rw [arpRun, List.foldl_append, List.foldl_cons, List.foldl_nil, call.exec_arpCache,
      arpAnnounced, List.filter_append]
    by_cases short : call.len.toNat < arpPktSize
    · rw [if_pos short, List.filter_cons_of_neg (by simpa using short), List.filter_nil,
        List.append_nil]
      exact ih
    · rw [if_neg short, List.filter_cons_of_pos (by simpa using short), List.filter_nil,
        List.map_append]
      exact ih.insert call.senderIp call.senderMac

/-! ## The cache over any packets -/

/-- After `arp_cache_init` and any packets the valid slots come first and hold different
addresses; a lookup misses or answers with the last announcement; it does not miss an
address announced while at most eight were; and a packet that is too short changes nothing. -/
theorem arpCache_last_writer (st : NetState) (calls : List ArpCall) :
    let cache := (arpRun { st with arpCache := arpCacheInit st.arpCache } calls).arpCache
    let history := arpAnnounced calls
    (∀ i j, i ≤ j → (cache j).valid → (cache i).valid) ∧
    (∀ i j, (cache i).valid → (cache j).valid → (cache i).ip = (cache j).ip → i = j) ∧
    (∀ ip, arpLookup cache ip = none ∨
      ∃ mac, arpLookup cache ip = some mac ∧ lastWrite history ip = some mac) ∧
    ((keysWritten history).length ≤ arpCacheSize →
      ∀ ip ∈ keysWritten history, arpLookup cache ip ≠ none) ∧
    (∀ (st : NetState) (call : ArpCall), call.len.toNat < arpPktSize →
      (call.exec st).arpCache = st.arpCache) := by
  intro cache history
  have inv : ArpTracks cache history := arpTracks_run st calls
  refine ⟨?_, ?_, ?_, ?_, ?_⟩
  · intro i j le valid
    exact arpSlots_isSome.mp (inv.packed i j le (arpSlots_isSome.mpr valid))
  · intro i j validI validJ same
    exact inv.distinct i j (cache j).ip (arpSlots_holds.mpr ⟨validI, same⟩)
      (arpSlots_holds.mpr ⟨validJ, rfl⟩)
  · intro ip
    rcases found : arpLookup cache ip with _ | mac
    · exact .inl rfl
    · rw [arpLookup_eq] at found
      exact .inr ⟨mac, rfl, inv.tracks.get found⟩
  · intro few ip member missed
    obtain ⟨i, holds⟩ := inv.complete few ip member
    rw [arpLookup_eq, SlotTable.get_eq_none] at missed
    exact missed i holds
  · intro st call short
    rw [call.exec_arpCache, if_pos short]

end MOKernel
