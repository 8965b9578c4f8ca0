import MOKernel.RxRing

/-!
# Does the driver follow the card?

A packet takes `ringSpace` bytes of the ring.  The card's offsets are the running sum
of these modulo the ring size (`CardInv`); the driver's read offset is the same sum
modulo `sizeof(rx_buf)`.  Until the sum reaches the end of the ring the two agree and
every frame is delivered, and the first packet that reaches it separates them
(`rx_tracks_iff`).
-/

namespace MOKernel

/-- What the write offset advances by for a packet. -/
def ringSpace (p : RxPacket) : Nat := (p.pktLen + 7) / 4 * 4

def ringSpaces (ps : List RxPacket) : Nat := (ps.map ringSpace).sum

/-- The next store leaves the pending packets alone. -/
def RxCard.Room (card : RxCard) (p : RxPacket) : Prop :=
  ∀ q ∈ card.pending, q.1 + q.2.stored.length ≤ card.write ∨ card.write + p.stored.length ≤ q.1

/-- Every packet is consumed before it is overwritten. -/
def NeverOverwritten (s : RxState) (events : List RxEvent) : Prop :=
  ∀ before p, before ++ [.receive p] <+: events → (rxRun s before).card.Room p

/-- The driver's offset is that of the next header, and the frames delivered are those
consumed, in order. -/
def Tracks (s : RxState) : Prop :=
  s.rxCur.toNat = s.card.nextHeader ∧ s.delivered = s.card.consumed.map fun p => p.frame.bytes

/-- Offsets are running sums, and the pending packets are in memory. -/
structure CardInv (card : RxCard) : Prop where
  write : card.write = ringSpaces (card.consumed ++ card.pending.map Prod.snd) % rxRingSize
  placed : ∀ k q, card.pending[k]? = some q →
    q.1 = ringSpaces (card.consumed ++ (card.pending.take k).map Prod.snd) % rxRingSize
  intact : ∀ q ∈ card.pending, ∀ i, (lt : i < q.2.stored.length) →
    card.mem (q.1 + i) = q.2.stored[i]

/-! ## Space -/

variable {p : RxPacket} {card : RxCard}

theorem ringSpaces_append (ps qs : List RxPacket) :
    ringSpaces (ps ++ qs) = ringSpaces ps + ringSpaces qs := by
  simp [ringSpaces]

theorem ringSpaces_singleton (p : RxPacket) : ringSpaces [p] = ringSpace p := by
  simp [ringSpaces]

theorem ringSpaces_mod (ps : List RxPacket) : ringSpaces ps % 4 = 0 := by
  induction ps with
  | nil => rfl
  | cons p ps ih =>
    have split : ringSpaces (p :: ps) = ringSpace p + ringSpaces ps := by simp [ringSpaces]
    rw [split, ringSpace]
    omega

theorem pktLen_bounds (p : RxPacket) : 5 ≤ p.pktLen ∧ p.pktLen ≤ 1518 := by
  have low := p.frame.nonempty
  have high := p.frame.short
  rw [RxPacket.pktLen]
  omega

theorem length_stored (p : RxPacket) : p.stored.length = 4 + p.pktLen := by
  simp only [RxPacket.stored, List.length_append, length_le16, Vector.length_toList,
    RxPacket.pktLen]

/-- From an aligned offset both sides round to the same place. -/
theorem align_add {off : Nat} (aligned : off % 4 = 0) (p : RxPacket) :
    (off + 4 + p.pktLen + 3) / 4 * 4 = off + ringSpace p := by
  rw [ringSpace]
  omega

/-! ## The card -/

theorem cardInv_init (mem : Nat → UInt8) : CardInv (rxInit mem).card where
  write := rfl
  placed k q found := by simp [rxInit] at found
  intact q member := by simp [rxInit] at member

theorem CardInv.receive (inv : CardInv card) (room : card.Room p) : CardInv (card.receive p) where
  write := by
    have aligned : card.write % 4 = 0 := by
      have mult := ringSpaces_mod (card.consumed ++ card.pending.map Prod.snd)
      rw [inv.write, rxRingSize]
      omega
    simp only [RxCard.receive, List.map_append, List.map_cons, List.map_nil]
    rw [align_add aligned, ← List.append_assoc, ringSpaces_append, ringSpaces_singleton, inv.write,
      Nat.mod_add_mod]
  placed k q found := by
    simp only [RxCard.receive] at found ⊢
    rcases Nat.lt_or_ge k card.pending.length with lt | ge
    · rw [List.getElem?_append_left lt] at found
      rw [List.take_append_of_le_length (Nat.le_of_lt lt)]
      exact inv.placed k q found
    · rw [List.getElem?_append_right ge] at found
      have last : k = card.pending.length := by
        have bound := (List.getElem?_eq_some_iff.mp found).1
        simp only [List.length_singleton] at bound
        omega
      subst last
      simp only [Nat.sub_self, List.getElem?_cons_zero, Option.some.injEq] at found
      rw [List.take_left', ← found]
      · exact inv.write
      · rfl
  intact q member i lt := by
    simp only [RxCard.receive] at member ⊢
    rcases List.mem_append.mp member with old | new
    · have apart := room q old
      rw [storeAt_of_notMem (by omega)]
      exact inv.intact q old i lt
    · obtain rfl := List.mem_singleton.mp new
      exact storeAt_of_mem lt

theorem CardInv.consume (inv : CardInv card) : CardInv card.consume := by
  cases pending_eq : card.pending with
  | nil =>
    have same : card.consume = card := by
      simp only [RxCard.consume, pending_eq, List.head?_nil, Option.map_none, Option.toList_none,
        List.append_nil, List.tail_nil]
      rw [← pending_eq]
    rwa [same]
  | cons q rest =>
    have consumed_eq : card.consume.consumed = card.consumed ++ [q.2] := by
      simp [RxCard.consume, pending_eq]
    have rest_eq : card.consume.pending = rest := by
      simp [RxCard.consume, pending_eq]
    refine ⟨?_, ?_, ?_⟩
    · rw [consumed_eq, rest_eq, List.append_assoc]
      have write := inv.write
      rwa [pending_eq] at write
    · intro k r found
      rw [rest_eq] at found ⊢
      have placed := inv.placed (k + 1) r (by rw [pending_eq]; exact found)
      rw [pending_eq] at placed
      rwa [consumed_eq, List.append_assoc]
    · intro r member i lt
      rw [rest_eq] at member
      exact inv.intact r (by rw [pending_eq]; exact List.mem_cons_of_mem q member) i lt

/-- The next header lies where the space consumed ends. -/
theorem CardInv.nextHeader (inv : CardInv card) :
    card.nextHeader = ringSpaces card.consumed % rxRingSize := by
  cases pending_eq : card.pending with
  | nil =>
    have write := inv.write
    rw [pending_eq, List.map_nil, List.append_nil] at write
    simpa [RxCard.nextHeader, pending_eq] using write
  | cons q rest =>
    have placed := inv.placed 0 q (by rw [pending_eq]; rfl)
    rw [List.take_zero, List.map_nil, List.append_nil] at placed
    simpa [RxCard.nextHeader, pending_eq] using placed

/-! ## The driver on a stored packet -/

theorem toNat_pktLen (p : RxPacket) : (UInt16.ofNat p.pktLen).toNat = p.pktLen := by
  have bounds := pktLen_bounds p
  rw [UInt16.toNat_ofNat']
  exact Nat.mod_eq_of_lt (by omega)

theorem toNat_dataLen (p : RxPacket) :
    (UInt16.ofNat p.pktLen - 4).toNat = p.frame.bytes.length := by
  have bounds := pktLen_bounds p
  rw [UInt16.toNat_sub_of_le, toNat_pktLen, RxPacket.pktLen]
  · exact Nat.add_sub_cancel _ _
  · rw [UInt16.le_iff_toNat_le, toNat_pktLen]
    exact Nat.le_trans (by decide : (4 : UInt16).toNat ≤ 5) bounds.1

/-- `rtl_recv` at the header of a packet in memory returns its frame. -/
theorem run_rtlRecv_stored {mem : Nat → UInt8} {rxCur : UInt16}
    (intact : ∀ i, (lt : i < p.stored.length) → mem (rxCur.toNat + i) = p.stored[i])
    (room : rxCur.toNat + 4 + p.frame.bytes.length ≤ rtlRxBufSize) :
    ((rtlRecv false rxCur).run mem).ret = p.frame.len ∧
      ((rtlRecv false rxCur).run mem).data = p.frame.bytes ∧
      ((rtlRecv false rxCur).run mem).rxCur = rxAdvance rxCur (UInt16.ofNat p.pktLen + 4) := by
  have length := length_stored p
  have bounds := pktLen_bounds p
  have pktLen : (loadU16 (rxCur.toNat + 2)).run mem = UInt16.ofNat p.pktLen := by
    have low : mem (rxCur.toNat + 2) = (UInt16.ofNat p.pktLen).toUInt8 := intact 2 (by omega)
    have high : mem (rxCur.toNat + 2 + 1) = (UInt16.ofNat p.pktLen >>> 8).toUInt8 :=
      intact 3 (by omega)
    simp only [loadU16, Load.run_bind, Load.run_cell, Load.run_pure, low, high]
    exact ofLe16_le16 _
  have dataLen : UInt16.ofNat p.pktLen - 4 = p.frame.len :=
    UInt16.toNat_inj.mp (by rw [toNat_dataLen, RxFrame.toNat_len])
  have sound : ¬ (p.frame.len = 0 ∨ p.frame.len > 1514) :=
    not_or.mpr ⟨p.frame.len_ne_zero, p.frame.len_le⟩
  have copy : (rxCopy rxCur p.frame.len).run mem = p.frame.bytes := by
    rw [rxCopy, RxFrame.toNat_len, if_pos room, Load.run_block]
    refine List.ext_getElem (by simp) fun i _ lt => ?_
    have byte := intact (4 + i) (by rw [length, RxPacket.pktLen]; omega)
    rw [List.getElem_map, List.getElem_range, Nat.add_assoc, byte]
    simp only [RxPacket.stored]
    rw [List.getElem_append_right (by simp), List.getElem_append_left (by simpa using lt)]
    simp
  rw [rtlRecv, if_neg (by decide), Load.run_bind, Load.run_bind, pktLen, rtlTake]
  simp only [dataLen]
  rw [if_neg sound, Load.run_bind, Load.run_pure, copy]
  exact ⟨rfl, rfl, rfl⟩

/-- The next read offset, when the packet starts inside the ring. -/
theorem toNat_rxAdvance_stored {rxCur : UInt16} (aligned : rxCur.toNat % 4 = 0)
    (inside : rxCur.toNat < rxRingSize) :
    (rxAdvance rxCur (UInt16.ofNat p.pktLen + 4)).toNat =
      (rxCur.toNat + ringSpace p) % rtlRxBufSize := by
  have bounds := pktLen_bounds p
  have step : (UInt16.ofNat p.pktLen + 4).toNat = p.pktLen + 4 := by
    rw [UInt16.toNat_add, toNat_pktLen]
    change (p.pktLen + 4) % 65536 = _
    omega
  rw [toNat_rxAdvance (by simp only [rxRingSize] at inside; omega), step]
  rw [show rxCur.toNat + (p.pktLen + 4) + 3 = rxCur.toNat + 4 + p.pktLen + 3 by omega,
    align_add aligned]

/-! ## Runs -/

variable {s : RxState} {events : List RxEvent}

@[simp] theorem rxRun_append (s : RxState) (events : List RxEvent) (event : RxEvent) :
    rxRun s (events ++ [event]) = rxStep (rxRun s events) event := by
  simp [rxRun]

theorem NeverOverwritten.mono {before : List RxEvent} (never : NeverOverwritten s events)
    (sub : before <+: events) : NeverOverwritten s before :=
  fun start p found => never start p (found.trans sub)

theorem rxStep_cardInv (inv : CardInv s.card) {event : RxEvent}
    (room : ∀ p, event = .receive p → s.card.Room p) : CardInv (rxStep s event).card := by
  cases event with
  | receive p => exact inv.receive (room p rfl)
  | recv => exact inv.consume

theorem rxRun_cardInv {mem : Nat → UInt8} (never : NeverOverwritten (rxInit mem) events) :
    CardInv (rxRun (rxInit mem) events).card := by
  induction events using List.reverseRecOn with
  | nil => exact cardInv_init mem
  | append_singleton events event ih =>
    rw [rxRun_append]
    refine rxStep_cardInv (ih (never.mono (List.prefix_append _ _))) fun p received => ?_
    exact never events p (by rw [received])

/-- The space consumed by a run, a function of its events. -/
def spaceConsumed (mem : Nat → UInt8) (events : List RxEvent) : Nat :=
  ringSpaces (rxRun (rxInit mem) events).card.consumed

/-- The driver has followed the card to the end of the space consumed. -/
structure Following (s : RxState) : Prop where
  rxCur : s.rxCur.toNat = ringSpaces s.card.consumed
  delivered : s.delivered = s.card.consumed.map fun p => p.frame.bytes

theorem Following.tracks (following : Following s) (inv : CardInv s.card)
    (inside : ringSpaces s.card.consumed < rxRingSize) : Tracks s :=
  ⟨by rw [following.rxCur, inv.nextHeader, Nat.mod_eq_of_lt inside], following.delivered⟩

theorem Tracks.following (tracks : Tracks s) (inv : CardInv s.card)
    (inside : ringSpaces s.card.consumed < rxRingSize) : Following s :=
  ⟨by rw [tracks.1, inv.nextHeader, Nat.mod_eq_of_lt inside], tracks.2⟩

theorem recv_empty (empty : s.card.pending = []) :
    (rxStep s .recv).rxCur = s.rxCur ∧ (rxStep s .recv).delivered = s.delivered ∧
      (rxStep s .recv).card.consumed = s.card.consumed := by
  simp [rxStep, RxState.recv, RxCard.consume, rtlRecv, empty]

theorem recv_consumed {q : Nat × RxPacket} {rest : List (Nat × RxPacket)}
    (pending : s.card.pending = q :: rest) :
    (rxStep s .recv).card.consumed = s.card.consumed ++ [q.2] := by
  simp [rxStep, RxState.recv, RxCard.consume, pending]

/-- A call of `rtl_recv` with a packet pending, while the driver follows. -/
theorem Following.recv_pending (following : Following s) (inv : CardInv s.card)
    (inside : ringSpaces s.card.consumed < rxRingSize) {q : Nat × RxPacket}
    {rest : List (Nat × RxPacket)} (pending : s.card.pending = q :: rest) :
    (rxStep s .recv).rxCur.toNat =
        (ringSpaces s.card.consumed + ringSpace q.2) % rtlRxBufSize ∧
      (rxStep s .recv).delivered = s.delivered ++ [q.2.frame.bytes] := by
  have aligned : s.rxCur.toNat % 4 = 0 := by
    rw [following.rxCur]
    exact ringSpaces_mod _
  have header : q.1 = s.rxCur.toNat := by
    have next := inv.nextHeader
    rw [Nat.mod_eq_of_lt inside, ← following.rxCur, RxCard.nextHeader, pending] at next
    exact next
  have inside' : s.rxCur.toNat < rxRingSize := by rwa [following.rxCur]
  have room : s.rxCur.toNat + 4 + q.2.frame.bytes.length ≤ rtlRxBufSize := by
    have short := q.2.frame.short
    simp only [rxRingSize, rtlRxBufSize] at inside' ⊢
    omega
  have intact : ∀ i, (lt : i < q.2.stored.length) →
      s.card.mem (s.rxCur.toNat + i) = q.2.stored[i] := by
    rw [← header]
    exact inv.intact q (by rw [pending]; exact List.mem_cons_self)
  obtain ⟨ret, data, rxCur⟩ := run_rtlRecv_stored intact room
  have notEmpty : s.card.pending.isEmpty = false := by rw [pending]; rfl
  constructor
  · simp only [rxStep, RxState.recv, notEmpty, rxCur]
    rw [toNat_rxAdvance_stored aligned inside', following.rxCur]
  · simp only [rxStep, RxState.recv, notEmpty, ret, data]
    rw [if_neg q.2.frame.len_ne_zero]

theorem ringSpace_le (p : RxPacket) : 8 ≤ ringSpace p ∧ ringSpace p ≤ 1524 := by
  have bounds := pktLen_bounds p
  rw [ringSpace]
  omega

/-- One step keeps the driver following as long as the space stays inside the ring. -/
theorem Following.step (following : Following s) (inv : CardInv s.card) (event : RxEvent)
    (inside : ringSpaces (rxStep s event).card.consumed < rxRingSize) :
    Following (rxStep s event) := by
  cases event with
  | receive p => exact ⟨following.rxCur, following.delivered⟩
  | recv =>
    cases pending : s.card.pending with
    | nil =>
      obtain ⟨rxCur, delivered, consumed⟩ := recv_empty pending
      exact ⟨by rw [rxCur, consumed, following.rxCur],
        by rw [delivered, consumed, following.delivered]⟩
    | cons q rest =>
      have consumed := recv_consumed pending
      rw [consumed, ringSpaces_append, ringSpaces_singleton] at inside
      obtain ⟨rxCur, delivered⟩ := following.recv_pending inv (by omega) pending
      refine ⟨?_, ?_⟩
      · rw [rxCur, consumed, ringSpaces_append, ringSpaces_singleton]
        exact Nat.mod_eq_of_lt (by simp only [rxRingSize, rtlRxBufSize] at inside ⊢; omega)
      · rw [delivered, consumed, following.delivered, List.map_append]
        rfl

/-- The step that takes the space past the end of the ring separates the two. -/
theorem Following.step_inside (following : Following s) (inv : CardInv s.card)
    (inside : ringSpaces s.card.consumed < rxRingSize) {event : RxEvent}
    (room : ∀ p, event = .receive p → s.card.Room p) (tracks : Tracks (rxStep s event)) :
    ringSpaces (rxStep s event).card.consumed < rxRingSize := by
  have inv' := rxStep_cardInv inv room
  cases event with
  | receive p => exact inside
  | recv =>
    cases pending : s.card.pending with
    | nil =>
      obtain ⟨-, -, consumed⟩ := recv_empty pending
      rwa [consumed]
    | cons q rest =>
      have consumed := recv_consumed pending
      have rxCur := (following.recv_pending inv inside pending).1
      have space := ringSpace_le q.2
      have same := tracks.1
      rw [inv'.nextHeader, rxCur, consumed, ringSpaces_append, ringSpaces_singleton] at same
      rw [consumed, ringSpaces_append, ringSpaces_singleton]
      simp only [rxRingSize, rtlRxBufSize] at inside same ⊢
      omega

/-- More events consume more space. -/
theorem spaceConsumed_mono {mem : Nat → UInt8} {before : List RxEvent}
    (sub : before <+: events) : spaceConsumed mem before ≤ spaceConsumed mem events := by
  induction events using List.reverseRecOn with
  | nil => rw [List.prefix_nil.mp sub]
  | append_singleton events event ih =>
    rcases List.prefix_concat_iff.mp sub with rfl | sub
    · exact Nat.le_refl _
    · refine Nat.le_trans (ih sub) ?_
      simp only [spaceConsumed, rxRun_append]
      cases event with
      | receive p => exact Nat.le_refl _
      | recv =>
        simp only [rxStep, RxState.recv, RxCard.consume, ringSpaces_append]
        exact Nat.le_add_right _ _

/-- While the packets consumed fit the ring, the driver follows. -/
theorem following_of_inside {mem : Nat → UInt8} (never : NeverOverwritten (rxInit mem) events)
    (inside : spaceConsumed mem events < rxRingSize) :
    Following (rxRun (rxInit mem) events) := by
  induction events using List.reverseRecOn with
  | nil => exact ⟨rfl, rfl⟩
  | append_singleton events event ih =>
    have sub := List.prefix_append events [event]
    have following := ih (never.mono sub)
      (Nat.lt_of_le_of_lt (spaceConsumed_mono sub) inside)
    have inv := rxRun_cardInv (never.mono sub)
    rw [spaceConsumed, rxRun_append] at inside
    rw [rxRun_append]
    exact following.step inv event inside

/-- A driver that tracks the card at every point has consumed less than the ring. -/
theorem inside_of_tracks {mem : Nat → UInt8} (never : NeverOverwritten (rxInit mem) events)
    (tracks : ∀ before, before <+: events → Tracks (rxRun (rxInit mem) before)) :
    spaceConsumed mem events < rxRingSize := by
  induction events using List.reverseRecOn with
  | nil => exact Nat.zero_lt_succ _
  | append_singleton events event ih =>
    have sub := List.prefix_append events [event]
    have inside := ih (never.mono sub) fun before found => tracks before (found.trans sub)
    have inv := rxRun_cardInv (never.mono sub)
    have following := (tracks events sub).following inv inside
    have last := tracks _ (List.prefix_refl _)
    rw [rxRun_append] at last
    rw [spaceConsumed, rxRun_append]
    refine following.step_inside inv inside (fun p received => ?_) last
    exact never events p (by rw [received])

/-! ## Packets consumed as they come -/

/-- Every packet is consumed before the next one arrives. -/
def keepUp (ps : List RxPacket) : List RxEvent := ps.flatMap fun p => [.receive p, .recv]

theorem keepUp_cons (p : RxPacket) (ps : List RxPacket) :
    keepUp (p :: ps) = .receive p :: .recv :: keepUp ps := rfl

theorem recv_receive (empty : s.card.pending = []) (p : RxPacket) :
    (rxStep (rxStep s (.receive p)) .recv).card.pending = [] ∧
      (rxStep (rxStep s (.receive p)) .recv).card.consumed = s.card.consumed ++ [p] := by
  simp [rxStep, RxState.recv, RxCard.receive, RxCard.consume, empty]

theorem keepUp_pending {ps : List RxPacket} (empty : s.card.pending = []) {p : RxPacket}
    {before : List RxEvent} (found : before ++ [.receive p] <+: keepUp ps) :
    (rxRun s before).card.pending = [] := by
  induction ps generalizing s before with
  | nil => simp [keepUp] at found
  | cons q ps ih =>
    rw [keepUp_cons] at found
    match before, found with
    | [], _ => exact empty
    | [_], found => simp at found
    | _ :: _ :: before, found =>
      simp only [List.cons_append, List.cons_prefix_cons] at found
      obtain ⟨rfl, rfl, found⟩ := found
      exact ih (recv_receive empty q).1 found

theorem keepUp_never (mem : Nat → UInt8) (ps : List RxPacket) :
    NeverOverwritten (rxInit mem) (keepUp ps) := by
  intro before p found q member
  rw [keepUp_pending rfl found] at member
  simp at member

theorem keepUp_consumed {ps : List RxPacket} (empty : s.card.pending = []) :
    (rxRun s (keepUp ps)).card.consumed = s.card.consumed ++ ps := by
  induction ps generalizing s with
  | nil => simp [keepUp, rxRun]
  | cons p ps ih =>
    obtain ⟨empty', consumed⟩ := recv_receive empty p
    have rest := ih empty'
    rw [consumed, List.append_assoc] at rest
    exact rest

theorem spaceConsumed_keepUp (mem : Nat → UInt8) (ps : List RxPacket) :
    spaceConsumed mem (keepUp ps) = ringSpaces ps := by
  rw [spaceConsumed, keepUp_consumed rfl]
  rfl

/-! ## Tracking -/

/-- **Receive ring tracking.**  In a run in which no packet is overwritten before it is
consumed, the driver is at the next header with exactly the consumed frames delivered at
every point, if and only if the packets consumed take less space than the ring has. -/
theorem rx_tracks_iff (mem : Nat → UInt8) (events : List RxEvent)
    (never : NeverOverwritten (rxInit mem) events) :
    (∀ before, before <+: events → Tracks (rxRun (rxInit mem) before)) ↔
      spaceConsumed mem events < rxRingSize := by
  constructor
  · exact inside_of_tracks never
  · intro inside before sub
    have inside' := Nat.lt_of_le_of_lt (spaceConsumed_mono sub) inside
    have never' := never.mono sub
    exact (following_of_inside never' inside').tracks (rxRun_cardInv never') inside'

/-- A packet of full length. -/
def fullPacket : RxPacket where
  status := 1
  frame := ⟨List.replicate 1514 0, by rw [List.length_replicate]; omega,
    by rw [List.length_replicate]⟩
  crc := #v[0, 0, 0, 0]

theorem ringSpace_fullPacket : ringSpace fullPacket = 1524 := by
  have length : fullPacket.frame.bytes.length = 1514 := List.length_replicate
  rw [ringSpace, RxPacket.pktLen, length]

theorem ringSpaces_replicate (n : Nat) (p : RxPacket) :
    ringSpaces (List.replicate n p) = n * ringSpace p := by
  simp [ringSpaces]

/-- Two full packets. -/
theorem rx_tracks_two :
    Tracks (rxRun (rxInit fun _ => 0) (keepUp (List.replicate 2 fullPacket))) := by
  have inside : spaceConsumed (fun _ => 0) (keepUp (List.replicate 2 fullPacket)) <
      rxRingSize := by
    rw [spaceConsumed_keepUp, ringSpaces_replicate, ringSpace_fullPacket]
    decide
  exact (rx_tracks_iff _ _ (keepUp_never _ _)).mpr inside _ (List.prefix_refl _)

/-- Twenty-two full packets pass the end of the ring. -/
theorem rx_tracks_fail :
    NeverOverwritten (rxInit fun _ => 0) (keepUp (List.replicate 22 fullPacket)) ∧
      ¬ ∀ before, before <+: keepUp (List.replicate 22 fullPacket) →
        Tracks (rxRun (rxInit fun _ => 0) before) := by
  refine ⟨keepUp_never _ _, fun tracks => ?_⟩
  have inside := inside_of_tracks (keepUp_never _ _) tracks
  rw [spaceConsumed_keepUp, ringSpaces_replicate, ringSpace_fullPacket] at inside
  exact absurd inside (by decide)

end MOKernel
