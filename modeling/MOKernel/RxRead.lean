import MOKernel.RxRing

/-!
# What `rtl_recv` reads

A run is a sequence of calls of `rtl_recv` from read offset 0; what the buffer holds may
change arbitrarily from one call to the next.

* `recv_reads_ring`: every read stays inside `rx_buf`, at most 1514 bytes are stored, and
  both branches of the copy are one read modulo `sizeof(rx_buf)`;
* `recv_skips_packet_iff`: the lengths for which the next read offset is behind the packet.
  A delivered packet is skipped as a whole.  A rejected one is left with its header skipped
  and its bytes next in line.
-/

namespace MOKernel

/-- A call of `rtl_recv`: the buffer-empty bit it reads and what `rx_buf` holds. -/
structure RecvCall where
  empty : Bool
  mem : ByteMemory

/-- The read offset after a sequence of calls. -/
def recvRun (rxCur : UInt16) (calls : List RecvCall) : UInt16 :=
  calls.foldl (fun rxCur call => ((rtlRecv call.empty rxCur).run call.mem).rxCur) rxCur

/-- The read offset stays aligned and inside the buffer. -/
theorem rxAligned_recvRun {rxCur : UInt16} (aligned : RxAligned rxCur) (calls : List RecvCall) :
    RxAligned (recvRun rxCur calls) := by
  induction calls generalizing rxCur with
  | nil => exact aligned
  | cons call calls ih => exact ih (rtlRecv_frame call.empty aligned call.mem).1

theorem rxAligned_zero : RxAligned 0 := ⟨rfl, by decide⟩

/-! ## Reads -/

variable {rxCur pktLen : UInt16} {mem : ByteMemory}

/-- Where the copy turns over: the bytes up to the end of the buffer, then those from its
start. -/
theorem toNat_rxFirst (aligned : RxAligned rxCur) :
    (UInt16.ofNat rtlRxBufSize - rxCur - 4).toNat = rtlRxBufSize - 4 - rxCur.toNat := by
  have size : (UInt16.ofNat rtlRxBufSize).toNat = rtlRxBufSize := rfl
  obtain ⟨mult, inside⟩ := aligned
  simp only [UInt16.toNat_sub, UInt16.reduceToNat, size]
  simp only [rtlRxBufSize] at inside ⊢
  omega

theorem toNat_rxSecond (aligned : RxAligned rxCur) {dataLen : UInt16}
    (past : ¬ rxCur.toNat + 4 + dataLen.toNat ≤ rtlRxBufSize) :
    (dataLen - (UInt16.ofNat rtlRxBufSize - rxCur - 4)).toNat =
      dataLen.toNat - (rtlRxBufSize - 4 - rxCur.toNat) := by
  have first := toNat_rxFirst aligned
  have lt := dataLen.toNat_lt
  have inside := aligned.2
  rw [UInt16.toNat_sub, first]
  simp only [rtlRxBufSize] at past inside ⊢
  omega

/-- The copy reads inside the buffer. -/
theorem readsIn_rxCopy (aligned : RxAligned rxCur) {dataLen : UInt16}
    (short : dataLen.toNat ≤ 1514) :
    (rxCopy rxCur dataLen).ReadsIn mem (Set.Iio rtlRxBufSize) := by
  have inside := aligned.2
  rw [rxCopy]
  refine Load.readsIn_ite (fun fits => ?_) fun past => ?_
  · exact Load.readsIn_block fun i lt => Set.mem_Iio.mpr (by omega)
  · have first := toNat_rxFirst aligned
    have second := toNat_rxSecond aligned past
    refine Load.readsIn_bind.mpr ⟨?_, Load.readsIn_bind.mpr ⟨?_, Load.readsIn_pure _⟩⟩
    · refine Load.readsIn_block fun i lt => Set.mem_Iio.mpr ?_
      rw [first] at lt
      simp only [rtlRxBufSize] at inside lt ⊢
      omega
    · refine Load.readsIn_block fun i lt => Set.mem_Iio.mpr ?_
      rw [second] at lt
      simp only [rtlRxBufSize] at inside lt ⊢
      omega

/-- Both branches of the copy are one read modulo the size of the buffer. -/
theorem run_rxCopy (aligned : RxAligned rxCur) {dataLen : UInt16} (short : dataLen.toNat ≤ 1514) :
    (rxCopy rxCur dataLen).run mem =
      (List.range dataLen.toNat).map fun k => mem ((rxCur.toNat + 4 + k) % rtlRxBufSize) := by
  have inside := aligned.2
  have mult := aligned.1
  rw [rxCopy, Load.run_ite]
  split
  · rename_i fits
    rw [Load.run_block]
    refine List.map_congr_left fun k member => ?_
    have lt := List.mem_range.mp member
    rw [Nat.mod_eq_of_lt (by omega)]
  · rename_i past
    have first := toNat_rxFirst aligned
    have second := toNat_rxSecond aligned past
    have split : dataLen.toNat = (rtlRxBufSize - 4 - rxCur.toNat) +
        (dataLen.toNat - (rtlRxBufSize - 4 - rxCur.toNat)) := by
      simp only [rtlRxBufSize] at past inside ⊢
      omega
    simp only [Load.run_bind, Load.run_pure, Load.run_block, first, second]
    conv_rhs => rw [split, List.range_add, List.map_append, List.map_map]
    refine congrArg₂ _ (List.map_congr_left fun k member => ?_)
      (List.map_congr_left fun k member => ?_)
    · have lt := List.mem_range.mp member
      rw [Nat.mod_eq_of_lt (by omega)]
    · have lt := List.mem_range.mp member
      have turned : rxCur.toNat + 4 + (rtlRxBufSize - 4 - rxCur.toNat + k) = rtlRxBufSize + k := by
        simp only [rtlRxBufSize] at inside ⊢
        omega
      rw [Function.comp_apply, turned, Nat.add_mod_left, Nat.zero_add, Nat.mod_eq_of_lt]
      simp only [rtlRxBufSize] at inside lt ⊢
      omega

/-- The length `rtl_recv` accepts. -/
theorem toNat_le_of_sound {dataLen : UInt16} (sound : ¬ (dataLen = 0 ∨ dataLen > 1514)) :
    dataLen.toNat ≤ 1514 :=
  Nat.le_of_not_lt fun lt => (not_or.mp sound).2 (UInt16.lt_iff_toNat_lt.mpr lt)

theorem readsIn_rtlTake (aligned : RxAligned rxCur) :
    (rtlTake rxCur pktLen).ReadsIn mem (Set.Iio rtlRxBufSize) := by
  rw [rtlTake]
  refine Load.readsIn_ite (fun _ => Load.readsIn_pure _) fun sound => ?_
  exact Load.readsIn_bind.mpr
    ⟨readsIn_rxCopy aligned (toNat_le_of_sound sound), Load.readsIn_pure _⟩

/-- The header and the packet are read inside the buffer. -/
theorem readsIn_rtlRecv (empty : Bool) (aligned : RxAligned rxCur) :
    (rtlRecv empty rxCur).ReadsIn mem (Set.Iio rtlRxBufSize) := by
  obtain ⟨mult, inside⟩ := aligned
  -- the last aligned offset still has four bytes behind it
  have header : rxCur.toNat + 3 < rtlRxBufSize := by
    simp only [rtlRxBufSize] at inside ⊢
    omega
  rw [rtlRecv]
  refine Load.readsIn_ite (fun _ => Load.readsIn_pure _) fun _ => ?_
  refine Load.readsIn_bind.mpr ⟨?_, Load.readsIn_bind.mpr ⟨?_, readsIn_rtlTake ⟨mult, inside⟩⟩⟩
  · exact loadU16_readsIn fun i member => Set.mem_Iio.mpr (by have lt := member.2; omega)
  · exact loadU16_readsIn fun i member => Set.mem_Iio.mpr (by have lt := member.2; omega)

/-- What a call stores and returns. -/
theorem run_rtlTake_data (aligned : RxAligned rxCur) :
    ((rtlTake rxCur pktLen).run mem).data =
      (List.range ((rtlTake rxCur pktLen).run mem).ret.toNat).map fun k =>
        mem ((rxCur.toNat + 4 + k) % rtlRxBufSize) := by
  rw [rtlTake, Load.run_ite]
  split
  · rfl
  · rename_i sound
    rw [Load.run_bind, Load.run_pure]
    exact run_rxCopy aligned (toNat_le_of_sound sound)

theorem run_rtlRecv_data (empty : Bool) (aligned : RxAligned rxCur) :
    ((rtlRecv empty rxCur).run mem).data =
      (List.range ((rtlRecv empty rxCur).run mem).ret.toNat).map fun k =>
        mem ((rxCur.toNat + 4 + k) % rtlRxBufSize) := by
  rw [rtlRecv, Load.run_ite]
  split
  · rfl
  · rw [Load.run_bind, Load.run_bind]
    exact run_rtlTake_data aligned

theorem length_rtlRecv_data (empty : Bool) (aligned : RxAligned rxCur) :
    ((rtlRecv empty rxCur).run mem).data.length ≤ 1514 := by
  rcases (rtlRecv_frame empty aligned mem).2 with none | ⟨f, bytes, -⟩
  · rw [run_rtlRecv_data empty aligned, none]
    exact Nat.zero_le _
  · rw [← bytes]
    exact f.short

/-- **Ring read safety.**  After any calls from read offset 0, the next call finds an aligned
offset inside `rx_buf`, reads inside `rx_buf` only, stores at most 1514 bytes, and a
length it returns is that of one contiguous read modulo the size of the buffer. -/
theorem recv_reads_ring (calls : List RecvCall) (empty : Bool) (mem : ByteMemory) :
    RxAligned (recvRun 0 calls) ∧
      (rtlRecv empty (recvRun 0 calls)).ReadsIn mem (Set.Iio rtlRxBufSize) ∧
      ((rtlRecv empty (recvRun 0 calls)).run mem).data.length ≤ 1514 ∧
      ((rtlRecv empty (recvRun 0 calls)).run mem).data =
        (List.range ((rtlRecv empty (recvRun 0 calls)).run mem).ret.toNat).map fun k =>
          mem (((recvRun 0 calls).toNat + 4 + k) % rtlRxBufSize) := by
  have aligned : RxAligned (recvRun 0 calls) := rxAligned_recvRun rxAligned_zero calls
  exact ⟨aligned, readsIn_rtlRecv empty aligned, length_rtlRecv_data empty aligned,
    run_rtlRecv_data empty aligned⟩

/-! ## The next offset -/

/-- The packet length in the header at an offset. -/
def pktLenAt (mem : ByteMemory) (rxCur : UInt16) : UInt16 := (loadU16 (rxCur.toNat + 2)).run mem

/-- The offset behind a packet of a length, header included and rounded up to four bytes. -/
def behindPacket (rxCur : UInt16) (pktLen : Nat) : Nat :=
  (rxCur.toNat + 4 + pktLen + 3) / 4 * 4 % rtlRxBufSize

theorem run_rtlRecv_nonempty :
    (rtlRecv false rxCur).run mem = (rtlTake rxCur (pktLenAt mem rxCur)).run mem := by
  rw [rtlRecv, if_neg (by decide), Load.run_bind, Load.run_bind]
  rfl

/-- The lengths of packets that are delivered. -/
theorem delivered_iff (length : 4 ≤ pktLen.toNat) :
    ¬ (pktLen - 4 = 0 ∨ pktLen - 4 > 1514) ↔ 5 ≤ pktLen.toNat ∧ pktLen.toNat ≤ 1518 := by
  have value : (pktLen - 4).toNat = pktLen.toNat - 4 :=
    UInt16.toNat_sub_of_le _ _ (UInt16.le_iff_toNat_le.mpr length)
  rw [not_or, ← UInt16.toNat_inj, gt_iff_lt, UInt16.lt_iff_toNat_lt, value]
  simp only [UInt16.reduceToNat]
  omega

/-- A delivered packet is skipped as a whole. -/
theorem rxCur_of_delivered (aligned : RxAligned rxCur) (least : 5 ≤ pktLen.toNat)
    (most : pktLen.toNat ≤ 1518) :
    ((rtlTake rxCur pktLen).run mem).rxCur.toNat = behindPacket rxCur pktLen.toNat := by
  have inside := aligned.2
  have step : (pktLen + 4).toNat = pktLen.toNat + 4 := by
    rw [UInt16.toNat_add]
    exact Nat.mod_eq_of_lt (by simp only [UInt16.reduceToNat]; omega)
  have sound := (delivered_iff (Nat.le_of_succ_le least)).mpr ⟨least, most⟩
  rw [rtlTake, if_neg sound, Load.run_bind, Load.run_pure, toNat_rxAdvance, step, behindPacket]
  · congr 2
    omega
  · simp only [rtlRxBufSize] at inside
    omega

/-- A rejected packet has its header skipped. -/
theorem rxCur_of_rejected (aligned : RxAligned rxCur)
    (rejected : pktLen - 4 = 0 ∨ pktLen - 4 > 1514) :
    ((rtlTake rxCur pktLen).run mem).rxCur.toNat = behindPacket rxCur 0 := by
  have inside := aligned.2
  rw [rtlTake, if_pos rejected, Load.run_pure, toNat_rxAdvance]
  · rfl
  · simp only [rtlRxBufSize] at inside
    simp only [UInt16.reduceToNat]
    omega

/-- Skipping the header alone skips the packet when the packet goes round the buffer once. -/
theorem behindPacket_eq_header_iff (aligned : RxAligned rxCur) (least : 4 ≤ pktLen.toNat) :
    behindPacket rxCur 0 = behindPacket rxCur pktLen.toNat ↔
      34281 ≤ pktLen.toNat ∧ pktLen.toNat ≤ 34284 := by
  obtain ⟨mult, inside⟩ := aligned
  have bound := pktLen.toNat_lt
  simp only [behindPacket, rtlRxBufSize] at inside ⊢
  omega

/-- **Where a call of `rtl_recv` leaves the read offset.**  With a packet length of at least 4
in the header, the next offset is behind the packet exactly when the packet is delivered
or its rounded length is the size of the buffer. -/
theorem recv_skips_packet_iff (calls : List RecvCall) (mem : ByteMemory)
    (least : 4 ≤ (pktLenAt mem (recvRun 0 calls)).toNat) :
    ((rtlRecv false (recvRun 0 calls)).run mem).rxCur.toNat =
        behindPacket (recvRun 0 calls) (pktLenAt mem (recvRun 0 calls)).toNat ↔
      (5 ≤ (pktLenAt mem (recvRun 0 calls)).toNat ∧
          (pktLenAt mem (recvRun 0 calls)).toNat ≤ 1518) ∨
        34281 ≤ (pktLenAt mem (recvRun 0 calls)).toNat ∧
          (pktLenAt mem (recvRun 0 calls)).toNat ≤ 34284 := by
  have aligned : RxAligned (recvRun 0 calls) := rxAligned_recvRun rxAligned_zero calls
  rw [run_rtlRecv_nonempty]
  generalize pktLenAt mem (recvRun 0 calls) = pktLen at least ⊢
  by_cases delivered : 5 ≤ pktLen.toNat ∧ pktLen.toNat ≤ 1518
  · exact iff_of_true (rxCur_of_delivered aligned delivered.1 delivered.2) (.inl delivered)
  · have rejected := Decidable.not_not.mp (mt (delivered_iff least).mp delivered)
    rw [rxCur_of_rejected aligned rejected, behindPacket_eq_header_iff aligned least]
    exact ⟨.inr, fun either => either.resolve_left delivered⟩

/-- A buffer that starts with the header of a packet of a length. -/
def headerFirst (pktLen : UInt16) : ByteMemory := storeAt (fun _ => 0) 2 (le16 pktLen)

theorem recv_skips_packet_delivered :
    4 ≤ (pktLenAt (headerFirst 64) (recvRun 0 [])).toNat ∧
      ((rtlRecv false (recvRun 0 [])).run (headerFirst 64)).rxCur.toNat =
        behindPacket (recvRun 0 []) (pktLenAt (headerFirst 64) (recvRun 0 [])).toNat :=
  ⟨by decide, (recv_skips_packet_iff [] (headerFirst 64) (by decide)).mpr (.inl (by decide))⟩

/-- An oversize packet: the bytes of its data are read as the next header. -/
theorem recv_enters_oversize_packet :
    ¬ ∀ (calls : List RecvCall) (mem : ByteMemory),
      4 ≤ (pktLenAt mem (recvRun 0 calls)).toNat →
        ((rtlRecv false (recvRun 0 calls)).run mem).rxCur.toNat =
          behindPacket (recvRun 0 calls) (pktLenAt mem (recvRun 0 calls)).toNat := by
  intro skips
  have skipped := skips [] (headerFirst 1519) (by decide)
  exact absurd skipped (by decide)

end MOKernel
