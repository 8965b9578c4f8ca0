import MOKernel.ByteMemory
import MOKernel.NetStack

/-!
# The receive ring

`rtl_recv` over the memory that starts at `rx_buf`, and the card it reads after.
The card stores every packet behind its last one, header first, and returns to the
start of the ring once its write offset has passed the 32 KiB it was configured
with; `rtl_recv` returns to the start after `sizeof(rx_buf)` bytes.

`rtlRecv_frame`: from any aligned read offset inside the buffer `rtl_recv` returns 0
or a whole frame of 1 to 1514 bytes, whatever the ring holds.
-/

namespace MOKernel

abbrev rtlRxBufSize : Nat := 32 * 1024 + 16 + 1500

/-- The ring size of `RTL_RCR_RBLEN_32K`. -/
abbrev rxRingSize : Nat := 32768

/-! ## The driver -/

/-- What `rtl_recv` returns, the bytes it stores to `out_buf`, the read offset it leaves and
what it writes to CAPR. -/
structure RecvResult where
  ret : UInt16
  data : List UInt8
  rxCur : UInt16
  capr : Option UInt16

/-- `rx_cur = (rx_cur + step + 3) & ~3; rx_cur %= sizeof(rx_buf);` -/
def rxAdvance (rxCur step : UInt16) : UInt16 :=
  ((rxCur + step + 3) &&& ~~~3) % UInt16.ofNat rtlRxBufSize

/-- The copy to `out_buf`; a packet that reaches the end of the buffer goes on at its start. -/
def rxCopy (rxCur dataLen : UInt16) : Load Nat UInt8 (List UInt8) :=
  if rxCur.toNat + 4 + dataLen.toNat ≤ rtlRxBufSize then
    Load.block (rxCur.toNat + 4) dataLen.toNat
  else do
    let first := UInt16.ofNat rtlRxBufSize - rxCur - 4
    let second := dataLen - first
    let front ← Load.block (rxCur.toNat + 4) first.toNat
    let back ← Load.block 0 second.toNat
    pure (front ++ back)

/-- `rtl_recv` of a packet with length field `pktLen`. -/
def rtlTake (rxCur pktLen : UInt16) : Load Nat UInt8 RecvResult :=
  let dataLen := pktLen - 4
  if dataLen = 0 ∨ dataLen > 1514 then
    let rxCur := rxAdvance rxCur 4
    pure ⟨0, [], rxCur, some (rxCur - 16)⟩
  else do
    let data ← rxCopy rxCur dataLen
    let rxCur := rxAdvance rxCur (pktLen + 4)
    pure ⟨dataLen, data, rxCur, some (rxCur - 16)⟩

/-- `rtl_recv`; `empty` is the buffer-empty bit of the command register. -/
def rtlRecv (empty : Bool) (rxCur : UInt16) : Load Nat UInt8 RecvResult :=
  if empty then pure ⟨0, [], rxCur, none⟩
  else do
    let _hdrFlags ← loadU16 rxCur.toNat
    let pktLen ← loadU16 (rxCur.toNat + 2)
    rtlTake rxCur pktLen

/-- A frame that `rtl_recv` returns. -/
structure RxFrame where
  bytes : List UInt8
  nonempty : 0 < bytes.length
  short : bytes.length ≤ 1514

def RxFrame.len (f : RxFrame) : UInt16 := UInt16.ofNat f.bytes.length

@[simp] theorem RxFrame.toNat_len (f : RxFrame) : f.len.toNat = f.bytes.length := by
  have short := f.short
  rw [RxFrame.len, UInt16.toNat_ofNat']
  exact Nat.mod_eq_of_lt (by omega)

theorem RxFrame.len_ne_zero (f : RxFrame) : f.len ≠ 0 := by
  intro zero
  have value := congrArg UInt16.toNat zero
  have positive := f.nonempty
  rw [RxFrame.toNat_len, UInt16.toNat_zero] at value
  omega

theorem RxFrame.len_le (f : RxFrame) : ¬ f.len > 1514 := by
  intro long
  have value := UInt16.lt_iff_toNat_lt.mp long
  rw [RxFrame.toNat_len] at value
  exact Nat.not_lt.mpr f.short value

/-! ## Offsets -/

theorem toNat_alignDown (x : UInt16) : (x &&& ~~~(3 : UInt16)).toNat = x.toNat / 4 * 4 := by
  have shifted : (x &&& ~~~(3 : UInt16)) = (x >>> 2) <<< 2 := by
    apply UInt16.eq_of_toBitVec_eq
    ext i lt
    interval_cases i <;> simp
  have bound := x.toNat_lt
  rw [shifted]
  simp only [UInt16.toNat_shiftLeft, UInt16.toNat_shiftRight, UInt16.reduceToNat, Nat.reduceMod,
    Nat.reducePow, Nat.shiftRight_eq_div_pow, Nat.shiftLeft_eq]
  omega

theorem toNat_rxAdvance {rxCur step : UInt16} (small : rxCur.toNat + step.toNat + 3 < 65536) :
    (rxAdvance rxCur step).toNat = (rxCur.toNat + step.toNat + 3) / 4 * 4 % rtlRxBufSize := by
  have sum : (rxCur + step + 3).toNat = rxCur.toNat + step.toNat + 3 := by
    simp only [UInt16.toNat_add, UInt16.reduceToNat]
    omega
  rw [rxAdvance, UInt16.toNat_mod, toNat_alignDown, sum]
  rfl

/-- A read offset the driver can leave: aligned and inside the buffer. -/
def RxAligned (rxCur : UInt16) : Prop := rxCur.toNat % 4 = 0 ∧ rxCur.toNat < rtlRxBufSize

theorem rxAligned_rxAdvance (rxCur step : UInt16) : RxAligned (rxAdvance rxCur step) := by
  have value : (rxAdvance rxCur step).toNat = (rxCur + step + 3).toNat / 4 * 4 % rtlRxBufSize := by
    rw [rxAdvance, UInt16.toNat_mod, toNat_alignDown]
    rfl
  rw [RxAligned, value]
  simp only [rtlRxBufSize]
  omega

/-- Whatever the ring holds, the copy has the length asked for. -/
theorem length_rxCopy {mem : Nat → UInt8} {rxCur dataLen : UInt16} (aligned : RxAligned rxCur) :
    ((rxCopy rxCur dataLen).run mem).length = dataLen.toNat := by
  have size : (UInt16.ofNat rtlRxBufSize).toNat = 34284 := rfl
  obtain ⟨mult, inside⟩ := aligned
  rw [rxCopy, Load.run_ite]
  split
  · rw [Load.run_block]
    simp
  · rename_i past
    simp only [rtlRxBufSize] at inside past
    have first : (UInt16.ofNat rtlRxBufSize - rxCur - 4).toNat = 34280 - rxCur.toNat := by
      simp only [UInt16.toNat_sub, UInt16.reduceToNat, size]
      omega
    have second : (dataLen - (UInt16.ofNat rtlRxBufSize - rxCur - 4)).toNat =
        dataLen.toNat - (34280 - rxCur.toNat) := by
      have lt := dataLen.toNat_lt
      rw [UInt16.toNat_sub, first]
      omega
    simp only [Load.run_bind, Load.run_pure, Load.run_block, List.length_append, List.length_map,
      List.length_range, first, second]
    omega

theorem rtlTake_frame {rxCur : UInt16} (aligned : RxAligned rxCur) (pktLen : UInt16)
    (mem : Nat → UInt8) :
    RxAligned ((rtlTake rxCur pktLen).run mem).rxCur ∧
      (((rtlTake rxCur pktLen).run mem).ret = 0 ∨ ∃ f : RxFrame,
        f.bytes = ((rtlTake rxCur pktLen).run mem).data ∧
          f.len = ((rtlTake rxCur pktLen).run mem).ret) := by
  rw [rtlTake, Load.run_ite]
  split
  · exact ⟨rxAligned_rxAdvance _ _, .inl rfl⟩
  · rename_i sound
    have length : ((rxCopy rxCur (pktLen - 4)).run mem).length = (pktLen - 4).toNat :=
      length_rxCopy aligned
    obtain ⟨nonzero, small⟩ := not_or.mp sound
    have positive : 0 < (pktLen - 4).toNat :=
      Nat.pos_of_ne_zero fun zero => nonzero (UInt16.toNat_inj.mp zero)
    have bound : (pktLen - 4).toNat ≤ 1514 :=
      Nat.le_of_not_lt fun lt => small (UInt16.lt_iff_toNat_lt.mpr lt)
    rw [Load.run_bind, Load.run_pure]
    refine ⟨rxAligned_rxAdvance _ _, .inr ⟨⟨(rxCopy rxCur (pktLen - 4)).run mem, ?_, ?_⟩, rfl, ?_⟩⟩
    · rwa [length]
    · rwa [length]
    · apply UInt16.toNat_inj.mp
      rw [RxFrame.toNat_len, length]

/-- **What `rtl_recv` returns.**  From an aligned offset it leaves an aligned offset, and it
returns 0 or the length of the frame it has stored, between 1 and 1514. -/
theorem rtlRecv_frame (empty : Bool) {rxCur : UInt16} (aligned : RxAligned rxCur)
    (mem : Nat → UInt8) :
    RxAligned ((rtlRecv empty rxCur).run mem).rxCur ∧
      (((rtlRecv empty rxCur).run mem).ret = 0 ∨ ∃ f : RxFrame,
        f.bytes = ((rtlRecv empty rxCur).run mem).data ∧
          f.len = ((rtlRecv empty rxCur).run mem).ret) := by
  rw [rtlRecv, Load.run_ite]
  split
  · exact ⟨aligned, .inl rfl⟩
  · rw [Load.run_bind, Load.run_bind]
    exact rtlTake_frame aligned _ mem

/-! ## The card -/

/-- A packet on the wire: the status the card reports, the frame and its CRC. -/
structure RxPacket where
  status : UInt16
  frame : RxFrame
  crc : Vector UInt8 4

/-- The length field of the packet header: the frame and its CRC. -/
def RxPacket.pktLen (p : RxPacket) : Nat := p.frame.bytes.length + 4

/-- What the card stores for a packet. -/
def RxPacket.stored (p : RxPacket) : List UInt8 :=
  le16 p.status ++ le16 (UInt16.ofNat p.pktLen) ++ (p.frame.bytes ++ p.crc.toList)

/-- The card: the memory it writes, its write offset, and the packets stored so far, those
that `rtl_recv` has consumed and those still pending with their offsets. -/
structure RxCard where
  mem : Nat → UInt8
  write : Nat
  consumed : List RxPacket
  pending : List (Nat × RxPacket)

/-- The card receives a packet: stored contiguously, past the end of the ring if need be. -/
def RxCard.receive (card : RxCard) (p : RxPacket) : RxCard :=
  { mem := storeAt card.mem card.write p.stored
    write := (card.write + 4 + p.pktLen + 3) / 4 * 4 % rxRingSize
    consumed := card.consumed
    pending := card.pending ++ [(card.write, p)] }

/-- `rtl_recv` consumes the oldest pending packet. -/
def RxCard.consume (card : RxCard) : RxCard :=
  { card with
    consumed := card.consumed ++ (card.pending.head?.map Prod.snd).toList
    pending := card.pending.tail }

/-- The offset at which the next packet's header is or will be written. -/
def RxCard.nextHeader (card : RxCard) : Nat :=
  (card.pending.head?.map Prod.fst).getD card.write

/-! ## The two together -/

inductive RxEvent
  | receive (p : RxPacket)
  | recv

/-- `delivered` collects the frames that `rtl_recv` returned. -/
structure RxState where
  card : RxCard
  rxCur : UInt16
  capr : Option UInt16
  delivered : List (List UInt8)

/-- A call of `rtl_recv`. -/
def RxState.recv (s : RxState) : RxState :=
  let result := (rtlRecv s.card.pending.isEmpty s.rxCur).run s.card.mem
  { card := s.card.consume
    rxCur := result.rxCur
    capr := result.capr
    delivered := if result.ret = 0 then s.delivered else s.delivered ++ [result.data] }

def rxStep (s : RxState) : RxEvent → RxState
  | .receive p => { s with card := s.card.receive p }
  | .recv => s.recv

def rxRun (s : RxState) (events : List RxEvent) : RxState := events.foldl rxStep s

/-- After `net_init`, with any content of the buffer. -/
def rxInit (mem : Nat → UInt8) : RxState :=
  { card := ⟨mem, 0, [], []⟩, rxCur := 0, capr := none, delivered := [] }

end MOKernel
