import MOKernel.ArpCache
import MOKernel.IpFrame

/-!
# The ARP handshake

A request and the reply to it, from `arp_send_request` of one instance through
`eth_process` of the other and back.  `ArpCall.exec_eq` is `arp_handle` over the
fields of the packet, and `arpFrame_call` reads the fields of a frame as it was built.
-/

namespace MOKernel

namespace ArpCall

def oper (call : ArpCall) : UInt16 :=
  ntohs (ofLe16 (call.mem (call.pkt + 6)) (call.mem (call.pkt + 7)))

def targetIp (call : ArpCall) : IpAddr :=
  ntohl (ofLe32 (call.mem (call.pkt + 24)) (call.mem (call.pkt + 25)) (call.mem (call.pkt + 26))
    (call.mem (call.pkt + 27)))

end ArpCall

/-- A packet behind the Ethernet header that goes with it. -/
def arpFrame (st : NetState) (dst : MacAddr) (packet : ArpPkt) : List UInt8 :=
  (ethBuild st dst ethTypeArp).bytes ++ packet.bytes

/-- `arp_handle` over the fields of the packet: it learns the sender and answers a request
for the own address. -/
theorem ArpCall.exec_eq (st : NetState) (call : ArpCall) (long : arpPktSize ≤ call.len.toNat) :
    call.exec st =
      let learned :=
        { st with arpCache := arpCacheInsert st.arpCache call.senderIp call.senderMac }
      if call.oper = arpOpReq ∧ call.targetIp = st.ip then
        (netSend learned (arpFrame learned call.senderMac
          (arpPacket learned arpOpReply call.senderMac (htonl call.senderIp)))).2
      else learned := by
  have spa : (loadU32 (call.pkt + 14)).run call.mem = htonl call.senderIp := (htonl_ntohl _).symm
  rw [ArpCall.exec, run_arpHandle, if_neg (Nat.not_lt.mpr long)]
  simp only [spa, ntohl_htonl]
  rfl

/-! ## The fields of a frame -/

theorem MacAddr.toList_eq (mac : MacAddr) :
    mac.toList = [mac[0], mac[1], mac[2], mac[3], mac[4], mac[5]] := by
  refine List.ext_getElem (by simp) fun i lt _ => ?_
  have small : i < 6 := by simpa using lt
  interval_cases i <;> rfl

@[simp] theorem ArpPkt.length_bytes (packet : ArpPkt) : packet.bytes.length = arpPktSize := by
  simp [ArpPkt.bytes]

/-- How a frame arrives in `pkt_buf`: what the buffer held, and the padding behind the frame. -/
structure Arrival where
  buf : Nat → UInt8
  pad : List UInt8
  fits : ethHdrSize + arpPktSize + pad.length ≤ 1518

/-- `eth_process` on a frame that arrived. -/
def Arrival.process (arrival : Arrival) (st : NetState) (frame : List UInt8) :
    NetState × Option IpSendArgs :=
  (ethReceive st (UInt16.ofNat (frame ++ arrival.pad).length)).run
    (overlay arrival.buf (frame ++ arrival.pad))

variable {st peer : NetState} {dst : MacAddr} {packet : ArpPkt} {arrival : Arrival}

/-- The call of `arp_handle` for a frame that arrived. -/
def Arrival.call (arrival : Arrival) (frame : List UInt8) : ArpCall where
  mem := overlay arrival.buf (frame ++ arrival.pad)
  pkt := ethHdrSize
  len := UInt16.ofNat (frame ++ arrival.pad).length - 14

theorem Arrival.length_eq : (arpFrame st dst packet ++ arrival.pad).length =
    ethHdrSize + arpPktSize + arrival.pad.length := by
  simp only [arpFrame, List.length_append, EthHdr.length_bytes, ArpPkt.length_bytes]

theorem Arrival.len_toNat (st : NetState) (dst : MacAddr) (packet : ArpPkt) (arrival : Arrival) :
    (UInt16.ofNat (arpFrame st dst packet ++ arrival.pad).length).toNat =
      ethHdrSize + arpPktSize + arrival.pad.length := by
  have fits := arrival.fits
  rw [Arrival.length_eq, UInt16.toNat_ofNat', Nat.mod_eq_of_lt]
  omega

/-- An ARP frame goes to `arp_handle`. -/
theorem Arrival.process_eq :
    arrival.process peer (arpFrame st dst packet) =
      ((arrival.call (arpFrame st dst packet)).exec peer, none) := by
  have size := Arrival.len_toNat st dst packet arrival
  have arp : frameEtype (overlay arrival.buf (arpFrame st dst packet ++ arrival.pad)) =
      ethTypeArp := by
    rw [arpFrame, List.append_assoc, frameEtype_ethBuild]
  unfold Arrival.process ethReceive
  rw [Load.run_bind, run_ethProcess, if_neg (by simp only [ethHdrSize] at size ⊢; omega),
    if_pos arp]
  simp only [NetCall.exec, Load.run_bind, Load.run_pure]
  rfl

theorem Arrival.call_long : arpPktSize ≤ (arrival.call (arpFrame st dst packet)).len.toNat := by
  have size := Arrival.len_toNat st dst packet arrival
  rw [Arrival.call, toNat_sub_ethHdrSize (by simp only [ethHdrSize] at size; omega), size]
  simp only [ethHdrSize]
  omega

/-- A byte of the packet, read behind the Ethernet header. -/
theorem Arrival.call_mem {i : Nat} (lt : i < arpPktSize) :
    (arrival.call (arpFrame st dst packet)).mem (ethHdrSize + i) =
      packet.bytes.get ⟨i, by simpa using lt⟩ := by
  have bytes := overlay_append_right arrival.buf (ethBuild st dst ethTypeArp).bytes
    (packet.bytes ++ arrival.pad) i
  rw [EthHdr.length_bytes, ← List.append_assoc] at bytes
  refine bytes.trans ?_
  rw [overlay_append_left (by simpa using lt)]
  rfl

theorem ArpPkt.bytes_eq (packet : ArpPkt) :
    packet.bytes = [packet.htype.toUInt8, (packet.htype >>> 8).toUInt8, packet.ptype.toUInt8,
      (packet.ptype >>> 8).toUInt8, packet.hlen, packet.plen, packet.oper.toUInt8,
      (packet.oper >>> 8).toUInt8, packet.sha[0], packet.sha[1], packet.sha[2], packet.sha[3],
      packet.sha[4], packet.sha[5], packet.spa.toUInt8, (packet.spa >>> 8).toUInt8,
      (packet.spa >>> 16).toUInt8, (packet.spa >>> 24).toUInt8, packet.tha[0], packet.tha[1],
      packet.tha[2], packet.tha[3], packet.tha[4], packet.tha[5], packet.tpa.toUInt8,
      (packet.tpa >>> 8).toUInt8, (packet.tpa >>> 16).toUInt8,
      (packet.tpa >>> 24).toUInt8] := by
  simp only [ArpPkt.bytes, MacAddr.toList_eq, le16, le32, List.cons_append, List.nil_append]

/-- The receiver reads the fields as they were built. -/
theorem arpFrame_call (arrival : Arrival) (st : NetState) (dst : MacAddr) (packet : ArpPkt) :
    let call := arrival.call (arpFrame st dst packet)
    call.oper = ntohs packet.oper ∧ call.senderMac = packet.sha ∧
      call.senderIp = ntohl packet.spa ∧ call.targetIp = ntohl packet.tpa := by
  intro call
  have byte {i : Nat} (lt : i < arpPktSize) :
      call.mem (call.pkt + i) = packet.bytes.get ⟨i, by simpa using lt⟩ := Arrival.call_mem lt
  have list := packet.bytes_eq
  refine ⟨?_, ?_, ?_, ?_⟩
  · rw [ArpCall.oper, byte (i := 6) (by decide), byte (i := 7) (by decide)]
    simp only [list, List.get_eq_getElem, List.getElem_cons_succ, List.getElem_cons_zero,
      ofLe16_le16]
  · rw [ArpCall.senderMac, byte (i := 8) (by decide), byte (i := 9) (by decide),
      byte (i := 10) (by decide), byte (i := 11) (by decide), byte (i := 12) (by decide),
      byte (i := 13) (by decide)]
    simp only [list, List.get_eq_getElem, List.getElem_cons_succ, List.getElem_cons_zero]
    ext i lt
    interval_cases i <;> rfl
  · rw [ArpCall.senderIp, byte (i := 14) (by decide), byte (i := 15) (by decide),
      byte (i := 16) (by decide), byte (i := 17) (by decide)]
    simp only [list, List.get_eq_getElem, List.getElem_cons_succ, List.getElem_cons_zero,
      ofLe32_le32]
  · rw [ArpCall.targetIp, byte (i := 24) (by decide), byte (i := 25) (by decide),
      byte (i := 26) (by decide), byte (i := 27) (by decide)]
    simp only [list, List.get_eq_getElem, List.getElem_cons_succ, List.getElem_cons_zero,
      ofLe32_le32]

/-! ## Request and reply -/

/-- An ARP frame teaches the receiver its sender, and is answered if it asks for the
receiver's address. -/
theorem Arrival.process_arp (arrival : Arrival) (peer st : NetState) (dst : MacAddr)
    (oper : UInt16) (tha : MacAddr) (tpa : IpAddr) :
    ∃ learned, learned.arpCache = arpCacheInsert peer.arpCache st.ip st.mac ∧
      learned.sent = peer.sent ∧ learned.iobase = peer.iobase ∧ learned.ip = peer.ip ∧
      learned.mac = peer.mac ∧
      arrival.process peer (arpFrame st dst (arpPacket st oper tha (htonl tpa))) =
        (if oper = arpOpReq ∧ tpa = peer.ip then
          (netSend learned (arpFrame learned st.mac
            (arpPacket learned arpOpReply st.mac (htonl st.ip)))).2
        else learned, none) := by
  obtain ⟨operEq, macEq, ipEq, targetEq⟩ :=
    arpFrame_call arrival st dst (arpPacket st oper tha (htonl tpa))
  refine ⟨{ peer with arpCache := arpCacheInsert peer.arpCache st.ip st.mac }, rfl, rfl, rfl,
    rfl, rfl, ?_⟩
  rw [Arrival.process_eq, ArpCall.exec_eq _ _ Arrival.call_long, operEq, macEq, ipEq, targetEq]
  simp only [arpPacket, ntohs_htons, ntohl_htonl]

/-- A card that works sends an ARP frame. -/
theorem netSend_arpFrame {st peer : NetState} (card : st.iobase ≠ 0) (dst : MacAddr)
    (packet : ArpPkt) :
    (netSend st (arpFrame peer dst packet)).2 =
      { st with sent := st.sent ++ [arpFrame peer dst packet], txCur := st.txCur + 1 } := by
  have size : (arpFrame peer dst packet).length = 42 := by
    rw [arpFrame, List.length_append, EthHdr.length_bytes, ArpPkt.length_bytes]
    rfl
  rw [netSend, if_neg]
  rw [size]
  intro held
  rcases held with zero | long
  · exact card zero
  · simp only [rtlTxBufSize] at long
    omega

/-- **ARP handshake.**  `a` asks for the address of `b`: one frame goes each way, both end
up with the other's MAC whatever their caches held, and any third instance that sees the
request learns `a` and sends nothing. -/
theorem arp_handshake {a b : NetState} (cardA : a.iobase ≠ 0) (cardB : b.iobase ≠ 0)
    (toB toA : Arrival) :
    ∃ request reply b' a',
      (arpSendRequest a b.ip).sent = a.sent ++ [request] ∧
      toB.process b request = (b', none) ∧ b'.sent = b.sent ++ [reply] ∧
      toA.process (arpSendRequest a b.ip) reply = (a', none) ∧
      a'.sent = (arpSendRequest a b.ip).sent ∧
      arpLookup b'.arpCache a.ip = some a.mac ∧ arpLookup a'.arpCache b.ip = some b.mac ∧
      ∀ (c : NetState) (toC : Arrival), c.ip ≠ b.ip →
        ∃ c', toC.process c request = (c', none) ∧ c'.sent = c.sent ∧
          arpLookup c'.arpCache a.ip = some a.mac := by
  have asked : arpSendRequest a b.ip = (netSend a (arpFrame a broadcastMac
      (arpPacket a arpOpReq #v[0, 0, 0, 0, 0, 0] (htonl b.ip)))).2 := rfl
  rw [netSend_arpFrame cardA] at asked
  obtain ⟨b₁, cacheB, sentB, iobaseB, ipB, macB, atB⟩ :=
    toB.process_arp b a broadcastMac arpOpReq #v[0, 0, 0, 0, 0, 0] b.ip
  rw [if_pos ⟨rfl, rfl⟩, netSend_arpFrame (by rwa [iobaseB])] at atB
  obtain ⟨a₂, cacheA, sentA, -, -, -, atA⟩ :=
    toA.process_arp (arpSendRequest a b.ip) b₁ a.mac arpOpReply a.mac a.ip
  rw [if_neg fun both => absurd both.1 (by decide)] at atA
  refine ⟨_, _, _, a₂, by rw [asked], atB, by rw [sentB], atA, sentA, ?_, ?_, ?_⟩
  · rw [cacheB]
    exact arpLookup_arpCacheInsert _ _ _
  · rw [cacheA, ipB, macB]
    exact arpLookup_arpCacheInsert _ _ _
  · intro c toC other
    obtain ⟨c₁, cacheC, sentC, -, -, -, atC⟩ :=
      toC.process_arp c a broadcastMac arpOpReq #v[0, 0, 0, 0, 0, 0] b.ip
    rw [if_neg fun both => other both.2.symm] at atC
    refine ⟨c₁, atC, sentC, ?_⟩
    rw [cacheC]
    exact arpLookup_arpCacheInsert _ _ _

/-- Two instances on one network that know nothing of each other. -/
theorem arp_handshake_pair :
    let a := netInit #v[0x52, 0x54, 0x00, 0x12, 0x34, 0x56] 0xC000
    let b : NetState := { netInit #v[0x52, 0x54, 0x00, 0x12, 0x34, 0x57] 0xC000 with
      ip := 0x0A000203 }
    ∃ (request reply : List UInt8) (b' a' : NetState),
      (arpSendRequest a b.ip).sent = [request] ∧
      b'.sent = [reply] ∧ a'.sent = [request] ∧
      arpLookup b'.arpCache a.ip = some a.mac ∧ arpLookup a'.arpCache b.ip = some b.mac := by
  intro a b
  let arrival : Arrival := ⟨fun _ => 0, [], by decide⟩
  obtain ⟨request, reply, b', a', asked, _, answered, _, quiet, learnedB, learnedA, _⟩ :=
    arp_handshake (a := a) (b := b) (by decide) (by decide) arrival arrival
  exact ⟨request, reply, b', a', asked, answered, quiet.trans asked, learnedB, learnedA⟩

end MOKernel
