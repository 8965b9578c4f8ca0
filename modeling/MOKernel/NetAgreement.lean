import MOKernel.IpFrame

/-!
# Agreement of the sending and the receiving side

A frame that `udp_send` or `icmp_send_echo` hands to `net_send` for a resolved
address reaches the addressee's `udp_handle` or `icmp_handle` as one call, with
the sender's address and with exactly the bytes of the message, whatever padding
follows the frame (`send_received`).
-/

namespace MOKernel

/-- `eth_process` of `netIp` ends, on the frame with any padding, in one call on a slice
that holds the message. -/
def DeliveredAs (netIp : IpAddr) (frame message : List UInt8) (call : Nat → UInt16 → NetCall) :
    Prop :=
  ∀ (buf : Nat → UInt8) (pad : List UInt8) (len : UInt16), len.toNat = (frame ++ pad).length →
    ∃ pkt plen, (ethProcess netIp 0 len).run (overlay buf (frame ++ pad)) = some (call pkt plen) ∧
      (Load.block pkt plen.toNat).run (overlay buf (frame ++ pad)) = message

/-- The frame goes to `mac` and its IP header checksum verifies. -/
def AddressedTo (mac : MacAddr) (frame : List UInt8) : Prop :=
  frame.take 6 = mac.toList ∧ ipChecksum ((frame.drop ethHdrSize).take ipHdrSize) = 0

/-- `ip_send` returns what `net_send` returns on the frame. -/
def handOver (st : NetState) (frame : List UInt8) : IpSendStatus × NetState :=
  (.returned (netSend st frame).1, (netSend st frame).2)

variable {st : NetState} {mac : MacAddr} {args : IpSendArgs}

theorem addressedTo_ipFrame : AddressedTo mac (ipFrame st mac args) := by
  refine ⟨?_, ipFrame_header_verifies⟩
  have split : ipFrame st mac args = mac.toList ++
      (st.mac.toList ++ le16 (htons ethTypeIp) ++ (ipFrameHeader st args).bytes ++
        args.payload) := by
    simp only [ipFrame, ethBuild, EthHdr.bytes, List.append_assoc]
  rw [split, List.take_left' (by simp)]

/-- The slice a receiver derives from a frame of `ip_send`. -/
theorem ipFrame_slice {buf : Nat → UInt8} {pad : List UInt8}
    (short : 34 + args.payload.length < 65536) :
    slicePkt (overlay buf (ipFrame st mac args ++ pad)) = 34 ∧
      (sliceLen (overlay buf (ipFrame st mac args ++ pad))).toNat = args.payload.length := by
  have ihl : (frameIhl (overlay buf (ipFrame st mac args ++ pad))).toNat = 20 := by
    rw [ipFrame_ihl]
    rfl
  have total : (frameTotalLen (overlay buf (ipFrame st mac args ++ pad))).toNat =
      20 + args.payload.length := by
    rw [ipFrame_totalLen, UInt16.toNat_ofNat', Nat.mod_eq_of_lt (by simp only [ipHdrSize]; omega)]
  constructor
  · rw [slicePkt, ihl]
  · rw [toNat_sliceLen (by omega), ihl, total]
    omega

theorem ipFrame_passedOn {buf : Nat → UInt8} {pad : List UInt8} {len : UInt16}
    (proto : args.proto = ipProtoIcmp ∨ args.proto = ipProtoUdp)
    (size : len.toNat = (ipFrame st mac args ++ pad).length) :
    PassedOn (overlay buf (ipFrame st mac args ++ pad)) args.dst len.toNat := by
  rw [List.length_append, length_ipFrame] at size
  refine ⟨⟨by omega, ipFrame_etype, ipFrame_dst⟩, ?_, ?_⟩
  · rw [ipFrame_ihl]
    decide
  · rw [ipFrame_proto]
    exact proto

/-- A frame of `ip_send` is delivered with its payload. -/
theorem ipFrame_delivered (short : 34 + args.payload.length < 65536)
    {call : Nat → UInt16 → NetCall}
    (dispatch : (args.proto = ipProtoIcmp ∧ call = .icmp st.ip) ∨
      (args.proto = ipProtoUdp ∧ call = .udp st.ip)) :
    DeliveredAs args.dst (ipFrame st mac args) args.payload call := by
  intro buf pad len size
  have proto : args.proto = ipProtoIcmp ∨ args.proto = ipProtoUdp :=
    dispatch.imp And.left And.left
  set mem := overlay buf (ipFrame st mac args ++ pad) with mem_eq
  obtain ⟨pkt_eq, len_eq⟩ : slicePkt mem = 34 ∧ (sliceLen mem).toNat = args.payload.length :=
    ipFrame_slice short
  refine ⟨slicePkt mem, sliceLen mem, ?_, ?_⟩
  · rw [mem_eq, (ipFrame_passedOn proto size).run_ethProcess, passedCall, ipFrame_proto,
      ipFrame_src]
    rcases dispatch with ⟨icmp, rfl⟩ | ⟨udp, rfl⟩
    · rw [if_pos icmp]
    · rw [if_neg (by rw [udp]; decide)]
  · rw [Load.run_block, pkt_eq, len_eq]
    refine List.ext_getElem (by simp) fun i _ lt => ?_
    rw [List.getElem_map, List.getElem_range]
    exact ipFrame_payload lt

/-- `ip_send` to a resolved address. -/
theorem ipSend_resolved (resolved : arpLookup st.arpCache args.dst = some mac)
    (unicast : args.dst ≠ broadcastIp) (short : 34 + args.payload.length < 65536) :
    ipSend st args = handOver st (ipFrame st mac args) := by
  rw [ipSend, if_neg unicast, resolved]
  simp only [ipTransmit_eq short, handOver]

theorem length_udpDatagram (srcPort dstPort : UInt16) (data : List UInt8) :
    (udpDatagram srcPort dstPort data).length = 8 + data.length := by
  simp only [udpDatagram, UdpHdr.bytes, List.length_append, length_le16]

/-- A datagram in network order. -/
theorem udpDatagram_eq (srcPort dstPort : UInt16) (data : List UInt8) :
    udpDatagram srcPort dstPort data =
      be16 srcPort ++ be16 dstPort ++ be16 (UInt16.ofNat (8 + data.length)) ++ [0, 0] ++ data := by
  simp only [udpDatagram, UdpHdr.bytes, le16_htons]
  rfl

/-- What is handed to a card is transmitted if it fits the buffer. -/
theorem handOver_sent {frame : List UInt8} (fits : frame.length ≤ rtlTxBufSize)
    (card : st.iobase ≠ 0) : (handOver st frame).2.sent = st.sent ++ [frame] := by
  rw [handOver, netSend, if_neg]
  intro held
  rcases held with zero | long
  · exact card zero
  · exact absurd fits (Nat.not_le.mpr long)

/-- A call of `ip_send` to a resolved address hands one frame over. -/
theorem ipSend_handsOver (resolved : arpLookup st.arpCache args.dst = some mac)
    (unicast : args.dst ≠ broadcastIp) (fits : 34 + args.payload.length ≤ rtlTxBufSize) :
    ipSend st args = handOver st (ipFrame st mac args) ∧
      (st.iobase ≠ 0 →
        (handOver st (ipFrame st mac args)).2.sent = st.sent ++ [ipFrame st mac args]) ∧
      AddressedTo mac (ipFrame st mac args) := by
  have short : 34 + args.payload.length < 65536 := fits.trans_lt (by decide)
  refine ⟨ipSend_resolved resolved unicast short, handOver_sent ?_, addressedTo_ipFrame⟩
  rw [length_ipFrame]
  exact fits

/-- **Send/receive agreement.**  `a` resolves the address of `b`: what `a` hands to
`net_send` goes to the resolved MAC, verifies, and is delivered to `b` with the
sender's address and the message as built. -/
theorem send_received {a b : NetState} {mac : MacAddr}
    (resolved : arpLookup a.arpCache b.ip = some mac) (unicast : b.ip ≠ broadcastIp) :
    (∀ (srcPort dstPort : UInt16) (data : List UInt8), data.length ≤ 512 →
      ∃ frame, udpSend a b.ip srcPort dstPort data = handOver a frame ∧
        (a.iobase ≠ 0 → (handOver a frame).2.sent = a.sent ++ [frame]) ∧
        AddressedTo mac frame ∧
        DeliveredAs b.ip frame
          (be16 srcPort ++ be16 dstPort ++ be16 (UInt16.ofNat (8 + data.length)) ++ [0, 0] ++ data)
          (.udp a.ip)) ∧
    (∀ seq : UInt16,
      ∃ frame, icmpSendEcho a b.ip seq = handOver a frame ∧
        (a.iobase ≠ 0 → (handOver a frame).2.sent = a.sent ++ [frame]) ∧
        AddressedTo mac frame ∧
        DeliveredAs b.ip frame (icmpEchoPayload seq) (.icmp a.ip)) := by
  constructor
  · intro srcPort dstPort data small
    have fits : 34 + (udpDatagram srcPort dstPort data).length ≤ rtlTxBufSize := by
      rw [length_udpDatagram, rtlTxBufSize]
      omega
    set args : IpSendArgs := ⟨b.ip, ipProtoUdp, udpDatagram srcPort dstPort data⟩
    have resolved' : arpLookup a.arpCache args.dst = some mac := resolved
    obtain ⟨handed, sent, addressed⟩ := ipSend_handsOver resolved' unicast fits
    refine ⟨_, ?_, sent, addressed, ?_⟩
    · rw [udpSend, if_neg (Nat.not_lt.mpr small)]
      exact handed
    · rw [← udpDatagram_eq]
      exact ipFrame_delivered (fits.trans_lt (by decide)) (.inr ⟨rfl, rfl⟩)
  · intro seq
    have fits : 34 + (icmpEchoPayload seq).length ≤ rtlTxBufSize := by
      have length : (icmpEchoPayload seq).length = 16 := rfl
      rw [length]
      decide
    set args : IpSendArgs := ⟨b.ip, ipProtoIcmp, icmpEchoPayload seq⟩
    have resolved' : arpLookup a.arpCache args.dst = some mac := resolved
    obtain ⟨handed, sent, addressed⟩ := ipSend_handsOver resolved' unicast fits
    exact ⟨_, handed, sent, addressed,
      ipFrame_delivered (fits.trans_lt (by decide)) (.inl ⟨rfl, rfl⟩)⟩

/-- Two instances on one network, the first with the second in its cache. -/
theorem send_received_pair :
    let a : NetState := { netInit #v[0x52, 0x54, 0x00, 0x12, 0x34, 0x56] 0xC000 with
      arpCache := arpCacheInsert (netInit broadcastMac 0).arpCache 0x0A000203
        #v[0x52, 0x54, 0x00, 0x12, 0x34, 0x57] }
    let b : NetState := { netInit #v[0x52, 0x54, 0x00, 0x12, 0x34, 0x57] 0xC000 with
      ip := 0x0A000203 }
    ∃ frame, udpSend a b.ip 68 67 [1, 2, 3] = handOver a frame ∧
      (handOver a frame).2.sent = a.sent ++ [frame] ∧
      AddressedTo b.mac frame ∧
      DeliveredAs b.ip frame [0, 68, 0, 67, 0, 11, 0, 0, 1, 2, 3] (.udp a.ip) := by
  intro a b
  have resolved : arpLookup a.arpCache b.ip = some b.mac := by decide +kernel
  obtain ⟨udp, _⟩ := send_received resolved (by decide)
  obtain ⟨frame, handed, sent, addressed, delivered⟩ := udp 68 67 [1, 2, 3] (by decide)
  exact ⟨frame, handed, sent (by decide), addressed, delivered⟩

end MOKernel
