import MOKernel.NetFrame

/-!
# The frames of `ip_send`

`ipFrame` is the frame `ip_send` hands to `net_send` (`ipTransmit_eq`): Ethernet
header, IP header, payload.  Its fields are the ones a receiver decides on
(`ipFrame_*`), whatever memory or padding follows it, and both checksums the stack
fills in verify (`ipHeader_verifies`, `icmpReply_verifies`).
-/

namespace MOKernel

/-- The IP header of an outgoing frame, with its checksum. -/
def ipFrameHeader (st : NetState) (args : IpSendArgs) : IpHdr :=
  let total := UInt16.ofNat (ipHdrSize + args.payload.length)
  ipHeader st args.dst args.proto total
    (ipChecksum (ipHeader st args.dst args.proto total 0).bytes)

def ipFrame (st : NetState) (dstMac : MacAddr) (args : IpSendArgs) : List UInt8 :=
  (ethBuild st dstMac ethTypeIp).bytes ++ (ipFrameHeader st args).bytes ++ args.payload

variable {st : NetState} {dstMac : MacAddr} {args : IpSendArgs} {buf : Nat → UInt8}
  {pad : List UInt8}

@[simp] theorem EthHdr.length_bytes (h : EthHdr) : h.bytes.length = ethHdrSize := by
  simp [EthHdr.bytes]

@[simp] theorem IpHdr.length_bytes (h : IpHdr) : h.bytes.length = ipHdrSize := by
  simp [IpHdr.bytes]

theorem length_ipFrame : (ipFrame st dstMac args).length = 34 + args.payload.length := by
  simp only [ipFrame, List.length_append, EthHdr.length_bytes, IpHdr.length_bytes, ethHdrSize,
    ipHdrSize]

/-- What `ip_send` transmits, when the lengths fit their 16 bits. -/
theorem ipTransmit_eq (short : 34 + args.payload.length < 65536) :
    ipTransmit st dstMac args = netSend st (ipFrame st dstMac args) := by
  have total : (UInt16.ofNat (ipHdrSize + args.payload.length)).toNat =
      20 + args.payload.length := by
    rw [UInt16.toNat_ofNat']
    exact Nat.mod_eq_of_lt (by simp only [ipHdrSize]; omega)
  have size : (UInt16.ofNat (ethHdrSize + (20 + args.payload.length))).toNat =
      (ipFrame st dstMac args).length := by
    rw [UInt16.toNat_ofNat', length_ipFrame]
    simp only [ethHdrSize]
    omega
  simp only [ipTransmit, total, size]
  rw [show ipFrameBuffer st dstMac args = ipFrame st dstMac args ++
    (List.replicate 1500 0).drop (ipFrame st dstMac args).length from rfl, List.take_left]

/-! ## Fields -/

theorem overlay_append_right (buf : Nat → UInt8) (front back : List UInt8) (i : Nat) :
    overlay buf (front ++ back) (front.length + i) =
      overlay (fun j => buf (front.length + j)) back i := by
  simp [overlay, List.getD_eq_getElem?_getD, List.getElem?_append_right]

theorem overlay_of_lt {frame : List UInt8} {i : Nat} (lt : i < frame.length) :
    overlay buf frame i = frame[i] := by
  simp [overlay, lt]

theorem overlay_append_left {front back : List UInt8} {i : Nat} (lt : i < front.length) :
    overlay buf (front ++ back) i = front[i] := by
  rw [overlay_of_lt (by rw [List.length_append]; omega), List.getElem_append_left lt]

/-- The bytes of a frame after the two MAC addresses. -/
theorem ethBuild_tail (etype : UInt16) (rest : List UInt8) (i : Nat) :
    overlay buf ((ethBuild st dstMac etype).bytes ++ rest) (12 + i) =
      overlay (fun j => buf (12 + j)) (le16 (htons etype) ++ rest) i := by
  have macs : (dstMac.toList ++ st.mac.toList).length = 12 := by simp
  have split : (ethBuild st dstMac etype).bytes ++ rest =
      (dstMac.toList ++ st.mac.toList) ++ (le16 (htons etype) ++ rest) := by
    simp only [ethBuild, EthHdr.bytes, List.append_assoc]
  have shifted := overlay_append_right buf (dstMac.toList ++ st.mac.toList)
    (le16 (htons etype) ++ rest) i
  rwa [macs, ← split] at shifted

theorem frameEtype_ethBuild (etype : UInt16) (rest : List UInt8) :
    frameEtype (overlay buf ((ethBuild st dstMac etype).bytes ++ rest)) = etype := by
  rw [frameEtype, ethBuild_tail etype rest 0, ethBuild_tail etype rest 1]
  exact (congrArg ntohs (ofLe16_le16 _)).trans (ntohs_htons _)

theorem IpHdr.bytes_eq (h : IpHdr) :
    h.bytes = [h.verIhl, h.dscpEcn, h.totalLen.toUInt8, (h.totalLen >>> 8).toUInt8,
      h.id.toUInt8, (h.id >>> 8).toUInt8, h.flagsFrag.toUInt8, (h.flagsFrag >>> 8).toUInt8,
      h.ttl, h.protocol, h.checksum.toUInt8, (h.checksum >>> 8).toUInt8,
      h.src.toUInt8, (h.src >>> 8).toUInt8, (h.src >>> 16).toUInt8, (h.src >>> 24).toUInt8,
      h.dst.toUInt8, (h.dst >>> 8).toUInt8, (h.dst >>> 16).toUInt8, (h.dst >>> 24).toUInt8] := by
  simp only [IpHdr.bytes, le16, le32, List.cons_append, List.nil_append]

theorem ipFrame_append :
    ipFrame st dstMac args ++ pad = (ethBuild st dstMac ethTypeIp).bytes ++
      ((ipFrameHeader st args).bytes ++ (args.payload ++ pad)) := by
  simp only [ipFrame, List.append_assoc]

theorem ipFrame_etype : frameEtype (overlay buf (ipFrame st dstMac args ++ pad)) = ethTypeIp := by
  rw [ipFrame_append, frameEtype_ethBuild]

/-- The IP header follows the Ethernet header. -/
theorem ipFrame_headerByte (i : Nat) (lt : i < ipHdrSize) :
    overlay buf (ipFrame st dstMac args ++ pad) (14 + i) =
      (ipFrameHeader st args).bytes.getD i 0 := by
  have inside : i < (ipFrameHeader st args).bytes.length := by rwa [IpHdr.length_bytes]
  have shifted := overlay_append_right buf (ethBuild st dstMac ethTypeIp).bytes
    ((ipFrameHeader st args).bytes ++ (args.payload ++ pad)) i
  rw [EthHdr.length_bytes, overlay_append_left inside] at shifted
  rw [ipFrame_append, shifted, List.getD_eq_getElem _ _ inside]

theorem ipFrame_ihl : frameIhl (overlay buf (ipFrame st dstMac args ++ pad)) = 20 := by
  rw [frameIhl, ipFrame_headerByte 0 (by decide), IpHdr.bytes_eq]
  change ((0x45 : UInt8) &&& 0x0F) * 4 = 20
  decide

theorem ipFrame_totalLen :
    frameTotalLen (overlay buf (ipFrame st dstMac args ++ pad)) =
      UInt16.ofNat (ipHdrSize + args.payload.length) := by
  rw [frameTotalLen, ipFrame_headerByte 2 (by decide), ipFrame_headerByte 3 (by decide),
    IpHdr.bytes_eq]
  exact (congrArg ntohs (ofLe16_le16 _)).trans (ntohs_htons _)

theorem ipFrame_proto : frameProto (overlay buf (ipFrame st dstMac args ++ pad)) = args.proto := by
  rw [frameProto, ipFrame_headerByte 9 (by decide), IpHdr.bytes_eq]
  rfl

theorem ipFrame_src : frameSrc (overlay buf (ipFrame st dstMac args ++ pad)) = st.ip := by
  rw [frameSrc, ipFrame_headerByte 12 (by decide), ipFrame_headerByte 13 (by decide),
    ipFrame_headerByte 14 (by decide), ipFrame_headerByte 15 (by decide), IpHdr.bytes_eq]
  exact (congrArg ntohl (ofLe32_le32 _)).trans (ntohl_htonl _)

theorem ipFrame_dst : frameDst (overlay buf (ipFrame st dstMac args ++ pad)) = args.dst := by
  rw [frameDst, ipFrame_headerByte 16 (by decide), ipFrame_headerByte 17 (by decide),
    ipFrame_headerByte 18 (by decide), ipFrame_headerByte 19 (by decide), IpHdr.bytes_eq]
  exact (congrArg ntohl (ofLe32_le32 _)).trans (ntohl_htonl _)

/-- The payload follows the header. -/
theorem ipFrame_payload {i : Nat} (lt : i < args.payload.length) :
    overlay buf (ipFrame st dstMac args ++ pad) (34 + i) = args.payload[i] := by
  have front : ((ethBuild st dstMac ethTypeIp).bytes ++ (ipFrameHeader st args).bytes).length =
      34 := by simp only [List.length_append, EthHdr.length_bytes, IpHdr.length_bytes, ethHdrSize,
        ipHdrSize]
  have shifted := overlay_append_right buf
    ((ethBuild st dstMac ethTypeIp).bytes ++ (ipFrameHeader st args).bytes)
    (args.payload ++ pad) i
  rw [front, overlay_append_left lt] at shifted
  rw [ipFrame, List.append_assoc, shifted]

/-! ## Checksums -/

/-- The IP header of an outgoing frame verifies. -/
theorem ipHeader_verifies : ipChecksum (ipFrameHeader st args).bytes = 0 := by
  set total := UInt16.ofNat (ipHdrSize + args.payload.length) with totalEq
  set front := [0x45, 0] ++ le16 (htons total) ++ le16 (htons 1) ++ le16 0 ++
    [64, args.proto] with frontEq
  set back := le32 (htonl st.ip) ++ le32 (htonl args.dst) with backEq
  have bytes (sum : UInt16) : (ipHeader st args.dst args.proto total sum).bytes =
      front ++ le16 sum ++ back := by
    simp only [ipHeader, IpHdr.bytes, frontEq, backEq, List.append_assoc]
  have zeroed : (ipHeader st args.dst args.proto total 0).bytes = front ++ [0, 0] ++ back :=
    bytes 0
  rw [ipFrameHeader, ← totalEq, bytes, zeroed]
  exact checksum_verifies (by simp [frontEq]) (by simp [frontEq, backEq])

theorem ipFrame_header_verifies :
    ipChecksum (((ipFrame st dstMac args).drop ethHdrSize).take ipHdrSize) = 0 := by
  rw [ipFrame, List.append_assoc, List.drop_left' (EthHdr.length_bytes _),
    List.take_left' (IpHdr.length_bytes _)]
  exact ipHeader_verifies

/-- The reply to a request of at least four bytes. -/
theorem icmpReply_cons (a b c d : UInt8) (rest : List UInt8) :
    icmpReply (a :: b :: c :: d :: rest) =
      icmpEchoReply :: b :: (le16 (ipChecksum (icmpEchoReply :: b :: 0 :: 0 :: rest)) ++ rest) :=
  rfl

theorem length_icmpReply (request : List UInt8) : (icmpReply request).length = request.length := by
  simp [icmpReply, storeU16]

theorem exists_cons4 {request : List UInt8} (long : 4 ≤ request.length) :
    ∃ a b c d rest, request = a :: b :: c :: d :: rest := by
  match request, long with
  | a :: b :: c :: d :: rest, _ => exact ⟨a, b, c, d, rest, rfl⟩

/-- The checksum of a reply verifies. -/
theorem icmpReply_verifies {request : List UInt8} (long : 4 ≤ request.length)
    (short : request.length < 65536) : ipChecksum (icmpReply request) = 0 := by
  obtain ⟨a, b, c, d, rest, rfl⟩ := exists_cons4 long
  rw [icmpReply_cons]
  have even : [icmpEchoReply, b].length % 2 = 0 := by simp
  have verified := @checksum_verifies [icmpEchoReply, b] rest even (by simpa using short)
  simpa only [List.cons_append, List.nil_append] using verified

/-- A reply keeps every byte but the type and the checksum. -/
theorem icmpReply_getElem? {request : List UInt8} {i : Nat} (kept : i = 1 ∨ 4 ≤ i) :
    (icmpReply request)[i]? = request[i]? := by
  rcases kept with rfl | high
  · simp [icmpReply, storeU16]
  · simp only [icmpReply, storeU16]
    rw [List.getElem?_set_ne (by omega), List.getElem?_set_ne (by omega),
      List.getElem?_set_ne (by omega), List.getElem?_set_ne (by omega),
      List.getElem?_set_ne (by omega)]

end MOKernel
