import MOKernel.CString
import MOKernel.Checksum
import MOKernel.ReadTrace

/-!
# The network stack

`net.c` from Ethernet up.  Packed header structs are structures with their bytes
in memory order.  A receive handler gets an offset into the memory that starts at
the received frame and reads it through `Load`, so both what it computes and
which bytes it reads are part of the model.

Every handler ends in the call of the next one, so `ethProcess` and `ipHandle`
return the call they end in as a `NetCall`.  The only call a handler makes that
polls the NIC again is the `ip_send` at the end of `icmp_handle`; it is returned
as `IpSendArgs` for the caller to perform (`MOKernel/NetPoll.lean`).  `ipSend` and
`ipSendResume` are `ip_send` up to its next `net_poll`.
-/

namespace MOKernel

/-- `mac_addr_t`. -/
abbrev MacAddr := Vector UInt8 6

/-- `ip_addr_t`, in host order. -/
abbrev IpAddr := UInt32

def ethTypeIp : UInt16 := 0x0800
def ethTypeArp : UInt16 := 0x0806
def arpOpReq : UInt16 := 1
def arpOpReply : UInt16 := 2
def ipProtoIcmp : UInt8 := 1
def ipProtoUdp : UInt8 := 17
def icmpEchoRequest : UInt8 := 8
def icmpEchoReply : UInt8 := 0

def broadcastMac : MacAddr := #v[0xFF, 0xFF, 0xFF, 0xFF, 0xFF, 0xFF]
def broadcastIp : IpAddr := 0xFFFFFFFF

/-! ## Headers -/

structure EthHdr where
  dst : MacAddr
  src : MacAddr
  ethertype : UInt16

structure ArpPkt where
  htype : UInt16
  ptype : UInt16
  hlen : UInt8
  plen : UInt8
  oper : UInt16
  sha : MacAddr
  spa : UInt32
  tha : MacAddr
  tpa : UInt32

structure IpHdr where
  verIhl : UInt8
  dscpEcn : UInt8
  totalLen : UInt16
  id : UInt16
  flagsFrag : UInt16
  ttl : UInt8
  protocol : UInt8
  checksum : UInt16
  src : UInt32
  dst : UInt32

structure IcmpHdr where
  type : UInt8
  code : UInt8
  checksum : UInt16
  id : UInt16
  seq : UInt16

structure UdpHdr where
  srcPort : UInt16
  dstPort : UInt16
  length : UInt16
  checksum : UInt16

abbrev ethHdrSize : Nat := 14
abbrev arpPktSize : Nat := 28
abbrev ipHdrSize : Nat := 20
abbrev icmpHdrSize : Nat := 8
abbrev udpHdrSize : Nat := 8

def EthHdr.bytes (h : EthHdr) : List UInt8 := h.dst.toList ++ h.src.toList ++ le16 h.ethertype

def ArpPkt.bytes (h : ArpPkt) : List UInt8 :=
  le16 h.htype ++ le16 h.ptype ++ [h.hlen, h.plen] ++ le16 h.oper ++
    h.sha.toList ++ le32 h.spa ++ h.tha.toList ++ le32 h.tpa

def IpHdr.bytes (h : IpHdr) : List UInt8 :=
  [h.verIhl, h.dscpEcn] ++ le16 h.totalLen ++ le16 h.id ++ le16 h.flagsFrag ++
    [h.ttl, h.protocol] ++ le16 h.checksum ++ le32 h.src ++ le32 h.dst

def IcmpHdr.bytes (h : IcmpHdr) : List UInt8 :=
  [h.type, h.code] ++ le16 h.checksum ++ le16 h.id ++ le16 h.seq

def UdpHdr.bytes (h : UdpHdr) : List UInt8 :=
  le16 h.srcPort ++ le16 h.dstPort ++ le16 h.length ++ le16 h.checksum

/-! ## State -/

structure ArpEntry where
  ip : IpAddr
  mac : MacAddr
  valid : Bool

abbrev arpCacheSize : Nat := 8

abbrev ArpCache := Fin arpCacheSize → ArpEntry

abbrev rtlTxDescNum : Nat := 4
abbrev rtlTxBufSize : Nat := 1536

/-- The globals of `net.c`, the frames handed to the NIC so far and the console output.
`pktBuf` is the memory from `pkt_buf` on. -/
structure NetState where
  mac : MacAddr
  ip : IpAddr
  iobase : UInt16
  txCur : Fin rtlTxDescNum
  arpCache : ArpCache
  icmpEchoReceived : Bool
  icmpLastSeq : UInt16
  pktBuf : Nat → UInt8
  sent : List (List UInt8)
  out : List UInt8

/-- `net_ip` before anything changes it: 10.0.2.15. -/
def defaultIp : IpAddr := 0x0A00020F

/-- The globals after `net_init` on a card with this MAC address and I/O base. -/
def netInit (mac : MacAddr) (iobase : UInt16) : NetState :=
  { mac := mac
    ip := defaultIp
    iobase := iobase
    txCur := 0
    arpCache := fun _ => ⟨0, #v[0, 0, 0, 0, 0, 0], false⟩
    icmpEchoReceived := false
    icmpLastSeq := 0
    pktBuf := fun _ => 0
    sent := []
    out := [] }

/-- The memory from `pkt_buf` on after a received frame is copied to its start. -/
def overlay (buf : Nat → UInt8) (frame : List UInt8) : Nat → UInt8 :=
  fun i => frame.getD i (buf i)

/-! ## Transmission -/

/-- `net_send`; the frame's length is its `len` argument.  The wait for TOK changes
neither the outcome nor the state. -/
def netSend (st : NetState) (frame : List UInt8) : Int × NetState :=
  if st.iobase = 0 ∨ frame.length > rtlTxBufSize then (-1, st)
  else (0, { st with sent := st.sent ++ [frame], txCur := st.txCur + 1 })

theorem netSend_cases (st : NetState) (frame : List UInt8) :
    (netSend st frame).2 = st ∨
      (netSend st frame).2 =
        { st with sent := st.sent ++ [frame], txCur := st.txCur + 1 } := by
  rw [netSend]
  split
  · exact .inl rfl
  · exact .inr rfl

/-- Nothing differs but what sending and printing change. -/
def OutputOnly (st st' : NetState) : Prop :=
  ∃ txCur sent out, st' = { st with txCur := txCur, sent := sent, out := out }

section OutputOnly

variable {st st' : NetState}

theorem OutputOnly.refl (st : NetState) : OutputOnly st st := ⟨st.txCur, st.sent, st.out, rfl⟩

theorem OutputOnly.arpCache (only : OutputOnly st st') : st'.arpCache = st.arpCache := by
  obtain ⟨_, _, _, rfl⟩ := only
  rfl

theorem OutputOnly.ip (only : OutputOnly st st') : st'.ip = st.ip := by
  obtain ⟨_, _, _, rfl⟩ := only
  rfl

theorem OutputOnly.icmpEchoReceived (only : OutputOnly st st') :
    st'.icmpEchoReceived = st.icmpEchoReceived := by
  obtain ⟨_, _, _, rfl⟩ := only
  rfl

theorem netSend_outputOnly (st : NetState) (frame : List UInt8) :
    OutputOnly st (netSend st frame).2 := by
  rcases netSend_cases st frame with same | sent
  · rw [same]
    exact .refl st
  · exact ⟨_, _, _, sent⟩

end OutputOnly

@[simp] theorem netSend_arpCache (st : NetState) (frame : List UInt8) :
    (netSend st frame).2.arpCache = st.arpCache :=
  (netSend_outputOnly st frame).arpCache

@[simp] theorem netSend_ip (st : NetState) (frame : List UInt8) :
    (netSend st frame).2.ip = st.ip :=
  (netSend_outputOnly st frame).ip

def ethBuild (st : NetState) (dst : MacAddr) (ethertype : UInt16) : EthHdr :=
  { dst := dst, src := st.mac, ethertype := htons ethertype }

/-! ## ARP -/

def arpCacheInsert (cache : ArpCache) (ip : IpAddr) (mac : MacAddr) : ArpCache :=
  let slot := (Fin.find? fun i => !(cache i).valid || (cache i).ip == ip).getD 0
  Function.update cache slot ⟨ip, mac, true⟩

def arpLookup (cache : ArpCache) (ip : IpAddr) : Option MacAddr :=
  (Fin.find? fun i => (cache i).valid && (cache i).ip == ip).map fun i => (cache i).mac

/-- The packet both `arp_send_request` and `arp_handle` build. -/
def arpPacket (st : NetState) (oper : UInt16) (tha : MacAddr) (tpa : UInt32) : ArpPkt :=
  { htype := htons 1
    ptype := htons ethTypeIp
    hlen := 6
    plen := 4
    oper := htons oper
    sha := st.mac
    spa := htonl st.ip
    tha := tha
    tpa := tpa }

def arpSendRequest (st : NetState) (targetIp : IpAddr) : NetState :=
  (netSend st ((ethBuild st broadcastMac ethTypeArp).bytes ++
    (arpPacket st arpOpReq #v[0, 0, 0, 0, 0, 0] (htonl targetIp)).bytes)).2

def loadU16 (off : Nat) : Load Nat UInt8 UInt16 := do
  let a ← Load.cell off
  let b ← Load.cell (off + 1)
  pure (ofLe16 a b)

def loadU32 (off : Nat) : Load Nat UInt8 UInt32 := do
  let a ← Load.cell off
  let b ← Load.cell (off + 1)
  let c ← Load.cell (off + 2)
  let d ← Load.cell (off + 3)
  pure (ofLe32 a b c d)

def loadMac (off : Nat) : Load Nat UInt8 MacAddr := do
  let b0 ← Load.cell off
  let b1 ← Load.cell (off + 1)
  let b2 ← Load.cell (off + 2)
  let b3 ← Load.cell (off + 3)
  let b4 ← Load.cell (off + 4)
  let b5 ← Load.cell (off + 5)
  pure #v[b0, b1, b2, b3, b4, b5]

theorem loadU16_readsIn {mem : Nat → UInt8} {s : Set Nat} {off : Nat}
    (inside : Set.Ico off (off + 2) ⊆ s) :
    (loadU16 off).ReadsIn mem s := by
  simp only [loadU16, Load.readsIn_bind, Load.readsIn_cell, Load.readsIn_pure, and_true]
  exact ⟨inside ⟨by omega, by omega⟩, inside ⟨by omega, by omega⟩⟩

theorem loadU32_readsIn {mem : Nat → UInt8} {s : Set Nat} {off : Nat}
    (inside : Set.Ico off (off + 4) ⊆ s) :
    (loadU32 off).ReadsIn mem s := by
  simp only [loadU32, Load.readsIn_bind, Load.readsIn_cell, Load.readsIn_pure, and_true]
  exact ⟨inside ⟨by omega, by omega⟩, inside ⟨by omega, by omega⟩, inside ⟨by omega, by omega⟩,
    inside ⟨by omega, by omega⟩⟩

theorem loadMac_readsIn {mem : Nat → UInt8} {s : Set Nat} {off : Nat}
    (inside : Set.Ico off (off + 6) ⊆ s) :
    (loadMac off).ReadsIn mem s := by
  simp only [loadMac, Load.readsIn_bind, Load.readsIn_cell, Load.readsIn_pure, and_true]
  exact ⟨inside ⟨by omega, by omega⟩, inside ⟨by omega, by omega⟩, inside ⟨by omega, by omega⟩,
    inside ⟨by omega, by omega⟩, inside ⟨by omega, by omega⟩, inside ⟨by omega, by omega⟩⟩

def arpHandle (st : NetState) (pkt : Nat) (len : UInt16) : Load Nat UInt8 NetState :=
  if len.toNat < arpPktSize then pure st
  else do
    let spa ← loadU32 (pkt + 14)
    let sha ← loadMac (pkt + 8)
    let st := { st with arpCache := arpCacheInsert st.arpCache (ntohl spa) sha }
    let oper ← loadU16 (pkt + 6)
    if ntohs oper = arpOpReq then do
      let tpa ← loadU32 (pkt + 24)
      if ntohl tpa ≠ st.ip then pure st
      else
        pure (netSend st ((ethBuild st sha ethTypeArp).bytes ++
          (arpPacket st arpOpReply sha spa).bytes)).2
    else pure st

/-- `arp_handle` over what it reads: it learns the sender and answers a request for the own
address. -/
theorem run_arpHandle (st : NetState) (mem : Nat → UInt8) (pkt : Nat) (len : UInt16) :
    (arpHandle st pkt len).run mem =
      if len.toNat < arpPktSize then st
      else
        let spa := (loadU32 (pkt + 14)).run mem
        let sha := (loadMac (pkt + 8)).run mem
        let learned := { st with arpCache := arpCacheInsert st.arpCache (ntohl spa) sha }
        if ntohs ((loadU16 (pkt + 6)).run mem) = arpOpReq ∧
            ntohl ((loadU32 (pkt + 24)).run mem) = st.ip then
          (netSend learned ((ethBuild learned sha ethTypeArp).bytes ++
            (arpPacket learned arpOpReply sha spa).bytes)).2
        else learned := by
  rw [arpHandle, Load.run_ite]
  refine ite_congr rfl (fun _ => rfl) fun _ => ?_
  rw [Load.run_bind, Load.run_bind, Load.run_bind, Load.run_ite]
  split
  · rename_i request
    rw [Load.run_bind, Load.run_ite]
    split
    · rename_i other
      exact (if_neg fun both => other both.2).symm
    · rename_i own
      exact (if_pos ⟨request, not_not.mp own⟩).symm
  · rename_i reply
    exact (if_neg fun both => reply both.1).symm

/-! ## IP -/

/-- The arguments of a call of `ip_send`; the payload's length is `plen`. -/
structure IpSendArgs where
  dst : IpAddr
  proto : UInt8
  payload : List UInt8

/-- A call a receive handler ends in. -/
inductive NetCall
  | arp (pkt : Nat) (len : UInt16)
  | icmp (srcIp : IpAddr) (pkt : Nat) (len : UInt16)
  | udp (srcIp : IpAddr) (pkt : Nat) (len : UInt16)
deriving DecidableEq

def ipHandle (netIp : IpAddr) (pkt : Nat) (len : UInt16) : Load Nat UInt8 (Option NetCall) :=
  if len.toNat < ipHdrSize then pure none
  else do
    let verIhl ← Load.cell pkt
    let ihl : UInt8 := (verIhl &&& 0x0F) * 4
    if ihl < 20 then pure none
    else do
      let dst ← loadU32 (pkt + 16)
      if ntohl dst ≠ netIp then pure none
      else do
        let totalLen ← loadU16 (pkt + 2)
        let plen : UInt16 := ntohs totalLen - ihl.toUInt16
        let src ← loadU32 (pkt + 12)
        let protocol ← Load.cell (pkt + 9)
        if protocol = ipProtoIcmp then pure (some (.icmp (ntohl src) (pkt + ihl.toNat) plen))
        else if protocol = ipProtoUdp then pure (some (.udp (ntohl src) (pkt + ihl.toNat) plen))
        else pure none

def ethProcess (netIp : IpAddr) (frame : Nat) (len : UInt16) :
    Load Nat UInt8 (Option NetCall) :=
  if len.toNat < ethHdrSize then pure none
  else do
    let etype ← loadU16 (frame + 12)
    let payload := frame + ethHdrSize
    let plen := len - 14
    if ntohs etype = ethTypeArp then pure (some (.arp payload plen))
    else if ntohs etype = ethTypeIp then ipHandle netIp payload plen
    else pure none

/-- The IP header of an outgoing packet with its checksum field at `checksum`. -/
def ipHeader (st : NetState) (dstIp : IpAddr) (proto : UInt8) (total checksum : UInt16) : IpHdr :=
  { verIhl := 0x45
    dscpEcn := 0
    totalLen := htons total
    id := htons 1
    flagsFrag := 0
    ttl := 64
    protocol := proto
    checksum := checksum
    src := htonl st.ip
    dst := htonl dstIp }

/-- The 1500-byte `frame` array of `ip_send` after header and payload are stored at its
start; a payload that does not fit runs past the array. -/
def ipFrameBuffer (st : NetState) (dstMac : MacAddr) (args : IpSendArgs) : List UInt8 :=
  let total := UInt16.ofNat (ipHdrSize + args.payload.length)
  let zeroed := ipHeader st args.dst args.proto total 0
  let header := ipHeader st args.dst args.proto total (ipChecksum zeroed.bytes)
  let stored := (ethBuild st dstMac ethTypeIp).bytes ++ header.bytes ++ args.payload
  stored ++ (List.replicate 1500 0).drop stored.length

/-- The part of `ip_send` after the destination is resolved. -/
def ipTransmit (st : NetState) (dstMac : MacAddr) (args : IpSendArgs) : Int × NetState :=
  let total := UInt16.ofNat (ipHdrSize + args.payload.length)
  let frameSize := UInt16.ofNat (ethHdrSize + total.toNat)
  netSend st ((ipFrameBuffer st dstMac args).take frameSize.toNat)

/-! ## Console output -/

/-- The digits `kprint_dec` stores, least significant first. -/
def decDigits (v : UInt32) : List UInt8 :=
  if _more : v ≠ 0 then (48 + v % 10).toUInt8 :: decDigits (v / 10) else []
termination_by v.toNat
decreasing_by
  have nonzero : v.toNat ≠ 0 := fun zero => _more (UInt32.toNat_inj.mp zero)
  simp only [UInt32.toNat_div, UInt32.reduceToNat]
  omega

def kprintDec (v : UInt32) : List UInt8 := if v = 0 then ascii "0" else (decDigits v).reverse

def kprintIp (ip : IpAddr) : List UInt8 :=
  kprintDec ((ip >>> 24) &&& 0xFF) ++ ascii "." ++ kprintDec ((ip >>> 16) &&& 0xFF) ++ ascii "." ++
    kprintDec ((ip >>> 8) &&& 0xFF) ++ ascii "." ++ kprintDec (ip &&& 0xFF)

/-! ## `ip_send` -/

/-- An activation of `ip_send` inside its ARP wait: it has called `net_poll` and `left` is
its loop counter. -/
structure IpWait where
  args : IpSendArgs
  left : Nat

/-- How a stretch of `ip_send` ends: with its return value or in a `net_poll`. -/
inductive IpSendStatus
  | returned (ret : Int)
  | polling (wait : IpWait)

/-- `ip_send` from its entry to its return or its first `net_poll`. -/
def ipSend (st : NetState) (args : IpSendArgs) : IpSendStatus × NetState :=
  if args.dst = broadcastIp then
    let done := ipTransmit st broadcastMac args
    (.returned done.1, done.2)
  else
    match arpLookup st.arpCache args.dst with
    | some dstMac =>
      let done := ipTransmit st dstMac args
      (.returned done.1, done.2)
    | none => (.polling ⟨args, 499999⟩, arpSendRequest st args.dst)

/-- `ip_send` from the return of a `net_poll` to its return or its next `net_poll`. -/
def ipSendResume (st : NetState) (wait : IpWait) : IpSendStatus × NetState :=
  match arpLookup st.arpCache wait.args.dst with
  | some dstMac =>
    let done := ipTransmit st dstMac wait.args
    (.returned done.1, done.2)
  | none =>
    match wait.left with
    | 0 =>
      (.returned (-1), { st with
        out := st.out ++ ascii "[NET] ARP failed for " ++ kprintIp wait.args.dst ++ ascii "\n" })
    | left + 1 => (.polling { wait with left := left }, st)

theorem ipSend_outputOnly (st : NetState) (args : IpSendArgs) :
    OutputOnly st (ipSend st args).2 := by
  unfold ipSend
  split
  · exact netSend_outputOnly _ _
  split
  · exact netSend_outputOnly _ _
  · exact netSend_outputOnly _ _

theorem ipSendResume_outputOnly (st : NetState) (wait : IpWait) :
    OutputOnly st (ipSendResume st wait).2 := by
  unfold ipSendResume
  split
  · exact netSend_outputOnly _ _
  split
  · exact ⟨st.txCur, st.sent, _, rfl⟩
  · exact .refl st

/-! ## ICMP and UDP -/

/-- Store a 16-bit field into a buffer. -/
def storeU16 (buf : List UInt8) (off : Nat) (w : UInt16) : List UInt8 :=
  (buf.set off w.toUInt8).set (off + 1) (w >>> 8).toUInt8

/-- The reply `icmp_handle` builds from a copy of the request. -/
def icmpReply (request : List UInt8) : List UInt8 :=
  let zeroed := storeU16 (request.set 0 icmpEchoReply) 2 0
  storeU16 zeroed 2 (ipChecksum zeroed)

def icmpHandle (st : NetState) (srcIp : IpAddr) (pkt : Nat) (len : UInt16) :
    Load Nat UInt8 (NetState × Option IpSendArgs) :=
  if len.toNat < icmpHdrSize then pure (st, none)
  else do
    let type ← Load.cell pkt
    if type = icmpEchoRequest then do
      let len := if len > 64 then 64 else len
      let reply ← Load.block pkt len.toNat
      pure (st, some ⟨srcIp, ipProtoIcmp, icmpReply reply⟩)
    else if type = icmpEchoReply then do
      let seq ← loadU16 (pkt + 6)
      pure ({ st with icmpEchoReceived := true, icmpLastSeq := ntohs seq }, none)
    else pure (st, none)

/-- `icmp_handle` over what it reads. -/
theorem run_icmpHandle (st : NetState) (mem : Nat → UInt8) (srcIp : IpAddr) (pkt : Nat)
    (len : UInt16) :
    (icmpHandle st srcIp pkt len).run mem =
      if len.toNat < icmpHdrSize then (st, none)
      else if mem pkt = icmpEchoRequest then
        (st, some ⟨srcIp, ipProtoIcmp,
          icmpReply ((Load.block pkt (if len > 64 then 64 else len).toNat).run mem)⟩)
      else if mem pkt = icmpEchoReply then
        ({ st with
            icmpEchoReceived := true, icmpLastSeq := ntohs ((loadU16 (pkt + 6)).run mem) }, none)
      else (st, none) := by
  rw [icmpHandle, Load.run_ite]
  refine ite_congr rfl (fun _ => rfl) fun _ => ?_
  rw [Load.run_bind, Load.run_ite]
  refine ite_congr rfl (fun _ => by rw [Load.run_bind]; rfl) fun _ => ?_
  rw [Load.run_ite]
  exact ite_congr rfl (fun _ => rfl) fun _ => rfl

/-- `udp_handle` checks the length and drops the datagram. -/
def udpHandle (st : NetState) (_srcIp : IpAddr) (_pkt : Nat) (_len : UInt16) :
    Load Nat UInt8 NetState := pure st

/-- The payload of `icmp_send_echo`. -/
def icmpEchoPayload (seq : UInt16) : List UInt8 :=
  let header (checksum : UInt16) : IcmpHdr :=
    { type := icmpEchoRequest, code := 0, checksum := checksum, id := htons 0x4D4F,
      seq := htons seq }
  let zeroed := (header 0).bytes ++ List.replicate 8 0
  (header (ipChecksum zeroed)).bytes ++ List.replicate 8 0

def icmpSendEcho (st : NetState) (dstIp : IpAddr) (seq : UInt16) : IpSendStatus × NetState :=
  ipSend st ⟨dstIp, ipProtoIcmp, icmpEchoPayload seq⟩

/-- The datagram `udp_send` builds. -/
def udpDatagram (srcPort dstPort : UInt16) (data : List UInt8) : List UInt8 :=
  let header : UdpHdr :=
    { srcPort := htons srcPort
      dstPort := htons dstPort
      length := htons (UInt16.ofNat (udpHdrSize + data.length))
      checksum := 0 }
  header.bytes ++ data

/-- `udp_send`; the data's length is its `dlen` argument. -/
def udpSend (st : NetState) (dstIp : IpAddr) (srcPort dstPort : UInt16) (data : List UInt8) :
    IpSendStatus × NetState :=
  if data.length > 512 then (.returned (-1), st)
  else ipSend st ⟨dstIp, ipProtoUdp, udpDatagram srcPort dstPort data⟩

/-! ## A received frame -/

/-- Run the handler a frame was dispatched to. -/
def NetCall.exec (st : NetState) : NetCall → Load Nat UInt8 (NetState × Option IpSendArgs)
  | .arp pkt len => do
    let st ← arpHandle st pkt len
    pure (st, none)
  | .icmp srcIp pkt len => icmpHandle st srcIp pkt len
  | .udp srcIp pkt len => do
    let st ← udpHandle st srcIp pkt len
    pure (st, none)

/-- `eth_process` and everything it calls, up to a final `ip_send`. -/
def ethReceive (st : NetState) (len : UInt16) : Load Nat UInt8 (NetState × Option IpSendArgs) := do
  match ← ethProcess st.ip 0 len with
  | none => pure (st, none)
  | some call => call.exec st

end MOKernel
