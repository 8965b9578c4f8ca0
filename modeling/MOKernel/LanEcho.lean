import MOKernel.Lan

/-!
# An echo gets through

From any state of the network, an echo request of a host that waits for nothing can be
answered: there is a run in which only the two hosts move, whatever their caches hold and
whatever the other host is waiting for, that ends with the number of the request noted and
both hosts' waits as they were (`lan_echo_completes`).  Either direction may have to
resolve the other's address first (`lan_transmits`).
-/

namespace MOKernel

/-- The same address on the same card. -/
structure SameCard (st st' : NetState) : Prop where
  ip : st'.ip = st.ip
  iobase : st'.iobase = st.iobase

theorem SameCard.refl (st : NetState) : SameCard st st := ⟨rfl, rfl⟩

theorem SameCard.trans {st st' st'' : NetState} (first : SameCard st st')
    (second : SameCard st' st'') : SameCard st st'' :=
  ⟨second.ip.trans first.ip, second.iobase.trans first.iobase⟩

theorem OutputOnly.sameCard {st st' : NetState} (only : OutputOnly st st') : SameCard st st' := by
  obtain ⟨_, _, _, rfl⟩ := only
  exact ⟨rfl, rfl⟩

/-! ## Taking a frame -/

section Taking

variable {s : PollState} {f : RxFrame} {st peer : NetState}

/-- A poll that finds a frame that makes the host send nothing by `ip_send`. -/
theorem pollFrame_silent
    (ran : (ethReceive { s.net with pktBuf := overlay s.net.pktBuf f.bytes } f.len).run
      (overlay s.net.pktBuf f.bytes) = (st, none)) : pollFrame s f = ⟨st, s.waits⟩ := by
  unfold pollFrame
  dsimp only
  rw [ran]

/-- A poll that finds a frame that makes the host call `ip_send`. -/
theorem pollFrame_answers {args : IpSendArgs}
    (ran : (ethReceive { s.net with pktBuf := overlay s.net.pktBuf f.bytes } f.len).run
      (overlay s.net.pktBuf f.bytes) = (st, some args)) :
    pollFrame s f = .resume s.waits (ipSend st args) := by
  unfold pollFrame
  dsimp only
  rw [ran]

theorem exists_arpRx (st : NetState) (dst : MacAddr) (packet : ArpPkt) :
    ∃ f : RxFrame, f.bytes = arpFrame st dst packet := by
  have length : (arpFrame st dst packet).length = ethHdrSize + arpPktSize := by
    rw [arpFrame, List.length_append, EthHdr.length_bytes, ArpPkt.length_bytes]
  exact ⟨⟨arpFrame st dst packet, by rw [length]; decide, by rw [length]; decide⟩, rfl⟩

theorem exists_ipRx (st : NetState) (dstMac : MacAddr) {args : IpSendArgs}
    (short : args.payload.length ≤ 1480) : ∃ f : RxFrame, f.bytes = ipFrame st dstMac args := by
  have length : (ipFrame st dstMac args).length = 34 + args.payload.length := length_ipFrame
  exact ⟨⟨ipFrame st dstMac args, by omega, by omega⟩, rfl⟩

/-- A poll that finds an ARP frame leaves the waits alone. -/
theorem pollFrame_arp (s : PollState) {dst tha : MacAddr} {oper : UInt16} {tpa : IpAddr}
    (bytes : f.bytes = arpFrame peer dst (arpPacket peer oper tha (htonl tpa))) :
    ∃ learned, learned.arpCache = arpCacheInsert s.net.arpCache peer.ip peer.mac ∧
      SameCard s.net learned ∧
      pollFrame s f = ⟨if oper = arpOpReq ∧ tpa = s.net.ip then
          (netSend learned (arpFrame learned peer.mac
            (arpPacket learned arpOpReply peer.mac (htonl peer.ip)))).2
        else learned, s.waits⟩ := by
  let arrival : Arrival := ⟨s.net.pktBuf, [], by decide⟩
  let received : NetState := { s.net with pktBuf := overlay s.net.pktBuf f.bytes }
  obtain ⟨learned, cache, -, iobase, ip, -, processed⟩ :=
    arrival.process_arp received peer dst oper tha tpa
  refine ⟨learned, cache, ⟨ip, iobase⟩, pollFrame_silent ?_⟩
  unfold Arrival.process at processed
  rw [← bytes, List.append_nil] at processed
  exact processed

/-- What `icmp_handle` of a host is called with for a packet to its address. -/
theorem ethReceive_icmp (st : NetState) {dstMac : MacAddr} {args : IpSendArgs}
    (proto : args.proto = ipProtoIcmp) (dst : args.dst = st.ip)
    (short : 34 + args.payload.length < 65536)
    (bytes : f.bytes = ipFrame peer dstMac args) (buf : Nat → UInt8) :
    ∃ pkt len, (Load.block pkt len.toNat).run (overlay buf f.bytes) = args.payload ∧
      (ethReceive st f.len).run (overlay buf f.bytes) =
        (icmpHandle st peer.ip pkt len).run (overlay buf f.bytes) := by
  have delivered : DeliveredAs args.dst (ipFrame peer dstMac args) args.payload (.icmp peer.ip) :=
    ipFrame_delivered short (.inl ⟨proto, rfl⟩)
  obtain ⟨pkt, len, ran, slice⟩ :=
    delivered buf [] f.len (by rw [List.append_nil, ← bytes, f.toNat_len])
  rw [List.append_nil, ← bytes] at ran slice
  refine ⟨pkt, len, slice, ?_⟩
  rw [dst] at ran
  rw [ethReceive, Load.run_bind, ran]
  rfl

/-- `icmp_handle` on a slice that holds this message. -/
theorem run_icmpHandle_slice {mem : Nat → UInt8} {src : IpAddr} {pkt : Nat}
    {len : UInt16} {message : List UInt8}
    (slice : (Load.block pkt len.toNat).run mem = message)
    (long : 8 ≤ message.length) (small : message.length ≤ 64) :
    (icmpHandle st src pkt len).run mem =
      if message.getD 0 0 = icmpEchoRequest then (st, some ⟨src, ipProtoIcmp, icmpReply message⟩)
      else if message.getD 0 0 = icmpEchoReply then
        ({ st with
            icmpEchoReceived := true
            icmpLastSeq := ntohs (ofLe16 (message.getD 6 0) (message.getD 7 0)) }, none)
      else (st, none) := by
  rw [Load.run_block] at slice
  have size : message.length = len.toNat := by
    rw [← slice, List.length_map, List.length_range]
  have byte (i : Nat) (lt : i < len.toNat) : message.getD i 0 = mem (pkt + i) := by
    rw [← slice, List.getD_eq_getElem _ _ (by simpa using lt), List.getElem_map, List.getElem_range]
  have whole : ¬ len > 64 := by
    rw [gt_iff_lt, UInt16.lt_iff_toNat_lt, ← size]
    exact Nat.not_lt.mpr small
  rw [run_icmpHandle, if_neg (Nat.not_lt.mpr (size ▸ long)), if_neg whole, Load.run_block, slice,
    byte 0 (by omega), byte 6 (by omega), byte 7 (by omega)]
  rfl

theorem icmpReply_getD {request : List UInt8} {i : Nat} (kept : 4 ≤ i) :
    (icmpReply request).getD i 0 = request.getD i 0 := by
  rw [List.getD_eq_getElem?_getD, icmpReply_getElem? (.inr kept), ← List.getD_eq_getElem?_getD]

variable {dstMac : MacAddr} {seq : UInt16}

/-- A poll that finds the echo request `seq` of `peer`. -/
theorem pollFrame_echoRequest
    (bytes : f.bytes = ipFrame peer dstMac ⟨s.net.ip, ipProtoIcmp, icmpEchoPayload seq⟩) :
    pollFrame s f = .resume s.waits (ipSend { s.net with pktBuf := overlay s.net.pktBuf f.bytes }
      ⟨peer.ip, ipProtoIcmp, icmpReply (icmpEchoPayload seq)⟩) := by
  refine pollFrame_answers ?_
  have size : (icmpEchoPayload seq).length = 16 := rfl
  obtain ⟨pkt, len, slice, ran⟩ := ethReceive_icmp
    { s.net with pktBuf := overlay s.net.pktBuf f.bytes } rfl rfl (by rw [size]; decide) bytes
    s.net.pktBuf
  rw [ran, run_icmpHandle_slice slice (by rw [size]; decide) (by rw [size]; decide)]
  exact if_pos rfl

/-- A poll that finds the reply to the echo request `seq`. -/
theorem pollFrame_echoReply
    (bytes : f.bytes = ipFrame peer dstMac
      ⟨s.net.ip, ipProtoIcmp, icmpReply (icmpEchoPayload seq)⟩) :
    ∃ net, pollFrame s f = ⟨net, s.waits⟩ ∧ net.icmpEchoReceived = true ∧
      net.icmpLastSeq = seq := by
  have size : (icmpReply (icmpEchoPayload seq)).length = 16 := length_icmpReply _
  obtain ⟨pkt, len, slice, ran⟩ := ethReceive_icmp
    { s.net with pktBuf := overlay s.net.pktBuf f.bytes } rfl rfl (by rw [size]; decide) bytes
    s.net.pktBuf
  have type : (icmpReply (icmpEchoPayload seq)).getD 0 0 = icmpEchoReply := rfl
  rw [run_icmpHandle_slice slice (by rw [size]; decide) (by rw [size]; decide), type,
    if_neg (by decide), if_pos rfl] at ran
  refine ⟨_, pollFrame_silent ran, rfl, ?_⟩
  rw [icmpReply_getD (by decide), icmpReply_getD (by decide)]
  exact (congrArg ntohs (ofLe16_le16 _)).trans (ntohs_htons seq)

end Taking

/-! ## Getting a packet out -/

section Runs

variable {ι : Type} [DecidableEq ι] {s s' : ι → PollState} {x y : ι} {waits : List IpWait}
  {st : NetState} {args : IpSendArgs}

/-- Host `x` has transmitted the packet and is back in `waits`; only `x` and `y` have moved. -/
structure Transmitted (x y : ι) (s s' : ι → PollState) (waits : List IpWait) (args : IpSendArgs) :
    Prop where
  run : MediumRunOf (lan ι) {x, y} s s'
  waitsX : (s' x).waits = waits
  cardX : SameCard (s x).net (s' x).net
  waitsY : (s' y).waits = (s y).waits
  cardY : SameCard (s y).net (s' y).net
  frame : ∃ (sender : NetState) (dstMac : MacAddr), sender.ip = (s x).net.ip ∧
    ipFrame sender dstMac args ∈ (s' x).net.sent

/-- A working card transmits a packet at once. -/
theorem ipTransmit_sent (card : st.iobase ≠ 0) (fits : 34 + args.payload.length ≤ rtlTxBufSize)
    (dstMac : MacAddr) : (ipTransmit st dstMac args).2 =
      { st with sent := st.sent ++ [ipFrame st dstMac args], txCur := st.txCur + 1 } := by
  rw [ipTransmit_eq (fits.trans_lt (by decide)), netSend, if_neg]
  rw [length_ipFrame]
  intro held
  rcases held with zero | long
  · exact card zero
  · exact absurd fits (Nat.not_le.mpr long)

/-- A host that waits for the address of another has it after two frames. -/
theorem lan_resolves {wait : IpWait} {asked peer : NetState} (ne : x ≠ y)
    (waiting : s x = ⟨asked, wait :: waits⟩)
    (request : arpFrame peer broadcastMac
      (arpPacket peer arpOpReq #v[0, 0, 0, 0, 0, 0] (htonl wait.args.dst)) ∈ asked.sent)
    (dst : wait.args.dst = (s y).net.ip) (card : (s y).net.iobase ≠ 0) :
    ∃ s' net mac, MediumRunOf (lan ι) {x, y} s s' ∧ s' x = ⟨net, wait :: waits⟩ ∧
      SameCard asked net ∧ arpLookup net.arpCache wait.args.dst = some mac ∧
      (s' y).waits = (s y).waits ∧ SameCard (s y).net (s' y).net := by
  -- `y` takes the request and replies
  obtain ⟨f, bytes⟩ := exists_arpRx peer broadcastMac
    (arpPacket peer arpOpReq #v[0, 0, 0, 0, 0, 0] (htonl wait.args.dst))
  obtain ⟨learned, -, sameY, answered⟩ := pollFrame_arp (s y) bytes
  rw [if_pos ⟨rfl, dst⟩, netSend_arpFrame (by rw [sameY.iobase]; exact card)] at answered
  set s₁ := Function.update s y (pollFrame (s y) f) with s₁_eq
  have asks : MediumRunOf (lan ι) {x, y} s s₁ := by
    refine .take (j := x) ?_ ⟨f, [], by rw [List.append_nil, bytes], rfl⟩ (by simp)
    change _ ∈ (s x).net.sent
    rw [waiting]
    exact request
  have atX : s₁ x = ⟨asked, wait :: waits⟩ := by
    rw [s₁_eq, Function.update_of_ne ne, waiting]
  have atY : s₁ y = pollFrame (s y) f := Function.update_self ..
  -- `x` takes the reply
  obtain ⟨g, reply⟩ := exists_arpRx learned peer.mac
    (arpPacket learned arpOpReply peer.mac (htonl peer.ip))
  obtain ⟨taught, cache, sameX, heard⟩ := pollFrame_arp (s₁ x) reply
  rw [if_neg fun both => absurd both.1 (by decide), atX] at heard
  rw [atX] at sameX
  set s₂ := Function.update s₁ x (pollFrame (s₁ x) g) with s₂_eq
  have hears : MediumRunOf (lan ι) {x, y} s₁ s₂ := by
    refine .take (j := y) ?_ ⟨g, [], by rw [List.append_nil, reply], rfl⟩ (by simp)
    change _ ∈ (s₁ y).net.sent
    rw [atY, answered]
    exact List.mem_append_right _ (List.mem_singleton_self _)
  have keptY : s₂ y = s₁ y := Function.update_of_ne ne.symm ..
  refine ⟨s₂, taught, learned.mac, asks.trans hears, ?_, sameX, ?_, ?_, ?_⟩
  · rw [s₂_eq, Function.update_self, atX, heard]
  · rw [cache, sameY.ip, ← dst]
    exact arpLookup_arpCacheInsert _ _ _
  · rw [keptY, atY, answered]
  · rw [keptY, atY, answered]
    exact ⟨sameY.ip, sameY.iobase⟩

/-- The packet of a call of `ip_send` gets out, if need be after an exchange of ARP
packets with the host that has the address. -/
theorem lan_transmits (ne : x ≠ y) (called : s x = .resume waits (ipSend st args))
    (dst : args.dst = (s y).net.ip) (cardX : st.iobase ≠ 0) (cardY : (s y).net.iobase ≠ 0)
    (fits : 34 + args.payload.length ≤ rtlTxBufSize) :
    ∃ s', Transmitted x y s s' waits args := by
  have direct {dstMac : MacAddr}
      (sent : ipSend st args =
        (.returned (ipTransmit st dstMac args).1, (ipTransmit st dstMac args).2)) :
      Transmitted x y s s waits args := by
    rw [ipTransmit_sent cardX fits] at sent
    rw [sent] at called
    refine ⟨.refl, by rw [called]; rfl, .refl _, rfl, .refl _, st, dstMac, by rw [called]; rfl, ?_⟩
    rw [called]
    exact List.mem_append_right _ (List.mem_singleton_self _)
  by_cases broadcast : args.dst = broadcastIp
  · exact ⟨s, direct (by rw [ipSend, if_pos broadcast])⟩
  cases resolved : arpLookup st.arpCache args.dst with
  | some dstMac => exact ⟨s, direct (by rw [ipSend, if_neg broadcast, resolved])⟩
  | none =>
    set asked := arpSendRequest st args.dst with asked_eq
    have waiting : s x = ⟨asked, ⟨args, 499999⟩ :: waits⟩ := by
      rw [called, ipSend, if_neg broadcast, resolved]
      rfl
    have request : arpFrame st broadcastMac (arpPacket st arpOpReq #v[0, 0, 0, 0, 0, 0]
        (htonl args.dst)) ∈ asked.sent := by
      change _ ∈ (netSend st (arpFrame st broadcastMac _)).2.sent
      rw [netSend_arpFrame cardX]
      exact List.mem_append_right _ (List.mem_singleton_self _)
    obtain ⟨s₁, net, mac, exchange, atX, sameX, found, waitsY, sameY⟩ :=
      lan_resolves ne waiting request dst cardY
    have cardNet : net.iobase ≠ 0 := by
      rw [sameX.iobase, asked_eq, arpSendRequest, (netSend_outputOnly st _).sameCard.iobase]
      exact cardX
    have resumed : pollIdle (s₁ x) = ⟨(ipTransmit net mac args).2, waits⟩ := by
      rw [atX, pollIdle]
      dsimp only
      rw [ipSendResume, found]
      rfl
    set s₂ := Function.update s₁ x (pollIdle (s₁ x)) with s₂_eq
    have resumes : MediumRunOf (lan ι) {x, y} s₁ s₂ := .act .idle (by simp)
    have keptY : s₂ y = s₁ y := Function.update_of_ne ne.symm ..
    have doneX : s₂ x = ⟨(ipTransmit net mac args).2, waits⟩ := by
      rw [s₂_eq, Function.update_self, resumed]
    rw [ipTransmit_sent cardNet fits] at doneX
    refine ⟨s₂, exchange.trans resumes, by rw [doneX], ?_, by rw [keptY, waitsY], by rwa [keptY],
      net, mac, ?_, ?_⟩
    · rw [doneX, waiting]
      exact ⟨sameX.ip, sameX.iobase⟩
    · rw [waiting]
      exact sameX.ip
    · rw [doneX]
      exact List.mem_append_right _ (List.mem_singleton_self _)

/-- The packet of a call of `ip_send` is taken up by the host that has the address. -/
theorem lan_delivers (ne : x ≠ y) (called : s x = .resume waits (ipSend st args))
    (dst : args.dst = (s y).net.ip) (cardX : st.iobase ≠ 0) (cardY : (s y).net.iobase ≠ 0)
    (short : args.payload.length ≤ 1480) :
    ∃ (s' : ι → PollState) (b : PollState) (f : RxFrame) (sender : NetState) (dstMac : MacAddr),
      MediumRunOf (lan ι) {x, y} s s' ∧ (s' x).waits = waits ∧ SameCard (s x).net (s' x).net ∧
      s' y = pollFrame b f ∧ b.waits = (s y).waits ∧ SameCard (s y).net b.net ∧
      f.bytes = ipFrame sender dstMac args ∧ sender.ip = (s x).net.ip := by
  obtain ⟨s₁, out⟩ := lan_transmits ne called dst cardX cardY (by simp only [rtlTxBufSize]; omega)
  obtain ⟨sender, dstMac, senderIp, member⟩ := out.frame
  obtain ⟨f, bytes⟩ := exists_ipRx sender dstMac short
  have taken : LanTakes (ipFrame sender dstMac args) (s₁ y) (pollFrame (s₁ y) f) :=
    ⟨f, [], by rw [List.append_nil, bytes], rfl⟩
  have keptX : Function.update s₁ y (pollFrame (s₁ y) f) x = s₁ x := Function.update_of_ne ne ..
  exact ⟨_, s₁ y, f, sender, dstMac, out.run.trans (.take member taken (by simp)),
    by rw [keptX, out.waitsX], by rw [keptX]; exact out.cardX, Function.update_self ..,
    out.waitsY, out.cardY, bytes, senderIp⟩

/-- **An echo gets through.**  Host `i` runs the shell and sends an echo request to the
address of host `j`; both have a card.  From any state of the network a run in which only
these two move ends with this request noted as answered, nothing left to wait for at `i`,
and the waits of `j` as they were. -/
theorem lan_echo_completes {i j : ι} (ne : i ≠ j) (idle : (s i).waits = [])
    (cardI : (s i).net.iobase ≠ 0) (cardJ : (s j).net.iobase ≠ 0) (seq : UInt16) :
    let asked := Function.update s i (.resume []
      (icmpSendEcho { (s i).net with icmpEchoReceived := false } (s j).net.ip seq))
    MediumStep (lan ι) s asked ∧
      ∃ s', MediumRunOf (lan ι) {i, j} asked s' ∧ (s' i).waits = [] ∧
        (s' j).waits = (s j).waits ∧ (s' i).net.icmpEchoReceived = true ∧
        (s' i).net.icmpLastSeq = seq := by
  intro asked
  have first : MediumStep (lan ι) s asked := .act (.echo idle)
  have atI : asked i = _ := Function.update_self ..
  have atJ : asked j = s j := Function.update_of_ne ne.symm ..
  refine ⟨first, ?_⟩
  have length : (icmpEchoPayload seq).length = 16 := rfl
  rw [icmpSendEcho] at atI
  -- `j` takes up the request
  obtain ⟨s₁, b, f, sender, _, there, waitsI, sameI, atJ₁, waitsB, sameB, request, senderIp⟩ :=
    lan_delivers ne atI (by rw [atJ]) cardI (by rw [atJ]; exact cardJ)
      (by rw [length]; decide)
  have ipB : b.net.ip = (s j).net.ip := by rw [sameB.ip, atJ]
  rw [pollFrame_echoRequest (by rw [ipB]; exact request)] at atJ₁
  have cardB : b.net.iobase ≠ 0 := by
    rw [sameB.iobase, atJ]
    exact cardJ
  have cardI₁ : (s₁ i).net.iobase ≠ 0 := by
    rw [sameI.iobase, atI, PollState.resume_net, (ipSend_outputOnly _ _).sameCard.iobase]
    exact cardI
  -- `i` takes up the reply
  obtain ⟨s₂, c, g, replier, _, back, waitsJ, -, atI₂, waitsC, sameC, reply, -⟩ :=
    lan_delivers ne.symm atJ₁ (senderIp.trans sameI.ip.symm) cardB cardI₁
      (by rw [length_icmpReply, length]; decide)
  have ipC : c.net.ip = sender.ip := by rw [sameC.ip, sameI.ip, senderIp]
  obtain ⟨net, taken, received, last⟩ := pollFrame_echoReply (s := c) (by rw [ipC]; exact reply)
  rw [Set.pair_comm] at back
  refine ⟨s₂, there.trans back, ?_, ?_, ?_, ?_⟩
  · rw [atI₂, taken, waitsC, waitsI]
  · rw [waitsJ, waitsB, atJ]
  · rw [atI₂, taken]
    exact received
  · rw [atI₂, taken]
    exact last

end Runs

/-- Two hosts that know nothing of each other. -/
theorem lan_echo_completes_pair :
    let host : Fin 2 → LanHost := ![⟨0x0A00020F, #v[0x52, 0x54, 0x00, 0x12, 0x34, 0x56]⟩,
      ⟨0x0A000203, #v[0x52, 0x54, 0x00, 0x12, 0x34, 0x57]⟩]
    ∃ s, MediumRun (lan (Fin 2)) (lanBoot host fun _ => 0xC000) s ∧ (s 0).waits = [] ∧
      (s 1).waits = [] ∧ (s 0).net.icmpEchoReceived = true ∧ (s 0).net.icmpLastSeq = 3 := by
  intro host
  obtain ⟨asks, s, answered, waits₀, waits₁, received, last⟩ :=
    lan_echo_completes (s := lanBoot host fun _ => 0xC000) (i := 0) (j := 1) (by decide) rfl
      (by decide) (by decide) 3
  exact ⟨s, answered.run.head asks, waits₀, waits₁, received, last⟩

end MOKernel
