import MOKernel.ArpHandshake
import MOKernel.ArpWait
import MOKernel.Medium
import MOKernel.NetAgreement

/-!
# A network of instances

Any number of hosts that all run this stack on one medium.  A host polls without finding
a frame, sends a datagram or an echo request for the shell, or polls and finds a frame that
some host has transmitted, with any padding behind it.  Frames get lost, are duplicated and
arrive in any order.

Nothing forged is ever on the medium, so every ARP cache holds true bindings only, no
unicast packet is sent to the wrong card, and an IP packet that a host with a unicast
address takes up comes from the host it names as its source (`lan_safe`).
-/

namespace MOKernel

/-- What tells an instance from the others. -/
structure LanHost where
  ip : IpAddr
  mac : MacAddr

/-- A host after `net_init`, with nothing transmitted. -/
def LanHost.boot (h : LanHost) (iobase : UInt16) : PollState :=
  pollStart { netInit h.mac iobase with ip := h.ip }

/-- What a host does without a frame: the innermost poll returns, or the shell, when no
`ip_send` waits, sends a datagram or an echo request. -/
inductive LanActs (s : PollState) : PollState → Prop
  | idle : LanActs s (pollIdle s)
  | udp {dst : IpAddr} {srcPort dstPort : UInt16} {data : List UInt8} : s.waits = [] →
    LanActs s (.resume [] (udpSend s.net dst srcPort dstPort data))
  | echo {dst : IpAddr} {seq : UInt16} : s.waits = [] →
    LanActs s (.resume [] (icmpSendEcho { s.net with icmpEchoReceived := false } dst seq))

/-- A poll finds a transmitted frame with padding behind it. -/
def LanTakes (frame : List UInt8) (s s' : PollState) : Prop :=
  ∃ f : RxFrame, ∃ pad, f.bytes = frame ++ pad ∧ s' = pollFrame s f

/-- The hosts of a network. -/
def lan (ι : Type) : MediumParty ι PollState (List UInt8) where
  put s := {frame | frame ∈ s.net.sent}
  acts _ := LanActs
  takes _ := LanTakes

section Hosts

variable {ι : Type} (host : ι → LanHost)

/-- Some host has this address and this card. -/
def Bound (ip : IpAddr) (mac : MacAddr) : Prop := ∃ k, host k = ⟨ip, mac⟩

/-- A frame as host `j` builds it: an ARP packet that announces `j`, or an IP packet from
`j` to the card of its addressee. -/
inductive LanFrame (j : ι) : List UInt8 → Prop
  | arp {st : NetState} {dst : MacAddr} {oper : UInt16} {tha : MacAddr} {tpa : IpAddr} :
    st.ip = (host j).ip → st.mac = (host j).mac →
    LanFrame j (arpFrame st dst (arpPacket st oper tha (htonl tpa)))
  | ip {st : NetState} {dstMac : MacAddr} {args : IpSendArgs} :
    st.ip = (host j).ip → st.mac = (host j).mac →
    (args.dst ≠ broadcastIp → Bound host args.dst dstMac) →
    LanFrame j (ipFrame st dstMac args)

/-- The globals of host `i`: its own addresses, true bindings, frames of its own. -/
structure NetLocal (i : ι) (st : NetState) : Prop where
  ip : st.ip = (host i).ip
  mac : st.mac = (host i).mac
  cache : ∀ slot, (st.arpCache slot).valid = true →
    Bound host (st.arpCache slot).ip (st.arpCache slot).mac
  sent : ∀ frame ∈ st.sent, LanFrame host i frame

/-- The payloads that the stack builds: 8 bytes before at most 512, 16, or at most 64. -/
def ShortArgs (args : IpSendArgs) : Prop := args.payload.length ≤ 520

/-- A host in a run of the network. -/
structure LanLocal (i : ι) (s : PollState) : Prop where
  net : NetLocal host i s.net
  waits : ∀ wait ∈ s.waits, ShortArgs wait.args

end Hosts

/-! ## What one host does -/

section Local

variable {ι : Type} {host : ι → LanHost} {i j : ι} {st st' : NetState} {s : PollState}
  {args : IpSendArgs}

theorem NetLocal.send (here : NetLocal host i st) {frame : List UInt8}
    (own : LanFrame host i frame) : NetLocal host i (netSend st frame).2 := by
  rcases netSend_cases st frame with same | sent
  · rw [same]
    exact here
  · rw [sent]
    refine ⟨here.ip, here.mac, here.cache, fun f member => ?_⟩
    rcases List.mem_append.mp member with older | new
    · exact here.sent f older
    · rw [List.mem_singleton.mp new]
      exact own

/-- A lookup answers with a true binding. -/
theorem NetLocal.lookup (here : NetLocal host i st) {ip : IpAddr} {mac : MacAddr}
    (found : arpLookup st.arpCache ip = some mac) : Bound host ip mac := by
  unfold arpLookup at found
  obtain ⟨slot, first, rfl⟩ := Option.map_eq_some_iff.mp found
  have taken := (Fin.find?_eq_some_iff.mp first).1
  rw [Bool.and_eq_true, beq_iff_eq] at taken
  rw [← taken.2]
  exact here.cache slot taken.1

/-- Learning a true binding. -/
theorem NetLocal.learn (here : NetLocal host i st) {ip : IpAddr} {mac : MacAddr}
    (bound : Bound host ip mac) :
    NetLocal host i { st with arpCache := arpCacheInsert st.arpCache ip mac } := by
  refine ⟨here.ip, here.mac, fun slot valid => ?_, here.sent⟩
  unfold arpCacheInsert at valid ⊢
  dsimp only at valid ⊢
  generalize (Fin.find? fun i => !(st.arpCache i).valid || (st.arpCache i).ip == ip).getD 0 = chosen
    at valid ⊢
  rcases eq_or_ne slot chosen with rfl | ne
  · rw [Function.update_self]
    exact bound
  · rw [Function.update_of_ne ne] at valid ⊢
    exact here.cache slot valid

theorem NetLocal.transmit (here : NetLocal host i st) (short : ShortArgs args) {dstMac : MacAddr}
    (bound : args.dst ≠ broadcastIp → Bound host args.dst dstMac) :
    NetLocal host i (ipTransmit st dstMac args).2 := by
  unfold ShortArgs at short
  rw [ipTransmit_eq (by omega)]
  exact here.send (.ip here.ip here.mac bound)

/-- What is left to do after a stretch of `ip_send` keeps its arguments. -/
def StatusShort : IpSendStatus → Prop
  | .returned _ => True
  | .polling wait => ShortArgs wait.args

theorem NetLocal.ipSend (here : NetLocal host i st) (short : ShortArgs args) :
    NetLocal host i (ipSend st args).2 ∧ StatusShort (ipSend st args).1 := by
  unfold MOKernel.ipSend
  split
  · next broadcast =>
    exact ⟨here.transmit short fun unicast => absurd broadcast unicast, trivial⟩
  · split
    · next dstMac found => exact ⟨here.transmit short fun _ => here.lookup found, trivial⟩
    · exact ⟨here.send (.arp here.ip here.mac), short⟩

theorem NetLocal.ipSendResume (here : NetLocal host i st) {wait : IpWait}
    (short : ShortArgs wait.args) :
    NetLocal host i (ipSendResume st wait).2 ∧ StatusShort (ipSendResume st wait).1 := by
  unfold MOKernel.ipSendResume
  split
  · next dstMac found => exact ⟨here.transmit short fun _ => here.lookup found, trivial⟩
  · split
    · exact ⟨⟨here.ip, here.mac, here.cache, here.sent⟩, trivial⟩
    · exact ⟨here, short⟩

/-- Back in the poll that called. -/
theorem LanLocal.resume {waits : List IpWait} (outer : ∀ wait ∈ waits, ShortArgs wait.args)
    {outcome : IpSendStatus × NetState}
    (stretch : NetLocal host i outcome.2 ∧ StatusShort outcome.1) :
    LanLocal host i (.resume waits outcome) := by
  obtain ⟨status, st⟩ := outcome
  obtain ⟨here, short⟩ := stretch
  cases status with
  | returned _ => exact ⟨here, outer⟩
  | polling wait =>
    refine ⟨here, fun w member => ?_⟩
    rcases List.mem_cons.mp member with rfl | older
    · exact short
    · exact outer w older

/-- A call from outside the stack. -/
theorem LanLocal.call {outcome : IpSendStatus × NetState}
    (stretch : NetLocal host i outcome.2 ∧ StatusShort outcome.1) :
    LanLocal host i (.resume [] outcome) :=
  .resume (fun _ member => absurd member List.not_mem_nil) stretch

theorem LanLocal.pollIdle (here : LanLocal host i s) : LanLocal host i (pollIdle s) := by
  unfold MOKernel.pollIdle
  split
  · exact here
  · next wait waits pending =>
    have short (w : IpWait) (member : w ∈ wait :: waits) : ShortArgs w.args :=
      here.waits w (pending ▸ member)
    exact .resume (fun w member => short w (List.mem_cons_of_mem _ member))
      (here.net.ipSendResume (short wait List.mem_cons_self))

/-- What the shell sends is short. -/
theorem LanLocal.acts {s' : PollState} (acts : LanActs s s') (here : LanLocal host i s) :
    LanLocal host i s' := by
  cases acts with
  | idle => exact here.pollIdle
  | @udp dst srcPort dstPort data =>
    refine .call ?_
    unfold udpSend
    split
    · exact ⟨here.net, trivial⟩
    · next small =>
      refine here.net.ipSend ?_
      unfold ShortArgs
      rw [length_udpDatagram]
      omega
  | @echo dst seq =>
    have reset : NetLocal host i { s.net with icmpEchoReceived := false } :=
      ⟨here.net.ip, here.net.mac, here.net.cache, here.net.sent⟩
    exact .call (reset.ipSend (by decide : 16 ≤ 520))

/-- A packet that is not ARP leaves addresses, cache and medium alone, and at most makes
`icmp_handle` answer with 64 bytes. -/
theorem ethReceive_not_arp (st : NetState) {mem : Nat → UInt8}
    (other : frameEtype mem ≠ ethTypeArp) (len : UInt16) :
    ((ethReceive st len).run mem).1.ip = st.ip ∧ ((ethReceive st len).run mem).1.mac = st.mac ∧
      ((ethReceive st len).run mem).1.arpCache = st.arpCache ∧
      ((ethReceive st len).run mem).1.sent = st.sent ∧
      ∀ args ∈ ((ethReceive st len).run mem).2, ShortArgs args := by
  have silent : ∀ args ∈ (none : Option IpSendArgs), ShortArgs args :=
    fun args member => absurd member (Option.not_mem_none args)
  rw [ethReceive, Load.run_bind]
  cases ran : (ethProcess st.ip 0 len).run mem with
  | none => exact ⟨rfl, rfl, rfl, rfl, silent⟩
  | some call =>
    change _ ∧ _ ∧ _ ∧ _ ∧ ∀ args ∈ ((call.exec st).run mem).2, _
    rcases ethProcess_eq_some ran with ⟨long, rfl⟩ | ⟨passed, rfl⟩
    · rw [run_ethProcess, if_neg (Nat.not_lt.mpr long), if_neg other] at ran
      split at ran
      · next etype =>
        have arp := (ipHandle_eq_some long etype ran).2
        unfold passedCall at arp
        split at arp <;> cases arp
      · cases ran
    · by_cases icmp : frameProto mem = ipProtoIcmp
      · rw [passedCall, if_pos icmp]
        dsimp only [NetCall.exec]
        rw [run_icmpHandle]
        split
        · exact ⟨rfl, rfl, rfl, rfl, silent⟩
        split
        · refine ⟨rfl, rfl, rfl, rfl, fun args member => ?_⟩
          obtain rfl := Option.some.inj (Option.mem_def.mp member)
          unfold ShortArgs
          rw [length_icmpReply, Load.run_block, List.length_map, List.length_range]
          split
          · decide
          · next small =>
            have le := UInt16.le_iff_toNat_le.mp (UInt16.not_lt.mp small)
            exact le.trans (by decide)
        split
        · exact ⟨rfl, rfl, rfl, rfl, silent⟩
        · exact ⟨rfl, rfl, rfl, rfl, silent⟩
      · rw [passedCall, if_neg icmp]
        exact ⟨rfl, rfl, rfl, rfl, silent⟩

/-- `eth_process` on a frame that a host has transmitted. -/
theorem NetLocal.receive (here : NetLocal host i st) {frame pad : List UInt8}
    (genuine : LanFrame host j frame) (short : (frame ++ pad).length ≤ 1514) (buf : Nat → UInt8) :
    let ran := (ethReceive st (UInt16.ofNat (frame ++ pad).length)).run (overlay buf (frame ++ pad))
    NetLocal host i ran.1 ∧ ∀ args ∈ ran.2, ShortArgs args := by
  intro ran
  cases genuine with
  | @arp peer dst oper tha tpa ipJ macJ =>
    have fits : ethHdrSize + arpPktSize + pad.length ≤ 1518 := by
      rw [List.length_append, arpFrame, List.length_append, EthHdr.length_bytes,
        ArpPkt.length_bytes] at short
      omega
    obtain ⟨learned, cache, sent, -, ip, mac, processed⟩ :=
      Arrival.process_arp ⟨buf, pad, fits⟩ st peer dst oper tha tpa
    have true_binding : Bound host peer.ip peer.mac := ⟨j, by rw [ipJ, macJ]⟩
    have stored := here.learn true_binding
    have taught : NetLocal host i learned := by
      refine ⟨ip.trans here.ip, mac.trans here.mac, ?_, ?_⟩
      · rw [cache]
        exact stored.cache
      · rw [sent]
        exact here.sent
    have same : ran = _ := processed
    rw [same]
    refine ⟨?_, fun args member => absurd member (Option.not_mem_none args)⟩
    split
    · exact taught.send (.arp taught.ip taught.mac)
    · exact taught
  | @ip peer dstMac args ipJ macJ bound =>
    have other : frameEtype (overlay buf (ipFrame peer dstMac args ++ pad)) ≠ ethTypeArp := by
      rw [ipFrame_etype]
      decide
    obtain ⟨ip, mac, cache, sent, answers⟩ :=
      ethReceive_not_arp st other (UInt16.ofNat (ipFrame peer dstMac args ++ pad).length)
    refine ⟨⟨ip.trans here.ip, mac.trans here.mac, ?_, ?_⟩, answers⟩
    · rw [cache]
      exact here.cache
    · rw [sent]
      exact here.sent

/-- A poll that finds a frame that a host has transmitted. -/
theorem LanLocal.pollFrame (here : LanLocal host i s) {f : RxFrame} {frame pad : List UInt8}
    (genuine : LanFrame host j frame) (arrived : f.bytes = frame ++ pad) :
    LanLocal host i (pollFrame s f) := by
  have buffered : NetLocal host i { s.net with pktBuf := overlay s.net.pktBuf f.bytes } :=
    ⟨here.net.ip, here.net.mac, here.net.cache, here.net.sent⟩
  obtain ⟨kept, answers⟩ := buffered.receive genuine (arrived ▸ f.short) s.net.pktBuf
  rw [← arrived] at kept answers
  unfold MOKernel.pollFrame
  dsimp only
  split
  · next ran =>
    rw [RxFrame.len] at ran
    rw [ran] at kept
    exact ⟨kept, here.waits⟩
  · next ran =>
    rw [RxFrame.len] at ran
    rw [ran] at kept answers
    exact .resume here.waits (kept.ipSend (answers _ rfl))

end Local

/-! ## Runs -/

section Runs

variable {ι : Type} {host : ι → LanHost} {iobase : ι → UInt16}

/-- The hosts when they start. -/
def lanBoot (host : ι → LanHost) (iobase : ι → UInt16) (i : ι) : PollState :=
  (host i).boot (iobase i)

theorem lanLocal_boot (i : ι) : LanLocal host i (lanBoot host iobase i) where
  net := ⟨rfl, rfl, nofun, nofun⟩
  waits := nofun

/-- A packet that a host takes up names its sender and went to the card of the receiver. -/
theorem LanFrame.passedOn {i j : ι} {frame pad : List UInt8} {buf : Nat → UInt8} {len : UInt16}
    (genuine : LanFrame host j frame) (unicast : (host i).ip ≠ broadcastIp)
    (distinct : ∀ k l, (host k).ip = (host l).ip → k = l)
    (passed : PassedOn (overlay buf (frame ++ pad)) (host i).ip len.toNat) :
    frameSrc (overlay buf (frame ++ pad)) = (host j).ip ∧ AddressedTo (host i).mac frame := by
  obtain ⟨⟨-, etype, dst⟩, -, -⟩ := passed
  cases genuine with
  | arp =>
    rw [arpFrame, List.append_assoc, frameEtype_ethBuild] at etype
    exact absurd etype (by decide)
  | @ip st dstMac args ipJ _ bound =>
    rw [ipFrame_dst] at dst
    refine ⟨ipFrame_src.trans ipJ, ?_⟩
    obtain ⟨k, card⟩ := bound (dst ▸ unicast)
    have own : k = i := distinct k i (by rw [card, dst])
    have mac : (host i).mac = dstMac := by rw [← own, card]
    rw [mac]
    exact addressedTo_ipFrame

variable [DecidableEq ι] {s : ι → PollState}

theorem lanLocal_run (run : MediumRun (lan ι) (lanBoot host iobase) s) (i : ι) :
    LanLocal host i (s i) := by
  have puts (j : ι) (t : PollState) (here : LanLocal host j t) (frame : List UInt8)
      (member : frame ∈ (lan ι).put t) : LanFrame host j frame := here.net.sent frame member
  refine mediumInvariant run puts (fun _ _ _ acts here => here.acts acts) ?_ lanLocal_boot i
  rintro i j frame t _ ⟨f, pad, arrived, rfl⟩ genuine here
  exact here.pollFrame genuine arrived

/-- **Safety of the network.**  No two hosts share an address.  Then in every state of
every run a cache holds for a host's address that host's card and no other, and an IP packet
that `eth_process` of a host with a unicast address passes on of a transmitted frame comes
from the host that it names and had been sent to the receiver's own card. -/
theorem lan_safe (distinct : ∀ k l, (host k).ip = (host l).ip → k = l)
    (run : MediumRun (lan ι) (lanBoot host iobase) s) (i j : ι) :
    (∀ mac, arpLookup (s i).net.arpCache (host j).ip = some mac → mac = (host j).mac) ∧
      ∀ frame ∈ (s j).net.sent, ∀ (buf : Nat → UInt8) (pad : List UInt8)
        (len : UInt16) (call : NetCall),
        (ethProcess (s i).net.ip 0 len).run (overlay buf (frame ++ pad)) = some call →
        (s i).net.ip ≠ broadcastIp →
        call = .arp 14 (len - 14) ∨
          (∃ pkt plen, call = .icmp (host j).ip pkt plen ∨ call = .udp (host j).ip pkt plen) ∧
            AddressedTo (host i).mac frame := by
  have here := lanLocal_run run
  refine ⟨fun mac found => ?_, fun frame sent buf pad len call ran unicast => ?_⟩
  · obtain ⟨k, card⟩ := (here i).net.lookup found
    have own : k = j := distinct k j (by rw [card])
    rw [← own, card]
  · rw [(here i).net.ip] at ran unicast
    rcases ethProcess_eq_some ran with ⟨-, arp⟩ | ⟨passed, call_eq⟩
    · exact .inl arp
    · obtain ⟨src, addressed⟩ := ((here j).net.sent frame sent).passedOn unicast distinct passed
      refine .inr
        ⟨⟨slicePkt (overlay buf (frame ++ pad)), sliceLen (overlay buf (frame ++ pad)), ?_⟩,
        addressed⟩
      rw [call_eq, passedCall, src]
      split
      · exact .inl rfl
      · exact .inr rfl

end Runs

/-- Two hosts, one of which has asked for the other's address. -/
theorem lan_safe_pair :
    let host : Fin 2 → LanHost := ![⟨0x0A00020F, #v[0x52, 0x54, 0x00, 0x12, 0x34, 0x56]⟩,
      ⟨0x0A000203, #v[0x52, 0x54, 0x00, 0x12, 0x34, 0x57]⟩]
    ∃ s, MediumRun (lan (Fin 2)) (lanBoot host fun _ => 0xC000) s ∧
      arpLookup (s 1).net.arpCache (host 0).ip = some (host 0).mac ∧
      ∀ mac, arpLookup (s 1).net.arpCache (host 0).ip = some mac → mac = (host 0).mac := by
  intro host
  let boot := lanBoot host fun _ => 0xC000
  let frame := arpFrame (boot 0).net broadcastMac
    (arpPacket (boot 0).net arpOpReq #v[0, 0, 0, 0, 0, 0] (htonl 0x0A000203))
  let f : RxFrame := ⟨frame, by decide, by decide⟩
  let asked := Function.update boot 0 (.resume [] (udpSend (boot 0).net 0x0A000203 68 67 []))
  have asks : MediumStep (lan (Fin 2)) boot asked := .act (.udp rfl)
  have hears :
    MediumStep (lan (Fin 2)) asked (Function.update asked 1 (pollFrame (asked 1) f)) := by
    refine .take (j := 0) (m := frame) (List.mem_singleton_self _) ⟨f, [], ?_, rfl⟩
    exact (List.append_nil _).symm
  have run := (Relation.ReflTransGen.single asks).tail hears
  refine ⟨_, run, by decide +kernel, ?_⟩
  exact (lan_safe (by decide) run 1 0).1

end MOKernel
