import MOKernel.NetPoll

/-!
# The ping command

`net_cmd_ping` over the poll machine.  Its state is that of the poll it is in, the place
in its loops and the result lines printed.  A poll of the command's own `ip_send` and a
poll of its wait loop take the same frames; which of the two it is decides where the
command goes on.
-/

namespace MOKernel

abbrev pingCount : Nat := 4

/-- Where `net_cmd_ping` waits for a `net_poll`, with `rounds` rounds after this one. -/
inductive PingPhase
  | resolving (rounds : Nat) (wait : IpWait)
  | polling (rounds : Nat) (left : Nat)
  | done

/-- `reports` are the sequence numbers of the result lines, with whether a reply was
reported. -/
structure PingState where
  poll : PollState
  phase : PingPhase
  reports : List (UInt16 × Bool)

/-- `seq`, which counts up as the rounds do. -/
def pingSeq (rounds : Nat) : UInt16 := UInt16.ofNat (pingCount - rounds)

/-- `wait-- && !icmp_echo_received`: the counter in the next `net_poll`, if there is one. -/
def pingWait (st : NetState) (wait : Nat) : Option Nat :=
  if wait = 0 then none else if st.icmpEchoReceived then none else some (wait - 1)

/-- The result line. -/
def pingReport (st : NetState) (seq : UInt16) : NetState :=
  { st with
    out := st.out ++ ascii "  seq=" ++ kprintDec seq.toUInt32 ++
      if st.icmpEchoReceived then ascii " reply received\n" else ascii " request timeout\n" }

/-- The wait loop from the head of its `while`; `next` is the rest of the command. -/
def pingLoop (next : NetState → List (UInt16 × Bool) → PingState) (rounds : Nat) (st : NetState)
    (reports : List (UInt16 × Bool)) (wait : Nat) : PingState :=
  match pingWait st wait with
  | some left => ⟨⟨st, []⟩, .polling rounds left, reports⟩
  | none =>
    next (pingReport st (pingSeq rounds)) (reports ++ [(pingSeq rounds, st.icmpEchoReceived)])

/-- The rounds that remain, from the head of the `for`. -/
def pingRounds (target : IpAddr) : Nat → NetState → List (UInt16 × Bool) → PingState
  | 0, st, reports => ⟨⟨st, []⟩, .done, reports⟩
  | rounds + 1, st, reports =>
    match icmpSendEcho { st with icmpEchoReceived := false } target (pingSeq rounds) with
    | (.polling wait, st) => ⟨⟨st, []⟩, .resolving rounds wait, reports⟩
    | (.returned _, st) => pingLoop (pingRounds target rounds) rounds st reports 2000000

/-- `net_cmd_ping` up to its first `net_poll`, with nothing transmitted yet. -/
def pingStart (target : IpAddr) (st : NetState) : PingState :=
  pingRounds target pingCount
    { st with
      sent := []
      out := st.out ++ ascii "PING " ++ kprintIp target ++ ascii " with 4 packets:\n" } []

/-- The command's own `net_poll` has returned. -/
def pingResume (target : IpAddr) (s : PingState) : PingState :=
  match s.phase with
  | .resolving rounds wait =>
    match ipSendResume s.poll.net wait with
    | (.polling wait, st) => ⟨⟨st, []⟩, .resolving rounds wait, s.reports⟩
    | (.returned _, st) => pingLoop (pingRounds target rounds) rounds st s.reports 2000000
  | .polling rounds left => pingLoop (pingRounds target rounds) rounds s.poll.net s.reports left
  | .done => s

/-- What one return of `rtl_recv` leads to. -/
def pingStep (target : IpAddr) (s : PingState) (event : Option RxFrame) : PingState :=
  match s.phase, event, s.poll.waits with
  | .done, _, _ => s
  | _, none, [] => pingResume target s
  | _, event, _ => { s with poll := pollStep s.poll event }

def pingRun (target : IpAddr) (s : PingState) (events : List (Option RxFrame)) : PingState :=
  events.foldl (pingStep target) s

/-! ## Echo replies -/

structure EchoReplySeen where
  src : IpAddr
  id : UInt16
  seq : UInt16
deriving DecidableEq

/-- The echo reply a call of `icmp_handle` finds. -/
def NetCall.echoReply : NetCall → Load Nat UInt8 (Option EchoReplySeen)
  | .icmp srcIp pkt len =>
    if len.toNat < icmpHdrSize then pure none
    else do
      let type ← Load.cell pkt
      if type = icmpEchoReply then do
        let id ← loadU16 (pkt + 4)
        let seq ← loadU16 (pkt + 6)
        pure (some ⟨srcIp, ntohs id, ntohs seq⟩)
      else pure none
  | _ => pure none

def echoReplyLoad (netIp : IpAddr) (len : UInt16) : Load Nat UInt8 (Option EchoReplySeen) := do
  match ← ethProcess netIp 0 len with
  | none => pure none
  | some call => call.echoReply

/-- The echo reply that is processed with a frame. -/
def echoReplyIn (st : NetState) (f : RxFrame) : Option EchoReplySeen :=
  (echoReplyLoad st.ip f.len).run (overlay st.pktBuf f.bytes)

/-- A transmitted frame that is the echo request of the command. -/
structure IsPingRequest (target : IpAddr) (seq : UInt16) (frame : List UInt8) : Prop where
  etype : frameEtype (bytesOf frame) = ethTypeIp
  proto : frameProto (bytesOf frame) = ipProtoIcmp
  dst : frameDst (bytesOf frame) = target
  type : bytesOf frame (slicePkt (bytesOf frame)) = icmpEchoRequest
  id : ntohs (ofLe16 (bytesOf frame (slicePkt (bytesOf frame) + 4))
    (bytesOf frame (slicePkt (bytesOf frame) + 5))) = 0x4D4F
  seq : ntohs (ofLe16 (bytesOf frame (slicePkt (bytesOf frame) + 6))
    (bytesOf frame (slicePkt (bytesOf frame) + 7))) = seq

/-- The echo request `seq` has been transmitted. -/
def RequestSent (target : IpAddr) (seq : UInt16) (st : NetState) : Prop :=
  ∃ frame ∈ st.sent, IsPingRequest target seq frame

/-- The frame of `icmp_send_echo` is the request. -/
theorem isPingRequest_ipFrame (st : NetState) (dstMac : MacAddr) (target : IpAddr)
    (seq : UInt16) :
    IsPingRequest target seq (ipFrame st dstMac ⟨target, ipProtoIcmp, icmpEchoPayload seq⟩) := by
  set args : IpSendArgs := ⟨target, ipProtoIcmp, icmpEchoPayload seq⟩ with args_eq
  have size : args.payload.length = 16 := rfl
  have nil := bytesOf_eq_append (ipFrame st dstMac args)
  have start : slicePkt (bytesOf (ipFrame st dstMac args)) = 34 := by
    rw [slicePkt, nil, ipFrame_ihl]
    rfl
  have byte {i : Nat} (lt : i < args.payload.length) :
      bytesOf (ipFrame st dstMac args) (34 + i) = args.payload[i] := by
    rw [nil, ipFrame_payload lt]
  have field {i : Nat} {w : UInt16} (lt : i + 1 < args.payload.length)
      (lo : args.payload[i] = (htons w).toUInt8)
      (hi : args.payload[i + 1] = (htons w >>> 8).toUInt8) :
      ntohs (ofLe16 (bytesOf (ipFrame st dstMac args) (34 + i))
        (bytesOf (ipFrame st dstMac args) (34 + i + 1))) = w := by
    rw [byte (by omega), Nat.add_assoc, byte lt, lo, hi]
    exact (congrArg ntohs (ofLe16_le16 _)).trans (ntohs_htons _)
  refine ⟨by rw [nil, ipFrame_etype], by rw [nil, ipFrame_proto], by rw [nil, ipFrame_dst],
    ?_, ?_, ?_⟩
  · rw [start]
    exact byte (by omega : 0 < args.payload.length)
  · rw [start]
    exact field (by omega : 4 + 1 < args.payload.length) rfl rfl
  · rw [start]
    exact field (by omega : 6 + 1 < args.payload.length) rfl rfl

theorem requestSent_ipTransmit {st : NetState} (card : st.iobase ≠ 0) (dstMac : MacAddr)
    (target : IpAddr) (seq : UInt16) :
    RequestSent target seq
      (ipTransmit st dstMac ⟨target, ipProtoIcmp, icmpEchoPayload seq⟩).2 := by
  have size : (icmpEchoPayload seq).length = 16 := rfl
  have short : ¬ (ipFrame st dstMac ⟨target, ipProtoIcmp, icmpEchoPayload seq⟩).length >
      rtlTxBufSize := by
    rw [length_ipFrame, size]
    decide
  rw [ipTransmit_eq (by rw [size]; decide), netSend, if_neg (not_or.mpr ⟨card, short⟩)]
  exact ⟨_, List.mem_append_right _ (List.mem_singleton_self _), isPingRequest_ipFrame ..⟩

/-! ## The flag -/

@[simp] theorem netSend_icmpEchoReceived (st : NetState) (frame : List UInt8) :
    (netSend st frame).2.icmpEchoReceived = st.icmpEchoReceived :=
  (netSend_outputOnly st frame).icmpEchoReceived

@[simp] theorem ipSend_icmpEchoReceived (st : NetState) (args : IpSendArgs) :
    (ipSend st args).2.icmpEchoReceived = st.icmpEchoReceived :=
  (ipSend_outputOnly st args).icmpEchoReceived

@[simp] theorem ipSendResume_icmpEchoReceived (st : NetState) (wait : IpWait) :
    (ipSendResume st wait).2.icmpEchoReceived = st.icmpEchoReceived :=
  (ipSendResume_outputOnly st wait).icmpEchoReceived

theorem arpHandle_icmpEchoReceived (st : NetState) (mem : Nat → UInt8) (pkt : Nat) (len : UInt16) :
    ((arpHandle st pkt len).run mem).icmpEchoReceived = st.icmpEchoReceived := by
  rw [run_arpHandle]
  split
  · rfl
  · simp only
    split
    · exact netSend_icmpEchoReceived _ _
    · rfl

theorem icmpHandle_icmpEchoReceived (st : NetState) (mem : Nat → UInt8) (srcIp : IpAddr) (pkt : Nat)
    (len : UInt16) :
    ((icmpHandle st srcIp pkt len).run mem).1.icmpEchoReceived =
      (st.icmpEchoReceived || ((NetCall.icmp srcIp pkt len).echoReply.run mem).isSome) := by
  rw [run_icmpHandle, NetCall.echoReply]
  by_cases short : len.toNat < icmpHdrSize
  · rw [if_pos short, if_pos short]
    exact (Bool.or_false _).symm
  rw [if_neg short, if_neg short, Load.run_bind, Load.run_cell, Load.run_ite]
  by_cases reply : mem pkt = icmpEchoReply
  · have other : mem pkt ≠ icmpEchoRequest := by
      rw [reply]
      decide
    rw [if_neg other, if_pos reply, if_pos reply, Load.run_bind, Load.run_bind]
    exact (Bool.or_true _).symm
  · rw [if_neg reply, if_neg reply]
    split
    · exact (Bool.or_false _).symm
    · exact (Bool.or_false _).symm

/-- A received frame sets the flag exactly if an echo reply is processed with it. -/
theorem ethReceive_icmpEchoReceived (st : NetState) (mem : Nat → UInt8) (len : UInt16) :
    ((ethReceive st len).run mem).1.icmpEchoReceived =
      (st.icmpEchoReceived || ((echoReplyLoad st.ip len).run mem).isSome) := by
  rw [ethReceive, echoReplyLoad, Load.run_bind, Load.run_bind]
  cases (ethProcess st.ip 0 len).run mem with
  | none => exact (Bool.or_false _).symm
  | some call =>
    cases call with
    | arp pkt len =>
      have kept := arpHandle_icmpEchoReceived st mem pkt len
      simp only [NetCall.exec, Load.run_bind, Load.run_pure, kept]
      exact (Bool.or_false _).symm
    | icmp srcIp pkt len => exact icmpHandle_icmpEchoReceived st mem srcIp pkt len
    | udp srcIp pkt len => exact (Bool.or_false _).symm

theorem pollFrame_icmpEchoReceived (s : PollState) (f : RxFrame) :
    (pollFrame s f).net.icmpEchoReceived =
      (s.net.icmpEchoReceived || (echoReplyIn s.net f).isSome) := by
  have handled := ethReceive_icmpEchoReceived
    { s.net with pktBuf := overlay s.net.pktBuf f.bytes } (overlay s.net.pktBuf f.bytes) f.len
  unfold pollFrame
  rcases ran : (ethReceive { s.net with pktBuf := overlay s.net.pktBuf f.bytes } f.len).run
    (overlay s.net.pktBuf f.bytes) with ⟨st, _ | args⟩
  · simp only [ran] at handled ⊢
    exact handled
  · simp only [ran] at handled ⊢
    rw [PollState.resume_net, ipSend_icmpEchoReceived]
    exact handled

theorem pollIdle_icmpEchoReceived (s : PollState) :
    (pollIdle s).net.icmpEchoReceived = s.net.icmpEchoReceived := by
  unfold pollIdle
  split
  · rfl
  · rw [PollState.resume_net, ipSendResume_icmpEchoReceived]

/-! ## Steps -/

/-- The sequence number of the round, or the one after the last. -/
def PingPhase.seq : PingPhase → Nat
  | .resolving rounds _ => pingCount - rounds
  | .polling rounds _ => pingCount - rounds
  | .done => pingCount + 1

/-- Is an echo reply processed with this event? -/
def heardBy (st : NetState) (event : Option RxFrame) : Bool :=
  event.elim false fun f => (echoReplyIn st f).isSome

/-- A step of the command: it is over; it stays in its round and the flag takes note of the
reply, if there is one; or it reports the flag and the next round begins with the flag
clear, or it is over. -/
inductive PingOutcome (s : PingState) (event : Option RxFrame) : PingState → Prop
  | finished (done : s.phase = .done) : PingOutcome s event s
  | stays {s' : PingState} (active : s.phase ≠ .done) (active' : s'.phase ≠ .done)
    (seq : s'.phase.seq = s.phase.seq) (reports : s'.reports = s.reports)
    (flag : s'.poll.net.icmpEchoReceived =
      (s.poll.net.icmpEchoReceived || heardBy s.poll.net event)) : PingOutcome s event s'
  | reports {s' : PingState} (active : s.phase ≠ .done) (idle : event = none)
    (seq : s'.phase.seq = s.phase.seq + 1)
    (reports : s'.reports =
      s.reports ++ [(UInt16.ofNat s.phase.seq, s.poll.net.icmpEchoReceived)])
    (flag : s'.phase ≠ .done → s'.poll.net.icmpEchoReceived = false) : PingOutcome s event s'

/-- The next round begins. -/
theorem pingRounds_begins (target : IpAddr) (rounds : Nat) (st : NetState)
    (reports : List (UInt16 × Bool)) (few : rounds ≤ pingCount) :
    let s := pingRounds target rounds st reports
    s.phase.seq = pingCount + 1 - rounds ∧ s.reports = reports ∧
      (s.phase ≠ .done → s.poll.net.icmpEchoReceived = false) := by
  intro s
  cases rounds with
  | zero => exact ⟨rfl, rfl, fun active => absurd rfl active⟩
  | succ rounds =>
    have seq : pingCount - rounds = pingCount + 1 - (rounds + 1) := by omega
    have clear : (icmpSendEcho { st with icmpEchoReceived := false } target
        (pingSeq rounds)).2.icmpEchoReceived = false := ipSend_icmpEchoReceived _ _
    simp only [s, pingRounds]
    rcases begun : icmpSendEcho { st with icmpEchoReceived := false } target (pingSeq rounds) with
      ⟨ret | wait, st'⟩ <;> rw [begun] at clear
    · have polls : pingWait st' 2000000 = some 1999999 := by
        rw [pingWait, if_neg (by decide), if_neg (Bool.eq_false_iff.mp clear)]
      simp only [pingLoop, polls]
      exact ⟨seq, trivial, fun _ => clear⟩
    · exact ⟨seq, rfl, fun _ => clear⟩

/-- The wait loop polls again, or reports. -/
theorem pingLoop_outcome {s : PingState} {st : NetState} {rounds : Nat} (target : IpAddr)
    (wait : Nat) (active : s.phase ≠ .done) (few : rounds < pingCount)
    (seq : s.phase.seq = pingCount - rounds)
    (flag : st.icmpEchoReceived = s.poll.net.icmpEchoReceived) :
    PingOutcome s none (pingLoop (pingRounds target rounds) rounds st s.reports wait) := by
  rw [pingLoop]
  split
  · refine .stays active PingPhase.noConfusion seq.symm rfl ?_
    exact flag.trans (Bool.or_false _).symm
  · obtain ⟨next, kept, clear⟩ := pingRounds_begins target rounds (pingReport st (pingSeq rounds))
      (s.reports ++ [(pingSeq rounds, st.icmpEchoReceived)]) few.le
    refine .reports active rfl ?_ ?_ clear
    · rw [next, seq]
      omega
    · rw [kept, pingSeq, seq, flag]

theorem pingResume_outcome {s : PingState} (target : IpAddr) (low : 1 ≤ s.phase.seq) :
    PingOutcome s none (pingResume target s) := by
  unfold pingResume
  split
  · rename_i rounds wait phase
    have active : s.phase ≠ .done := by
      rw [phase]
      exact PingPhase.noConfusion
    have seq : s.phase.seq = pingCount - rounds := by rw [phase, PingPhase.seq]
    have kept := ipSendResume_icmpEchoReceived s.poll.net wait
    rcases resumed : ipSendResume s.poll.net wait with ⟨ret | wait', st⟩ <;> rw [resumed] at kept
    · exact pingLoop_outcome target 2000000 active (by omega) seq kept
    · exact .stays active PingPhase.noConfusion seq.symm rfl (kept.trans (Bool.or_false _).symm)
  · rename_i rounds left phase
    have active : s.phase ≠ .done := by
      rw [phase]
      exact PingPhase.noConfusion
    have seq : s.phase.seq = pingCount - rounds := by rw [phase, PingPhase.seq]
    exact pingLoop_outcome target left active (by omega) seq rfl
  · rename_i phase
    exact .finished phase

theorem pollStep_icmpEchoReceived (s : PollState) (event : Option RxFrame) :
    (pollStep s event).net.icmpEchoReceived =
      (s.net.icmpEchoReceived || heardBy s.net event) := by
  cases event with
  | none => exact (pollIdle_icmpEchoReceived s).trans (Bool.or_false _).symm
  | some f => exact pollFrame_icmpEchoReceived s f

theorem pingStep_outcome {s : PingState} (target : IpAddr) (event : Option RxFrame)
    (low : 1 ≤ s.phase.seq) : PingOutcome s event (pingStep target s event) := by
  unfold pingStep
  split
  · rename_i phase
    exact .finished phase
  · exact pingResume_outcome target low
  · rename_i active _
    exact .stays active active rfl rfl (pollStep_icmpEchoReceived s.poll _)

/-! ## Runs -/

variable (target : IpAddr) (st : NetState)

/-- The state of the command after these events. -/
def pingAfter (past : List (Option RxFrame)) : PingState :=
  pingRun target (pingStart target st) past

/-- An echo reply has been processed in round `seq`. -/
def Heard (past : List (Option RxFrame)) (seq : Nat) : Prop :=
  ∃ before f, before ++ [some f] <+: past ∧
    (pingAfter target st before).phase.seq = seq ∧
    (echoReplyIn (pingAfter target st before).poll.net f).isSome

/-- After the request had been transmitted, the reply to it has been processed. -/
def Answered (past : List (Option RxFrame)) (seq : UInt16) : Prop :=
  ∃ before f, before ++ [some f] <+: past ∧
    RequestSent target seq (pingAfter target st before).poll.net ∧
    echoReplyIn (pingAfter target st before).poll.net f = some ⟨target, 0x4D4F, seq⟩

variable {target st} {past : List (Option RxFrame)}

theorem pingAfter_append (event : Option RxFrame) :
    pingAfter target st (past ++ [event]) = pingStep target (pingAfter target st past) event := by
  rw [pingAfter, pingRun, List.foldl_append]
  rfl

/-- What has been heard after one more event. -/
theorem heard_append {event : Option RxFrame} {seq : Nat} :
    Heard target st (past ++ [event]) seq ↔ Heard target st past seq ∨
      (pingAfter target st past).phase.seq = seq ∧
        heardBy (pingAfter target st past).poll.net event := by
  constructor
  · intro heard
    obtain ⟨before, f, front, round, reply⟩ := heard
    rcases List.prefix_concat_iff.mp front with whole | within
    · obtain ⟨rfl, last⟩ := List.append_inj' whole rfl
      obtain rfl := (List.singleton_inj.mp last)
      exact .inr ⟨round, reply⟩
    · exact .inl ⟨before, f, within, round, reply⟩
  · intro heard
    rcases heard with ⟨before, f, within, round, reply⟩ | ⟨round, reply⟩
    · exact ⟨before, f, within.trans (List.prefix_append _ _), round, reply⟩
    · cases event with
      | none => cases reply
      | some f => exact ⟨past, f, List.prefix_rfl, round, reply⟩

/-- After these events: the flag says whether a reply has been heard in this round, and a
result line is of a round that has ended and says whether one had been heard in it. -/
structure PingInv (target : IpAddr) (st : NetState) (past : List (Option RxFrame))
    (s : PingState) : Prop where
  low : 1 ≤ s.phase.seq
  high : s.phase.seq ≤ pingCount + 1
  flag : s.phase ≠ .done →
    (s.poll.net.icmpEchoReceived = true ↔ Heard target st past s.phase.seq)
  heard : ∀ seq, Heard target st past seq → seq ≤ s.phase.seq
  reports : ∀ seq received, (seq, received) ∈ s.reports →
    seq.toNat < s.phase.seq ∧ (received = true ↔ Heard target st past seq.toNat)

theorem pingInv_start : PingInv target st [] (pingAfter target st []) := by
  have silent (seq : Nat) : ¬ Heard target st [] seq := by
    intro heard
    obtain ⟨before, f, front, _⟩ := heard
    have none := List.prefix_nil.mp front
    simp at none
  obtain ⟨seq, reports, clear⟩ := pingRounds_begins target pingCount
    { st with
      sent := []
      out := st.out ++ ascii "PING " ++ kprintIp target ++ ascii " with 4 packets:\n" } [] le_rfl
  change (pingAfter target st []).phase.seq = 1 at seq
  change (pingAfter target st []).reports = [] at reports
  refine ⟨seq.ge, seq.trans_le (by decide), fun active => ?_,
    fun _ heard => absurd heard (silent _), fun _ _ member => ?_⟩
  · exact iff_of_false (Bool.eq_false_iff.mp (clear active)) (silent _)
  · rw [reports] at member
    cases member

section Step

variable {event : Option RxFrame} {s' : PingState}

/-- What has been heard is of this round or an earlier one. -/
theorem PingInv.heard_le (inv : PingInv target st past (pingAfter target st past)) {seq : Nat}
    (heard : Heard target st (past ++ [event]) seq) :
    seq ≤ (pingAfter target st past).phase.seq := by
  rcases heard_append.mp heard with before | ⟨now, _⟩
  · exact inv.heard seq before
  · exact now.ge

/-- The result lines stay true. -/
theorem PingInv.line (inv : PingInv target st past (pingAfter target st past)) (seq : UInt16)
    (received : Bool) (line : (seq, received) ∈ (pingAfter target st past).reports) :
    seq.toNat < (pingAfter target st past).phase.seq ∧
      (received = true ↔ Heard target st (past ++ [event]) seq.toNat) := by
  obtain ⟨lt, told⟩ := inv.reports seq received line
  refine ⟨lt, told.trans ?_⟩
  rw [heard_append]
  exact (or_iff_left fun new => lt.ne new.1.symm).symm

theorem PingInv.stays (inv : PingInv target st past (pingAfter target st past))
    (active : (pingAfter target st past).phase ≠ .done)
    (seq : s'.phase.seq = (pingAfter target st past).phase.seq)
    (reports : s'.reports = (pingAfter target st past).reports)
    (flag : s'.poll.net.icmpEchoReceived =
      ((pingAfter target st past).poll.net.icmpEchoReceived ||
        heardBy (pingAfter target st past).poll.net event)) :
    PingInv target st (past ++ [event]) s' where
  low := seq ▸ inv.low
  high := seq ▸ inv.high
  flag _ := by
    rw [flag, seq, heard_append, Bool.or_eq_true, inv.flag active]
    simp only [true_and]
  heard _ heard := seq ▸ inv.heard_le heard
  reports := by
    rw [reports, seq]
    exact inv.line

theorem PingPhase.seq_le {phase : PingPhase} (active : phase ≠ .done) : phase.seq ≤ pingCount := by
  cases phase with
  | resolving rounds wait => exact Nat.sub_le _ _
  | polling rounds left => exact Nat.sub_le _ _
  | done => exact absurd rfl active

theorem PingPhase.toNat_seq {phase : PingPhase} (active : phase ≠ .done) :
    (UInt16.ofNat phase.seq).toNat = phase.seq := by
  rw [UInt16.toNat_ofNat']
  exact Nat.mod_eq_of_lt (lt_of_le_of_lt (PingPhase.seq_le active) (by decide))

/-- Nothing is heard when nothing is received. -/
theorem heard_append_none {seq : Nat} :
    Heard target st (past ++ [none]) seq ↔ Heard target st past seq := by
  rw [heard_append]
  exact or_iff_left fun new => Bool.false_ne_true new.2

/-- A round ends with its result line. -/
theorem PingInv.report (inv : PingInv target st past (pingAfter target st past))
    (active : (pingAfter target st past).phase ≠ .done)
    (seq : s'.phase.seq = (pingAfter target st past).phase.seq + 1)
    (reports : s'.reports = (pingAfter target st past).reports ++
      [(UInt16.ofNat (pingAfter target st past).phase.seq,
        (pingAfter target st past).poll.net.icmpEchoReceived)])
    (flag : s'.phase ≠ .done → s'.poll.net.icmpEchoReceived = false) :
    PingInv target st (past ++ [none]) s' := by
  have few := PingPhase.seq_le active
  refine ⟨by omega, by rw [seq]; exact Nat.succ_le_succ few, fun active' => ?_,
    fun seq' before => ?_, fun seq' received line => ?_⟩
  · rw [flag active', seq]
    refine iff_of_false Bool.false_ne_true fun before => ?_
    exact absurd (inv.heard_le before) (by omega)
  · rw [seq]
    exact (inv.heard_le before).trans (Nat.le_succ _)
  · rw [reports, List.mem_append, List.mem_singleton] at line
    rw [seq]
    rcases line with earlier | now
    · obtain ⟨lt, told⟩ := inv.line seq' received earlier
      exact ⟨by omega, told⟩
    · obtain ⟨rfl, rfl⟩ := Prod.mk.inj now
      rw [PingPhase.toNat_seq active, heard_append_none]
      exact ⟨Nat.lt_succ_self _, inv.flag active⟩

theorem PingInv.step (inv : PingInv target st past (pingAfter target st past))
    (event : Option RxFrame) :
    PingInv target st (past ++ [event]) (pingAfter target st (past ++ [event])) := by
  rw [pingAfter_append]
  have outcome := pingStep_outcome target event inv.low
  generalize pingStep target (pingAfter target st past) event = s' at outcome ⊢
  cases outcome with
  | finished done => exact { inv with
      flag := fun active => absurd done active
      heard := fun _ heard => inv.heard_le heard
      reports := inv.line }
  | stays active _ seq reports flag => exact inv.stays active seq reports flag
  | reports active idle seq reports flag =>
    subst idle
    exact inv.report active seq reports flag

end Step

theorem pingInv_run (target : IpAddr) (st : NetState) (past : List (Option RxFrame)) :
    PingInv target st past (pingAfter target st past) := by
  induction past using List.reverseRecOn with
  | nil => exact pingInv_start
  | append_singleton past event ih => exact ih.step event

/-- Every echo reply processed is one to the request of its round, transmitted before. -/
def GenuineReplies (target : IpAddr) (st : NetState) (events : List (Option RxFrame)) : Prop :=
  ∀ before f reply, before ++ [some f] <+: events →
    echoReplyIn (pingAfter target st before).poll.net f = some reply →
      reply.src = target ∧ reply.id = 0x4D4F ∧
        reply.seq.toNat = (pingAfter target st before).phase.seq ∧
        RequestSent target reply.seq (pingAfter target st before).poll.net

/-- **Ping.**  In every run in which every echo reply processed is one to the request of its
round, every line that reports a reply comes after the request and the reply to it. -/
theorem ping_sound_of_genuine (target : IpAddr) (st : NetState) (events : List (Option RxFrame))
    (genuine : GenuineReplies target st events) (past : List (Option RxFrame)) (seq : UInt16)
    (within : past <+: events) (line : (seq, true) ∈ (pingAfter target st past).reports) :
    Answered target st past seq := by
  obtain ⟨before, f, front, round, heard⟩ :=
    ((pingInv_run target st past).reports seq true line).2.mp rfl
  obtain ⟨⟨src, id, number⟩, reply⟩ := Option.isSome_iff_exists.mp heard
  obtain ⟨rfl, rfl, current, sent⟩ := genuine before f _ (front.trans within) reply
  obtain rfl : number = seq := UInt16.toNat_inj.mp (current.trans round)
  exact ⟨before, f, front, sent, reply⟩

/-- A card that knows the MAC address of 10.0.2.2. -/
def gatewayKnown : NetState :=
  { netInit #v[0x52, 0x54, 0x00, 0x12, 0x34, 0x56] 0xC000 with
    arpCache := fun _ => ⟨0x0A000202, #v[0x52, 0x55, 0x0A, 0x00, 0x02, 0x02], true⟩ }

/-- The reply of 10.0.2.2 to the first request. -/
def gatewayReply : RxFrame where
  bytes := [0x52, 0x54, 0x00, 0x12, 0x34, 0x56, 0x52, 0x55, 0x0A, 0x00, 0x02, 0x02, 0x08, 0x00,
    0x45, 0x00, 0x00, 0x1C, 0x00, 0x01, 0x00, 0x00, 0x40, 0x01, 0x62, 0xD0, 0x0A, 0x00, 0x02, 0x02,
    0x0A, 0x00, 0x02, 0x0F, 0x00, 0x00, 0xB2, 0xAF, 0x4D, 0x4F, 0x00, 0x01]
  nonempty := by decide
  short := by decide

/-- The first frame of two events is the first event. -/
theorem first_of_prefix {before : List (Option RxFrame)} {f first : RxFrame}
    (front : before ++ [some f] <+: [some first, none]) : before = [] ∧ f = first := by
  cases before with
  | nil => exact ⟨rfl, Option.some.inj (List.cons_prefix_cons.mp front).1⟩
  | cons event before =>
    have rest := (List.cons_prefix_cons.mp front).2
    cases before with
    | nil => cases (List.cons_prefix_cons.mp rest).1
    | cons event' before =>
      have short := rest.length_le
      simp at short

/-- The first request is transmitted at once. -/
theorem requestSent_gatewayKnown :
    RequestSent 0x0A000202 1 (pingAfter 0x0A000202 gatewayKnown []).poll.net := by
  have sent : (pingAfter 0x0A000202 gatewayKnown []).poll.net.sent =
      (ipTransmit gatewayKnown #v[0x52, 0x55, 0x0A, 0x00, 0x02, 0x02]
        ⟨0x0A000202, ipProtoIcmp, icmpEchoPayload 1⟩).2.sent := by decide +kernel
  rw [RequestSent, sent]
  exact requestSent_ipTransmit (by decide) _ _ _

/-- The reply to the first request is reported. -/
theorem ping_sound_gateway : Answered 0x0A000202 gatewayKnown [some gatewayReply, none] 1 := by
  have reply : echoReplyIn (pingAfter 0x0A000202 gatewayKnown []).poll.net gatewayReply =
      some ⟨0x0A000202, 0x4D4F, 1⟩ := by decide +kernel
  refine ping_sound_of_genuine _ _ [some gatewayReply, none] (fun before f seen front heard => ?_)
    [some gatewayReply, none] 1 List.prefix_rfl (by decide +kernel)
  obtain ⟨rfl, rfl⟩ := first_of_prefix front
  obtain rfl := Option.some.inj (reply.symm.trans heard)
  exact ⟨rfl, rfl, by decide +kernel, requestSent_gatewayKnown⟩

/-- An echo reply of 10.0.2.3 to 10.0.2.15 with the id 0x1234. -/
def strayReply : RxFrame where
  bytes := [0x52, 0x54, 0x00, 0x12, 0x34, 0x56, 0x52, 0x55, 0x0A, 0x00, 0x02, 0x03, 0x08, 0x00,
    0x45, 0x00, 0x00, 0x1C, 0x00, 0x01, 0x00, 0x00, 0x40, 0x01, 0x62, 0xCF, 0x0A, 0x00, 0x02, 0x03,
    0x0A, 0x00, 0x02, 0x0F, 0x00, 0x00, 0xED, 0xC2, 0x12, 0x34, 0x00, 0x09]
  nonempty := by decide
  short := by decide

/-- A ping of 10.0.2.2 reports a reply to its first request, of which there was none. -/
theorem ping_sound_fails :
    (1, true) ∈ (pingAfter 0x0A000202 gatewayKnown [some strayReply, none]).reports ∧
      ¬ Answered 0x0A000202 gatewayKnown [some strayReply, none] 1 := by
  refine ⟨by decide +kernel, fun answered => ?_⟩
  have stray : echoReplyIn (pingAfter 0x0A000202 gatewayKnown []).poll.net strayReply =
      some ⟨0x0A000203, 0x1234, 9⟩ := by decide +kernel
  obtain ⟨before, f, front, _, reply⟩ := answered
  obtain ⟨rfl, rfl⟩ := first_of_prefix front
  exact absurd (stray.symm.trans reply) (by decide)

end MOKernel
