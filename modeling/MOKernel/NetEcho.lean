import MOKernel.NetPoll

/-!
# The echo service

`icmp_handle` copies an echo request out of `pkt_buf` before `ip_send` polls again,
so a waiting activation owns its reply whatever is received meanwhile.  `EchoInv`
keeps a ledger of the requests: those answered, in the order of the replies, and
those whose activation waits, innermost first.  Every stretch of the poll machine
keeps it (`EchoOutcome.settle`), which gives the correspondence of replies and
requests over any run (`echo_replies_match`).
-/

namespace MOKernel

/-- A transmitted frame that is an ICMP echo reply. -/
def IsEchoReply (frame : List UInt8) : Prop :=
  frameEtype (bytesOf frame) = ethTypeIp ∧ frameProto (bytesOf frame) = ipProtoIcmp ∧
    bytesOf frame (slicePkt (bytesOf frame)) = icmpEchoReply

instance (frame : List UInt8) : Decidable (IsEchoReply frame) :=
  inferInstanceAs (Decidable (_ ∧ _ ∧ _))

/-- A received frame that is an ICMP echo request for `netIp`. -/
structure IsEchoRequest (netIp : IpAddr) (frame : List UInt8) : Prop where
  ip : IpFrameFor (bytesOf frame) netIp frame.length
  header : 20 ≤ (frameIhl (bytesOf frame)).toNat
  proto : frameProto (bytesOf frame) = ipProtoIcmp
  long : 8 ≤ (frameTotalLen (bytesOf frame)).toNat - (frameIhl (bytesOf frame)).toNat
  type : bytesOf frame (slicePkt (bytesOf frame)) = icmpEchoRequest

/-- The number of ICMP bytes a reply echoes. -/
def echoLength (request : List UInt8) : Nat :=
  min ((frameTotalLen (bytesOf request)).toNat - (frameIhl (bytesOf request)).toNat) 64

/-- The ICMP bytes of a request that are echoed. -/
def echoBytes (request : List UInt8) : List UInt8 :=
  (List.range (echoLength request)).map fun i =>
    bytesOf request (slicePkt (bytesOf request) + i)

/-- The reply answers the request. -/
structure EchoReplyTo (netIp : IpAddr) (request reply : List UInt8) : Prop where
  isRequest : IsEchoRequest netIp request
  isReply : IsEchoReply reply
  size : reply.length = ethHdrSize + ipHdrSize + echoLength request
  header : frameIhl (bytesOf reply) = 20
  totalLen : (frameTotalLen (bytesOf reply)).toNat = ipHdrSize + echoLength request
  dst : frameDst (bytesOf reply) = frameSrc (bytesOf request)
  code : bytesOf reply 35 = bytesOf request (slicePkt (bytesOf request) + 1)
  id : ∀ i, 4 ≤ i → i < 6 →
    bytesOf reply (34 + i) = bytesOf request (slicePkt (bytesOf request) + i)
  seq : ∀ i, 6 ≤ i → i < 8 →
    bytesOf reply (34 + i) = bytesOf request (slicePkt (bytesOf request) + i)
  data : ∀ i < echoLength request - 8,
    bytesOf reply (42 + i) = bytesOf request (slicePkt (bytesOf request) + (8 + i))
  ipVerifies : ipChecksum ((reply.drop ethHdrSize).take ipHdrSize) = 0
  icmpVerifies : ipChecksum (reply.drop (ethHdrSize + ipHdrSize)) = 0

/-- The `ip_send` call that answers the request. -/
structure EchoArgs (netIp : IpAddr) (request : List UInt8) (args : IpSendArgs) : Prop where
  isRequest : IsEchoRequest netIp request
  args_eq : args = ⟨frameSrc (bytesOf request), ipProtoIcmp, icmpReply (echoBytes request)⟩

/-! ## The reply frame -/

variable {netIp : IpAddr} {request : List UInt8} {args : IpSendArgs} {st st' : NetState}

theorem length_echoBytes : (echoBytes request).length = echoLength request := by
  simp [echoBytes]

theorem IsEchoRequest.echoLength_ge (echo : IsEchoRequest netIp request) :
    8 ≤ echoLength request :=
  le_min echo.long (by omega)

theorem echoLength_le : echoLength request ≤ 64 := min_le_right _ _

theorem EchoArgs.length_payload (echo : EchoArgs netIp request args) :
    args.payload.length = echoLength request := by
  rw [echo.args_eq, length_icmpReply, length_echoBytes]

/-- A byte of the reply's message in the frame. -/
theorem ipFrame_byte {dstMac : MacAddr} {i : Nat} (lt : i < args.payload.length) :
    bytesOf (ipFrame st dstMac args) (34 + i) = args.payload[i] := by
  rw [bytesOf_eq_append (ipFrame st dstMac args), ipFrame_payload lt]

/-- All but the type and the checksum is copied from the request. -/
theorem EchoArgs.kept (echo : EchoArgs netIp request args) (dstMac : MacAddr) {i : Nat}
    (lt : i < echoLength request) (keep : i = 1 ∨ 4 ≤ i) :
    bytesOf (ipFrame st dstMac args) (34 + i) =
      bytesOf request (slicePkt (bytesOf request) + i) := by
  have same : args.payload[i]? = (echoBytes request)[i]? := by
    rw [echo.args_eq]
    exact icmpReply_getElem? keep
  have inside : i < args.payload.length := by rwa [echo.length_payload]
  have inside' : i < (echoBytes request).length := by rwa [length_echoBytes]
  rw [List.getElem?_eq_getElem inside, List.getElem?_eq_getElem inside'] at same
  rw [ipFrame_byte inside, Option.some.inj same]
  simp [echoBytes]

/-- The frame sent for a request answers it. -/
theorem EchoArgs.replyTo (echo : EchoArgs netIp request args) (dstMac : MacAddr) :
    EchoReplyTo netIp request (ipFrame st dstMac args) := by
  have low := echo.isRequest.echoLength_ge
  have high : echoLength request ≤ 64 := echoLength_le
  have size := echo.length_payload
  have nil := bytesOf_eq_append (ipFrame st dstMac args)
  have proto : args.proto = ipProtoIcmp := by rw [echo.args_eq]
  have dst : args.dst = frameSrc (bytesOf request) := by rw [echo.args_eq]
  have payload : args.payload = icmpReply (echoBytes request) := by rw [echo.args_eq]
  refine
    { isRequest := echo.isRequest
      isReply := ⟨by rw [nil, ipFrame_etype], by rw [nil, ipFrame_proto, proto], ?_⟩
      size := by rw [length_ipFrame, size, ethHdrSize, ipHdrSize]
      header := by rw [nil, ipFrame_ihl]
      totalLen := ?_
      dst := by rw [nil, ipFrame_dst, dst]
      code := echo.kept dstMac (i := 1) (by omega) (.inl rfl)
      id := fun i lo hi => echo.kept dstMac (by omega) (.inr lo)
      seq := fun i lo hi => echo.kept dstMac (by omega) (.inr (by omega))
      data := fun i lt => ?_
      ipVerifies := ipFrame_header_verifies
      icmpVerifies := ?_ }
  · have first : 0 < args.payload.length := by omega
    have start : slicePkt (bytesOf (ipFrame st dstMac args)) = 34 + 0 := by
      rw [slicePkt, nil, ipFrame_ihl]
      rfl
    rw [start, ipFrame_byte first]
    simp [payload, icmpReply, storeU16]
  · rw [nil, ipFrame_totalLen, size, UInt16.toNat_ofNat',
      Nat.mod_eq_of_lt (by simp only [ipHdrSize]; omega)]
  · rw [show 42 + i = 34 + (8 + i) by omega]
    exact echo.kept dstMac (by omega) (.inr (by omega))
  · rw [ipFrame, List.drop_left' (by simp), payload]
    exact icmpReply_verifies (by rw [length_echoBytes]; omega)
      (by rw [length_echoBytes]; omega)

/-! ## What a stretch transmits -/

/-- The echo replies transmitted so far. -/
def echoReplies (st : NetState) : List (List UInt8) := st.sent.filter fun f => IsEchoReply f

/-- The address is kept and no echo reply is transmitted. -/
structure Quiet (st st' : NetState) : Prop where
  ip : st'.ip = st.ip
  replies : echoReplies st' = echoReplies st

/-- The address is kept and one echo reply is transmitted, to the request. -/
structure Answers (request : List UInt8) (st st' : NetState) : Prop where
  ip : st'.ip = st.ip
  replies : ∃ reply, EchoReplyTo st.ip request reply ∧ echoReplies st' = echoReplies st ++ [reply]

theorem Quiet.refl (st : NetState) : Quiet st st := ⟨rfl, rfl⟩

theorem echoReplies_append {frame : List UInt8} (sent : st'.sent = st.sent ++ [frame]) :
    echoReplies st' = echoReplies st ++ if IsEchoReply frame then [frame] else [] := by
  by_cases reply : IsEchoReply frame <;> simp [echoReplies, sent, reply]

theorem netSend_quiet {frame : List UInt8} (other : ¬ IsEchoReply frame) :
    Quiet st (netSend st frame).2 := by
  rcases netSend_cases st frame with same | sent
  · rw [same]
    exact Quiet.refl st
  · rw [sent]
    exact ⟨rfl, by rw [echoReplies_append rfl, if_neg other, List.append_nil]⟩

theorem netSend_answers {frame : List UInt8} (reply : EchoReplyTo st.ip request frame) :
    Quiet st (netSend st frame).2 ∨ Answers request st (netSend st frame).2 := by
  rcases netSend_cases st frame with same | sent
  · rw [same]
    exact .inl (Quiet.refl st)
  · rw [sent]
    exact .inr ⟨rfl, frame, reply, by rw [echoReplies_append rfl, if_pos reply.isReply]⟩

theorem arpFrame_not_echo {dst : MacAddr} {packet : List UInt8} :
    ¬ IsEchoReply ((ethBuild st dst ethTypeArp).bytes ++ packet) := by
  intro held
  rcases held with ⟨etype, -⟩
  rw [bytesOf, frameEtype_ethBuild] at etype
  exact absurd etype (by decide)

theorem arpSendRequest_quiet (targetIp : IpAddr) : Quiet st (arpSendRequest st targetIp) :=
  netSend_quiet arpFrame_not_echo

theorem Quiet.of_eq (ip : st'.ip = st.ip) (sent : st'.sent = st.sent) : Quiet st st' :=
  ⟨ip, by rw [echoReplies, sent, echoReplies]⟩

theorem Quiet.trans {st'' : NetState} (first : Quiet st st') (second : Quiet st' st'') :
    Quiet st st'' :=
  ⟨second.ip.trans first.ip, second.replies.trans first.replies⟩

theorem arpHandle_quiet (mem : Nat → UInt8) (pkt : Nat) (len : UInt16) :
    Quiet st ((arpHandle st pkt len).run mem) := by
  have learned (cache : ArpCache) : Quiet st { st with arpCache := cache } := .of_eq rfl rfl
  rw [run_arpHandle]
  split
  · exact Quiet.refl st
  · simp only
    split
    · exact (learned _).trans (netSend_quiet arpFrame_not_echo)
    · exact learned _

/-- An echo request makes `icmp_handle` send the reply. -/
theorem IsEchoRequest.icmpHandle_run {f : RxFrame} (echo : IsEchoRequest st.ip f.bytes)
    (sized : WellSized st.ip f.bytes) :
    (icmpHandle st (frameSrc (bytesOf f.bytes)) (slicePkt (bytesOf f.bytes))
        (sliceLen (bytesOf f.bytes))).run (bytesOf f.bytes) =
      (st, some ⟨frameSrc (bytesOf f.bytes), ipProtoIcmp, icmpReply (echoBytes f.bytes)⟩) := by
  have slice := toNat_sliceLen (sized echo.ip).1
  have long : ¬ (sliceLen (bytesOf f.bytes)).toNat < icmpHdrSize := by
    rw [slice]
    exact Nat.not_lt.mpr echo.long
  have capped : (if sliceLen (bytesOf f.bytes) > 64 then 64
      else sliceLen (bytesOf f.bytes) : UInt16).toNat = echoLength f.bytes := by
    rw [echoLength, ← slice]
    split
    · rename_i longer
      exact (min_eq_right (Nat.le_of_lt (UInt16.lt_iff_toNat_lt.mp longer))).symm
    · rename_i fits
      exact (min_eq_left (Nat.le_of_not_lt fun lt => fits (UInt16.lt_iff_toNat_lt.mpr lt))).symm
  rw [run_icmpHandle, if_neg long, if_pos echo.type, Load.run_block, capped]
  rfl

/-- `icmp_handle` on the slice of a passed frame: only an echo request makes it send. -/
theorem icmpHandle_echo {f : RxFrame}
    (passed : PassedOn (bytesOf f.bytes) st.ip f.bytes.length)
    (icmp : frameProto (bytesOf f.bytes) = ipProtoIcmp) (sized : WellSized st.ip f.bytes) :
    let run := (icmpHandle st (frameSrc (bytesOf f.bytes)) (slicePkt (bytesOf f.bytes))
      (sliceLen (bytesOf f.bytes))).run (bytesOf f.bytes)
    ∃ st', Quiet st st' ∧
      (run = (st', none) ∨ ∃ args, EchoArgs st.ip f.bytes args ∧ run = (st', some args)) := by
  intro run
  have noted (seq : UInt16) :
      Quiet st { st with icmpEchoReceived := true, icmpLastSeq := seq } := .of_eq rfl rfl
  have slice := toNat_sliceLen (sized passed.frame).1
  by_cases short : (sliceLen (bytesOf f.bytes)).toNat < icmpHdrSize
  · refine ⟨st, Quiet.refl st, .inl ?_⟩
    simp only [run]
    rw [run_icmpHandle, if_pos short]
  by_cases type : bytesOf f.bytes (slicePkt (bytesOf f.bytes)) = icmpEchoRequest
  · have isRequest : IsEchoRequest st.ip f.bytes :=
      { ip := passed.frame
        header := passed.header
        proto := icmp
        long := by simp only [icmpHdrSize, slice] at short; omega
        type := type }
    exact ⟨st, Quiet.refl st, .inr ⟨_, ⟨isRequest, rfl⟩, isRequest.icmpHandle_run sized⟩⟩
  · simp only [run]
    rw [run_icmpHandle, if_neg short, if_neg type]
    split
    · exact ⟨_, noted _, .inl rfl⟩
    · exact ⟨st, Quiet.refl st, .inl rfl⟩

theorem IsEchoRequest.passedOn {f : RxFrame} (echo : IsEchoRequest netIp f.bytes) :
    PassedOn (bytesOf f.bytes) netIp f.len.toNat :=
  ⟨by rw [RxFrame.toNat_len]; exact echo.ip, echo.header, .inl echo.proto⟩

/-- An echo request makes the receive path send the reply. -/
theorem IsEchoRequest.ethReceive_run {f : RxFrame} (echo : IsEchoRequest st.ip f.bytes)
    (sized : WellSized st.ip f.bytes) :
    (ethReceive st f.len).run (bytesOf f.bytes) =
      (st, some ⟨frameSrc (bytesOf f.bytes), ipProtoIcmp, icmpReply (echoBytes f.bytes)⟩) := by
  rw [ethReceive, Load.run_bind, echo.passedOn.run_ethProcess, passedCall, if_pos echo.proto]
  exact echo.icmpHandle_run sized

/-- A received frame transmits no echo reply before the `ip_send` it may end in, and ends
in one only for an echo request. -/
theorem ethReceive_echo {f : RxFrame} (sized : WellSized st.ip f.bytes) :
    let run := (ethReceive st f.len).run (bytesOf f.bytes)
    ∃ st', Quiet st st' ∧
      (run = (st', none) ∨ ∃ args, EchoArgs st.ip f.bytes args ∧ run = (st', some args)) := by
  intro run
  simp only [run]
  rw [ethReceive, Load.run_bind]
  cases ran : (ethProcess st.ip 0 f.len).run (bytesOf f.bytes) with
  | none => exact ⟨st, Quiet.refl st, .inl rfl⟩
  | some call =>
    rcases ethProcess_eq_some ran with ⟨-, rfl⟩ | ⟨passed, rfl⟩
    · refine ⟨_, arpHandle_quiet (bytesOf f.bytes) 14 (f.len - 14), .inl ?_⟩
      simp only [NetCall.exec, Load.run_bind, Load.run_pure]
    · rw [RxFrame.toNat_len] at passed
      by_cases icmp : frameProto (bytesOf f.bytes) = ipProtoIcmp
      · rw [passedCall, if_pos icmp]
        exact icmpHandle_echo passed icmp sized
      · rw [passedCall, if_neg icmp]
        exact ⟨st, Quiet.refl st, .inl rfl⟩

/-! ## How `ip_send` ends -/

/-- A stretch of the `ip_send` that answers the request: it returns without or with the
reply transmitted, or it waits with its arguments kept. -/
inductive EchoOutcome (request : List UInt8) (args : IpSendArgs) (st : NetState) :
    IpSendStatus × NetState → Prop
  | dropped {ret : Int} {st' : NetState} (quiet : Quiet st st') :
    EchoOutcome request args st (.returned ret, st')
  | answered {ret : Int} {st' : NetState} (answers : Answers request st st') :
    EchoOutcome request args st (.returned ret, st')
  | waiting {left : Nat} {st' : NetState} (quiet : Quiet st st') :
    EchoOutcome request args st (.polling ⟨args, left⟩, st')

theorem ipTransmit_outcome (echo : EchoArgs st.ip request args) (dstMac : MacAddr) :
    EchoOutcome request args st
      (.returned (ipTransmit st dstMac args).1, (ipTransmit st dstMac args).2) := by
  have size : 34 + args.payload.length < 65536 := by
    have high : echoLength request ≤ 64 := echoLength_le
    rw [echo.args_eq, length_icmpReply, length_echoBytes]
    omega
  rw [ipTransmit_eq size]
  rcases netSend_answers (echo.replyTo dstMac) with quiet | answers
  · exact .dropped quiet
  · exact .answered answers

theorem ipSend_outcome (echo : EchoArgs st.ip request args) :
    EchoOutcome request args st (ipSend st args) := by
  rw [ipSend]
  split
  · exact ipTransmit_outcome echo broadcastMac
  split
  · exact ipTransmit_outcome echo _
  · exact .waiting (arpSendRequest_quiet args.dst)

theorem ipSendResume_outcome {wait : IpWait} (echo : EchoArgs st.ip request wait.args) :
    EchoOutcome request wait.args st (ipSendResume st wait) := by
  rw [ipSendResume]
  split
  · exact ipTransmit_outcome echo _
  split
  · exact .dropped (.of_eq rfl rfl)
  · exact .waiting (Quiet.refl st)

/-! ## The ledger of requests -/

/-- Frame number `i` satisfies `P`. -/
def FrameAt (frames : List RxFrame) (i : Nat) (P : List UInt8 → Prop) : Prop :=
  ∃ f, frames[i]? = some f ∧ P f.bytes

/-- The replies transmitted answer the frames `answered`, the waiting activations answer
the frames `pending`, and no frame is listed twice. -/
structure EchoInv (netIp : IpAddr) (frames : List RxFrame) (answered pending : List Nat)
    (s : PollState) : Prop where
  ip : s.net.ip = netIp
  distinct : (answered ++ pending).Nodup
  known : ∀ i ∈ answered ++ pending, i < frames.length
  replies : List.Forall₂ (fun reply i => FrameAt frames i (EchoReplyTo netIp · reply))
    (echoReplies s.net) answered
  waits : List.Forall₂ (fun wait i => FrameAt frames i (EchoArgs netIp · wait.args))
    s.waits pending

variable {frames : List RxFrame} {answered pending : List Nat} {s : PollState}

theorem FrameAt.append {i : Nat} {P : List UInt8 → Prop} (at_i : FrameAt frames i P)
    (f : RxFrame) : FrameAt (frames ++ [f]) i P := by
  obtain ⟨g, found, holds⟩ := at_i
  have lt : i < frames.length := (List.getElem?_eq_some_iff.mp found).1
  exact ⟨g, by rw [List.getElem?_append_left lt, found], holds⟩

/-- Receiving a frame keeps the ledger. -/
theorem EchoInv.receive (inv : EchoInv netIp frames answered pending s) (f : RxFrame) :
    EchoInv netIp (frames ++ [f]) answered pending s where
  ip := inv.ip
  distinct := inv.distinct
  known i member := by
    have lt := inv.known i member
    rw [List.length_append]
    omega
  replies := inv.replies.imp fun _ _ at_i => at_i.append f
  waits := inv.waits.imp fun _ _ at_i => at_i.append f

theorem EchoInv.quiet {net : NetState} {waits : List IpWait}
    (inv : EchoInv netIp frames answered pending ⟨st, waits⟩) (quiet : Quiet st net) :
    EchoInv netIp frames answered pending ⟨net, waits⟩ where
  ip := quiet.ip.trans inv.ip
  distinct := inv.distinct
  known := inv.known
  replies := by
    rw [show echoReplies (PollState.mk net waits).net = echoReplies st from quiet.replies]
    exact inv.replies
  waits := inv.waits

/-- A stretch of the `ip_send` for a request outside the ledger keeps the ledger, with the
request answered, pending or dropped. -/
theorem EchoOutcome.settle {f : RxFrame} {i : Nat} {waits : List IpWait}
    {outcome : IpSendStatus × NetState} (ended : EchoOutcome f.bytes args st outcome)
    (echo : EchoArgs netIp f.bytes args)
    (inv : EchoInv netIp frames answered pending ⟨st, waits⟩)
    (fresh : i ∉ answered ++ pending) (found : frames[i]? = some f) :
    ∃ answered' pending',
      EchoInv netIp frames answered' pending' (PollState.resume waits outcome) := by
  have bound : i < frames.length := (List.getElem?_eq_some_iff.mp found).1
  have distinct : (answered ++ i :: pending).Nodup :=
    List.perm_middle.nodup_iff.mpr (List.nodup_cons.mpr ⟨fresh, inv.distinct⟩)
  have known : ∀ j ∈ answered ++ i :: pending, j < frames.length := by
    intro j member
    rcases List.mem_cons.mp (List.perm_middle.mem_iff.mp member) with rfl | member
    · exact bound
    · exact inv.known j member
  cases ended with
  | dropped quiet => exact ⟨answered, pending, inv.quiet quiet⟩
  | answered answers =>
    obtain ⟨reply, replyTo, replies⟩ := answers.replies
    have st_ip : st.ip = netIp := inv.ip
    refine ⟨answered ++ [i], pending, ⟨answers.ip.trans inv.ip, ?_, ?_, ?_, inv.waits⟩⟩
    · rwa [List.append_assoc, List.singleton_append]
    · rwa [List.append_assoc, List.singleton_append]
    · simp only [PollState.resume]
      rw [replies]
      exact List.rel_append inv.replies (.cons ⟨f, found, st_ip ▸ replyTo⟩ .nil)
  | waiting quiet =>
    have kept := inv.quiet quiet
    exact ⟨answered, i :: pending, ⟨kept.ip, distinct, known, kept.replies,
      .cons ⟨f, found, echo⟩ kept.waits⟩⟩

theorem pollFrame_echoInv {f : RxFrame} (sized : WellSized netIp f.bytes)
    (inv : EchoInv netIp frames answered pending s) :
    ∃ answered' pending', EchoInv netIp (frames ++ [f]) answered' pending' (pollFrame s f) := by
  obtain ⟨net, waits⟩ := s
  set st₀ : NetState := { net with pktBuf := overlay net.pktBuf f.bytes } with st₀_eq
  have ip : st₀.ip = netIp := inv.ip
  have sized₀ : WellSized st₀.ip f.bytes := by rwa [ip]
  obtain ⟨st', quiet, ended⟩ := ethReceive_echo sized₀
  have filled : Quiet net st₀ := .of_eq rfl rfl
  have inv' := (inv.receive f).quiet (filled.trans quiet)
  simp only [pollFrame, ← st₀_eq, ethReceive_overlay sized₀]
  rcases ended with ran | ⟨args, echo, ran⟩
  · rw [ran]
    exact ⟨answered, pending, inv'⟩
  · rw [ran]
    have fresh : frames.length ∉ answered ++ pending := fun member =>
      Nat.lt_irrefl _ (inv.known _ member)
    have echo' : EchoArgs st'.ip f.bytes args := by rwa [quiet.ip]
    refine (ipSend_outcome echo').settle ?_ inv' fresh (by simp)
    rwa [ip] at echo

theorem pollIdle_echoInv (inv : EchoInv netIp frames answered pending s) :
    ∃ answered' pending', EchoInv netIp frames answered' pending' (pollIdle s) := by
  obtain ⟨net, waits⟩ := s
  cases waits with
  | nil => exact ⟨answered, pending, inv⟩
  | cons wait waits =>
    obtain ⟨ip, distinct, known, replies, waiting⟩ := inv
    obtain ⟨i, rest, ⟨f, found, echo⟩, waiting', rfl⟩ :=
      List.forall₂_cons_left_iff.mp waiting
    obtain ⟨fresh, distinct'⟩ :=
      List.nodup_cons.mp (List.perm_middle.nodup_iff.mp distinct)
    have inv' : EchoInv netIp frames answered rest ⟨net, waits⟩ :=
      { ip := ip
        distinct := distinct'
        known := fun j member =>
          known j (List.perm_middle.mem_iff.mpr (List.mem_cons_of_mem i member))
        replies := replies
        waits := waiting' }
    have net_ip : net.ip = netIp := ip
    have echo' : EchoArgs net.ip f.bytes wait.args := by rwa [net_ip]
    exact (ipSendResume_outcome echo').settle echo inv' fresh found

/-- The ledger holds at every point of a run. -/
theorem pollRun_echoInv (net : NetState) (events : List (Option RxFrame))
    (sized : ∀ f ∈ received events, WellSized net.ip f.bytes) :
    ∃ answered pending, EchoInv net.ip (received events) answered pending
      (pollRun (pollStart net) events) := by
  induction events using List.reverseRecOn with
  | nil => exact ⟨[], [], rfl, List.nodup_nil, by simp, .nil, .nil⟩
  | append_singleton events event ih =>
    rw [pollRun_append]
    cases event with
    | none =>
      rw [received_append_idle] at sized ⊢
      obtain ⟨answered, pending, inv⟩ := ih sized
      exact pollIdle_echoInv inv
    | some f =>
      rw [received_append_frame] at sized ⊢
      obtain ⟨answered, pending, inv⟩ :=
        ih fun g member => sized g (List.mem_append_left _ member)
      exact pollFrame_echoInv (sized f (by simp)) inv

/-- **Echo service.**  Whatever the cache, the arrivals and the nesting, if the header
fields of the received IPv4 frames agree with their lengths, the echo replies
transmitted answer pairwise distinct received echo requests. -/
theorem echo_replies_match (net : NetState) (events : List (Option RxFrame))
    (sized : ∀ f ∈ received events, WellSized net.ip f.bytes) :
    ∃ requests : List Nat, requests.Nodup ∧
      List.Forall₂
        (fun reply i => ∃ f, (received events)[i]? = some f ∧ EchoReplyTo net.ip f.bytes reply)
        (echoReplies (pollRun (pollStart net) events).net) requests := by
  obtain ⟨answered, pending, inv⟩ := pollRun_echoInv net events sized
  exact ⟨answered, inv.distinct.of_append_left, inv.replies⟩

/-- An echo request from 10.0.2.2 for the default address, and the reply to the ARP
request it causes. -/
def echoExample : RxFrame where
  bytes := [0x52, 0x54, 0x00, 0x12, 0x34, 0x56, 0x52, 0x55, 0x0A, 0x00, 0x02, 0x02, 0x08, 0x00,
    0x45, 0x00, 0x00, 0x1E, 0x00, 0x01, 0x00, 0x00, 0x40, 0x01, 0x62, 0xCA,
    0x0A, 0x00, 0x02, 0x02, 0x0A, 0x00, 0x02, 0x0F,
    0x08, 0x00, 0x48, 0x4D, 0x4D, 0x4F, 0x00, 0x01, 0x61, 0x62]
  nonempty := by decide
  short := by decide

def arpReplyExample : RxFrame where
  bytes := [0x52, 0x54, 0x00, 0x12, 0x34, 0x56, 0x52, 0x55, 0x0A, 0x00, 0x02, 0x02, 0x08, 0x06,
    0x00, 0x01, 0x08, 0x00, 0x06, 0x04, 0x00, 0x02,
    0x52, 0x55, 0x0A, 0x00, 0x02, 0x02, 0x0A, 0x00, 0x02, 0x02,
    0x52, 0x54, 0x00, 0x12, 0x34, 0x56, 0x0A, 0x00, 0x02, 0x0F]
  nonempty := by decide
  short := by decide

/-- Two nested requests, answered after the address resolves. -/
theorem echo_replies_match_nested :
    let net := netInit #v[0x52, 0x54, 0x00, 0x12, 0x34, 0x56] 0xC000
    let events := [some echoExample, some echoExample, some arpReplyExample, none, none]
    (echoReplies (pollRun (pollStart net) events).net).length = 2 ∧
      ∃ requests : List Nat, requests.Nodup ∧
        List.Forall₂
          (fun reply i => ∃ f, (received events)[i]? = some f ∧ EchoReplyTo net.ip f.bytes reply)
          (echoReplies (pollRun (pollStart net) events).net) requests := by
  intro net events
  have sized : ∀ f ∈ received events, WellSized net.ip f.bytes := by decide +kernel
  exact ⟨by decide +kernel, echo_replies_match net events sized⟩

end MOKernel
