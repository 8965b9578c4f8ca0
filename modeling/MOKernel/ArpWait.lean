import MOKernel.ArpHandshake
import MOKernel.NetAgreement
import MOKernel.NetPoll

/-!
# Resolution while `ip_send` waits

`ip_send` looks its destination up when `net_poll` has returned, which is after every
frame of the batch.  An insertion into a cache full of other addresses evicts slot 0, so
what a batch has taught may be gone by then.  `Displaced` says when it is, from the cache
at the call and the announcements heard during the wait, and `ip_send` transmits to the
MAC heard last exactly if it is not (`arp_resolution_kept_iff`).
-/

namespace MOKernel

/-! ## What the cache keeps -/

/-- The cache after these announcements. -/
def arpLearn (cache : ArpCache) (heard : List (IpAddr × MacAddr)) : ArpCache :=
  heard.foldl (fun cache entry => arpCacheInsert cache entry.1 entry.2) cache

/-- Slot 0 has `dst`, and an insertion of `ip` evicts it: every slot has another address. -/
def Displaces (cache : ArpCache) (ip dst : IpAddr) : Prop :=
  (∀ i, (cache i).valid = true ∧ (cache i).ip ≠ ip) ∧ ∀ i, i.val = 0 → (cache i).ip = dst

instance (cache : ArpCache) (ip dst : IpAddr) : Decidable (Displaces cache ip dst) :=
  inferInstanceAs (Decidable (_ ∧ _))

/-- An announcement evicts `dst`, and `dst` is not announced after it. -/
def Displaced (cache : ArpCache) (dst : IpAddr) : List (IpAddr × MacAddr) → Prop
  | [] => False
  | (ip, mac) :: rest =>
    (Displaces cache ip dst ∧ dst ∉ rest.map Prod.fst) ∨
      Displaced (arpCacheInsert cache ip mac) dst rest

instance decidableDisplaced (dst : IpAddr) :
    (heard : List (IpAddr × MacAddr)) → (cache : ArpCache) → Decidable (Displaced cache dst heard)
  | [], _ => inferInstanceAs (Decidable False)
  | (ip, mac) :: rest, cache =>
    have := decidableDisplaced dst rest (arpCacheInsert cache ip mac)
    inferInstanceAs (Decidable (_ ∨ _))

theorem displaced_cons {cache : ArpCache} {ip dst : IpAddr} {mac : MacAddr}
    {rest : List (IpAddr × MacAddr)} : Displaced cache dst ((ip, mac) :: rest) ↔
      (Displaces cache ip dst ∧ dst ∉ rest.map Prod.fst) ∨
        Displaced (arpCacheInsert cache ip mac) dst rest := Iff.rfl

section Cache

variable {cache : ArpCache} {i : Fin arpCacheSize} {ip dst : IpAddr}

theorem settled_of_arpLookup (missed : arpLookup cache dst = none) :
    (arpSlots cache).Settled dst := by
  rw [arpLookup_eq, SlotTable.get_eq_none] at missed
  exact .of_not_holds missed

/-- The slot an insertion overwrites has another address only if it evicts it. -/
theorem holds_chosen_iff (chosen : (arpSlots cache).Chosen i ip)
    (evicts : (∀ j, (arpSlots cache j).isSome ∧ ¬ (arpSlots cache).Holds j ip) → i = 0)
    (differ : ip ≠ dst) : (arpSlots cache).Holds i dst ↔ Displaces cache ip dst := by
  have busy : (∀ j, (arpSlots cache j).isSome ∧ ¬ (arpSlots cache).Holds j ip) ↔
      ∀ j, (cache j).valid = true ∧ (cache j).ip ≠ ip := by
    refine forall_congr' fun j => ?_
    rw [arpSlots_isSome, arpSlots_holds]
    exact and_congr_right fun valid => not_congr (and_iff_right valid)
  constructor
  · intro holds
    rcases chosen.here with free | own | full
    · have used := holds.isSome
      rw [free] at used
      cases used
    · exact absurd (own.key_eq holds) differ
    · refine ⟨busy.mp full, fun j zero => ?_⟩
      have first : j = 0 := Fin.ext zero
      rw [first, ← evicts full]
      exact (arpSlots_holds.mp holds).2
  · intro displaces
    obtain ⟨full, slot⟩ := displaces
    rw [evicts (busy.mpr full)]
    exact arpSlots_holds.mpr ⟨(full 0).1, slot 0 rfl⟩

theorem settled_arpCacheInsert (settled : (arpSlots cache).Settled dst) (ip : IpAddr)
    (mac : MacAddr) : (arpSlots (arpCacheInsert cache ip mac)).Settled dst := by
  obtain ⟨i, put, chosen, _⟩ := arpCacheInsert_cases cache ip mac
  rw [put]
  exact settled.put chosen

/-- Another address is looked up as before, unless it is evicted. -/
theorem arpLookup_arpCacheInsert_of_ne (settled : (arpSlots cache).Settled dst)
    (differ : ip ≠ dst) (mac : MacAddr) :
    arpLookup (arpCacheInsert cache ip mac) dst =
      if Displaces cache ip dst then none else arpLookup cache dst := by
  obtain ⟨i, put, chosen, evicts⟩ := arpCacheInsert_cases cache ip mac
  have slot := holds_chosen_iff chosen evicts differ
  rw [arpLookup_eq, arpLookup_eq, put]
  split
  · rename_i displaces
    exact settled.get_put_of_holds differ (slot.mpr displaces)
  · rename_i kept
    exact settled.get_put_of_not_holds chosen differ fun holds => kept (slot.mp holds)

theorem not_displaces_self : ¬ Displaces cache dst dst := fun displaces =>
  (displaces.1 0).2 (displaces.2 0 rfl)

/-- After any announcements an address has the MAC it was last announced with, or the one
it had, or none if it has been displaced. -/
theorem arpLookup_arpLearn (settled : (arpSlots cache).Settled dst)
    (heard : List (IpAddr × MacAddr)) :
    arpLookup (arpLearn cache heard) dst =
      if Displaced cache dst heard then none
      else (lastWrite heard dst).or (arpLookup cache dst) := by
  induction heard generalizing cache with
  | nil => exact (if_neg id).symm
  | cons entry rest ih =>
    obtain ⟨ip, mac⟩ := entry
    have later := ih (settled_arpCacheInsert settled ip mac)
    rw [show arpLearn cache ((ip, mac) :: rest) = arpLearn (arpCacheInsert cache ip mac) rest from
      rfl, later, lastWrite_cons,
      if_congr displaced_cons rfl rfl]
    by_cases evicted : Displaced (arpCacheInsert cache ip mac) dst rest
    · rw [if_pos evicted, if_pos (.inr evicted)]
    rw [if_neg evicted]
    by_cases again : dst ∈ rest.map Prod.fst
    · obtain ⟨last, found⟩ : ∃ last, lastWrite rest dst = some last :=
        Option.ne_none_iff_exists'.mp fun missing =>
          lastWrite_eq_none.mp missing (List.mem_eraseDups.mpr again)
      rw [if_neg (not_or.mpr ⟨fun now => now.2 again, evicted⟩), found]
      rfl
    · have unheard : lastWrite rest dst = none :=
        lastWrite_eq_none.mpr fun member => again (List.mem_eraseDups.mp member)
      rw [unheard, Option.none_or, Option.none_or]
      by_cases same : ip = dst
      · subst same
        rw [arpLookup_arpCacheInsert, if_pos rfl,
          if_neg (not_or.mpr ⟨fun now => not_displaces_self now.1, evicted⟩)]
        rfl
      · rw [arpLookup_arpCacheInsert_of_ne settled same, if_neg same, Option.none_or]
        exact if_congr ⟨fun now => .inl ⟨now, again⟩, fun now =>
          (now.resolve_right evicted).1⟩ rfl rfl

/-- Only an address that is announced is displaced, if it was not known before. -/
theorem Displaced.announced {heard : List (IpAddr × MacAddr)} (missed : arpLookup cache dst = none)
    (displaced : Displaced cache dst heard) : dst ∈ heard.map Prod.fst := by
  induction heard generalizing cache with
  | nil => exact absurd displaced id
  | cons entry rest ih =>
    obtain ⟨ip, mac⟩ := entry
    rw [List.map_cons, List.mem_cons]
    by_cases same : ip = dst
    · exact .inl same.symm
    · right
      have known : ¬ Displaces cache ip dst := fun displaces => by
        rw [arpLookup_eq, SlotTable.get_eq_none] at missed
        exact missed 0 (arpSlots_holds.mpr ⟨(displaces.1 0).1, displaces.2 0 rfl⟩)
      refine ih ?_ (displaced.resolve_left fun now => known now.1)
      rw [arpLookup_arpCacheInsert_of_ne (settled_of_arpLookup missed) same, if_neg known, missed]

end Cache

/-! ## What a poll hears -/

/-- The sender of the ARP packet in a frame, if `arp_handle` takes one from it. -/
def arpSenderIn (netIp : IpAddr) (len : UInt16) (mem : Nat → UInt8) : Option (IpAddr × MacAddr) :=
  match (ethProcess netIp 0 len).run mem with
  | some (.arp pkt plen) =>
    if plen.toNat < arpPktSize then none
    else some (ArpCall.senderIp ⟨mem, pkt, plen⟩, ArpCall.senderMac ⟨mem, pkt, plen⟩)
  | _ => none

/-- What an event announces. -/
def announcedBy (st : NetState) (event : Option RxFrame) : List (IpAddr × MacAddr) :=
  match event with
  | none => []
  | some f => (arpSenderIn st.ip f.len (overlay st.pktBuf f.bytes)).toList

theorem icmpHandle_arpCache (st : NetState) (mem : Nat → UInt8) (srcIp : IpAddr) (pkt : Nat)
    (len : UInt16) : ((icmpHandle st srcIp pkt len).run mem).1.arpCache = st.arpCache := by
  rw [run_icmpHandle]
  split
  · rfl
  split
  · rfl
  split
  · rfl
  · rfl

theorem ethReceive_arpCache (st : NetState) (mem : Nat → UInt8) (len : UInt16) :
    ((ethReceive st len).run mem).1.arpCache =
      arpLearn st.arpCache (arpSenderIn st.ip len mem).toList := by
  rw [ethReceive, Load.run_bind, arpSenderIn]
  cases (ethProcess st.ip 0 len).run mem with
  | none => rfl
  | some call =>
    cases call with
    | arp pkt plen =>
      simp only [NetCall.exec, Load.run_bind, Load.run_pure]
      refine (ArpCall.exec_arpCache st ⟨mem, pkt, plen⟩).trans ?_
      split
      · rfl
      · rfl
    | icmp srcIp pkt plen => exact icmpHandle_arpCache st mem srcIp pkt plen
    | udp srcIp pkt plen => rfl

/-- A step of the poll machine teaches the cache what it hears. -/
theorem pollStep_arpCache (s : PollState) (event : Option RxFrame) :
    (pollStep s event).net.arpCache = arpLearn s.net.arpCache (announcedBy s.net event) := by
  cases event with
  | none =>
    rw [pollStep, pollIdle]
    split
    · rfl
    · rw [PollState.resume_net]
      exact (ipSendResume_outputOnly _ _).arpCache
  | some f =>
    have handled := ethReceive_arpCache { s.net with pktBuf := overlay s.net.pktBuf f.bytes }
      (overlay s.net.pktBuf f.bytes) f.len
    rw [pollStep, pollFrame]
    rcases ran : (ethReceive { s.net with pktBuf := overlay s.net.pktBuf f.bytes } f.len).run
      (overlay s.net.pktBuf f.bytes) with ⟨st, _ | args⟩
    · simp only [ran] at handled ⊢
      exact handled
    · simp only [ran] at handled ⊢
      rw [PollState.resume_net]
      exact (ipSend_outputOnly st args).arpCache.trans handled

/-! ## A call of `ip_send` -/

/-- A call of `ip_send`: it is in a `net_poll` of its ARP wait, or it has returned. -/
inductive IpSendRun
  | waiting (poll : PollState) (wait : IpWait)
  | returned (ret : Int) (net : NetState)

def IpSendRun.ofStatus : IpSendStatus × NetState → IpSendRun
  | (.returned ret, st) => .returned ret st
  | (.polling wait, st) => .waiting ⟨st, []⟩ wait

def IpSendRun.net : IpSendRun → NetState
  | .waiting poll _ => poll.net
  | .returned _ st => st

/-- One return of `rtl_recv`: if nothing was received and no call of `ip_send` inside the
`net_poll` waits, the `net_poll` returns to this one. -/
def ipSendStep (run : IpSendRun) (event : Option RxFrame) : IpSendRun :=
  match run, event with
  | .returned ret st, _ => .returned ret st
  | .waiting ⟨st, []⟩ wait, none => .ofStatus (ipSendResume st wait)
  | .waiting poll wait, event => .waiting (pollStep poll event) wait

def ipSendRun (run : IpSendRun) (events : List (Option RxFrame)) : IpSendRun :=
  events.foldl ipSendStep run

def ipSendStart (st : NetState) (args : IpSendArgs) : IpSendRun := .ofStatus (ipSend st args)

theorem ipSendStart_missed {st : NetState} {args : IpSendArgs} (unicast : args.dst ≠ broadcastIp)
    (missed : arpLookup st.arpCache args.dst = none) :
    ipSendStart st args = .waiting ⟨arpSendRequest st args.dst, []⟩ ⟨args, 499999⟩ := by
  rw [ipSendStart, ipSend, if_neg unicast, missed]
  rfl

/-- What a waiting call hears in an event. -/
def heardIn : IpSendRun → Option RxFrame → List (IpAddr × MacAddr)
  | .waiting poll _, event => announcedBy poll.net event
  | .returned _ _, _ => []

/-- The ARP packets processed during the wait, in order. -/
def arpHeard (run : IpSendRun) : List (Option RxFrame) → List (IpAddr × MacAddr)
  | [] => []
  | event :: events => heardIn run event ++ arpHeard (ipSendStep run event) events

section Run

variable {run : IpSendRun} {poll : PollState} {wait : IpWait} {event : Option RxFrame}
  {st net : NetState} {args : IpSendArgs} {ret : Int}

theorem IpSendRun.ofStatus_net (outcome : IpSendStatus × NetState) :
    (IpSendRun.ofStatus outcome).net = outcome.2 := by
  obtain ⟨status, st⟩ := outcome
  cases status <;> rfl

/-- A step that does not return to this call. -/
theorem ipSendStep_inner (inner : event ≠ none ∨ poll.waits ≠ []) :
    ipSendStep (.waiting poll wait) event = .waiting (pollStep poll event) wait := by
  obtain ⟨st, waits⟩ := poll
  cases waits with
  | cons => rfl
  | nil =>
    cases event with
    | some f => rfl
    | none => exact absurd inner (by simp)

theorem ipSendStep_arpCache (run : IpSendRun) (event : Option RxFrame) :
    (ipSendStep run event).net.arpCache = arpLearn run.net.arpCache (heardIn run event) := by
  cases run with
  | returned ret st => rfl
  | waiting poll wait =>
    by_cases outer : event = none ∧ poll.waits = []
    · obtain ⟨st, waits⟩ := poll
      obtain ⟨rfl, rfl⟩ := outer
      refine (congrArg NetState.arpCache (IpSendRun.ofStatus_net _)).trans ?_
      exact (ipSendResume_outputOnly st wait).arpCache
    · rw [ipSendStep_inner (not_and_or.mp outer)]
      exact pollStep_arpCache poll event

theorem arpLearn_append (cache : ArpCache) (first second : List (IpAddr × MacAddr)) :
    arpLearn cache (first ++ second) = arpLearn (arpLearn cache first) second :=
  List.foldl_append

theorem ipSendRun_arpCache (run : IpSendRun) (events : List (Option RxFrame)) :
    (ipSendRun run events).net.arpCache = arpLearn run.net.arpCache (arpHeard run events) := by
  induction events generalizing run with
  | nil => rfl
  | cons event events ih =>
    rw [arpHeard, arpLearn_append, ← ipSendStep_arpCache]
    exact ih (ipSendStep run event)

/-- The call resolves this address for these arguments. -/
def SendsFor (args : IpSendArgs) : IpSendRun → Prop
  | .waiting _ wait => wait.args = args
  | .returned _ _ => True

theorem ipSendStep_sendsFor (sends : SendsFor args run) (event : Option RxFrame) :
    SendsFor args (ipSendStep run event) := by
  cases run with
  | returned ret st => trivial
  | waiting poll wait =>
    by_cases outer : event = none ∧ poll.waits = []
    · obtain ⟨st, waits⟩ := poll
      obtain ⟨rfl, rfl⟩ := outer
      simp only [ipSendStep, ipSendResume]
      split
      · trivial
      split
      · trivial
      · exact sends
    · rw [ipSendStep_inner (not_and_or.mp outer)]
      exact sends

theorem ipSendRun_sendsFor (sends : SendsFor args run) (events : List (Option RxFrame)) :
    SendsFor args (ipSendRun run events) := by
  induction events generalizing run with
  | nil => exact sends
  | cons event events ih => exact ih (ipSendStep_sendsFor sends event)

theorem ipSendRun_returned (events : List (Option RxFrame)) :
    ipSendRun (.returned ret st) events = .returned ret st := by
  induction events with
  | nil => rfl
  | cons event events ih => exact ih

/-- A call that waits did not find its destination, and has not lost its arguments. -/
theorem ipSendRun_waiting {events : List (Option RxFrame)}
    (waiting : ipSendRun (ipSendStart st args) events = .waiting poll wait) :
    arpLookup st.arpCache args.dst = none ∧ wait.args = args ∧
      poll.net.arpCache = arpLearn st.arpCache (arpHeard (ipSendStart st args) events) := by
  have cache := ipSendRun_arpCache (ipSendStart st args) events
  rw [waiting, ipSendStart, IpSendRun.ofStatus_net, (ipSend_outputOnly st args).arpCache] at cache
  rcases begun : ipSend st args with ⟨ret | wait₀, st₀⟩
  · rw [ipSendStart, begun, IpSendRun.ofStatus, ipSendRun_returned] at waiting
    cases waiting
  · have begun' := begun
    unfold ipSend at begun
    split at begun
    · cases begun
    split at begun
    · cases begun
    rename_i missed
    obtain ⟨rfl, rfl⟩ := begun
    have sends : SendsFor args (ipSendStart st args) := by
      rw [ipSendStart, begun']
      exact rfl
    have kept := ipSendRun_sendsFor sends events
    rw [waiting] at kept
    exact ⟨missed, kept, cache⟩

/-- The call returns from its own poll only. -/
theorem ipSendStep_returned (returns : ipSendStep (.waiting poll wait) event = .returned ret net) :
    ipSendResume poll.net wait = (.returned ret, net) := by
  by_cases outer : event = none ∧ poll.waits = []
  · obtain ⟨st, waits⟩ := poll
    obtain ⟨rfl, rfl⟩ := outer
    rw [ipSendStep] at returns
    rcases resumed : ipSendResume st wait with ⟨ret' | wait', st'⟩
    · rw [resumed, IpSendRun.ofStatus] at returns
      injection returns with retEq netEq
      rw [retEq, netEq]
    · rw [resumed, IpSendRun.ofStatus] at returns
      cases returns
  · rw [ipSendStep_inner (not_and_or.mp outer)] at returns
    cases returns

end Run

/-! ## Every wait ends -/

/-- The polls a call waits for at most. -/
def IpSendRun.idles : IpSendRun → Nat
  | .waiting poll wait => (poll.waits.map fun inner => inner.left + 1).sum + (wait.left + 1)
  | .returned _ _ => 0

theorem ipSendResume_left {st st' : NetState} {wait wait' : IpWait}
    (polls : ipSendResume st wait = (.polling wait', st')) : wait.left = wait'.left + 1 := by
  unfold ipSendResume at polls
  split at polls
  · cases polls
  split at polls
  · cases polls
  · rename_i left count
    injection polls with status
    injection status with same
    rw [count, ← same]

theorem ipSendStep_idles {poll : PollState} {wait : IpWait} :
    (ipSendStep (.waiting poll wait) none).idles < (IpSendRun.waiting poll wait).idles := by
  obtain ⟨st, waits⟩ := poll
  cases waits with
  | nil =>
    rw [ipSendStep]
    rcases resumed : ipSendResume st wait with ⟨ret | wait', st'⟩
    · simp [IpSendRun.ofStatus, IpSendRun.idles]
    · have fewer := ipSendResume_left resumed
      simp only [IpSendRun.ofStatus, IpSendRun.idles]
      omega
  | cons inner waits =>
    rw [ipSendStep_inner (.inr (List.cons_ne_nil _ _)), pollStep, pollIdle]
    rcases resumed : ipSendResume st inner with ⟨ret | inner', st'⟩
    · simp [PollState.resume, IpSendRun.idles, resumed]
    · have fewer := ipSendResume_left resumed
      simp only [PollState.resume, IpSendRun.idles, resumed, List.map_cons, List.sum_cons]
      omega

/-- If nothing more is received the call returns. -/
theorem ipSendRun_returns (run : IpSendRun) :
    ∃ idles ret net, ipSendRun run (List.replicate idles none) = .returned ret net := by
  induction count : run.idles using Nat.strong_induction_on generalizing run with
  | _ _ ih =>
    cases run with
    | returned ret net => exact ⟨0, ret, net, rfl⟩
    | waiting poll wait =>
      obtain ⟨idles, ret, net, returned⟩ := ih _ (count ▸ ipSendStep_idles) _ rfl
      exact ⟨idles + 1, ret, net, returned⟩

/-! ## What a wait ends in -/

/-- A call of `ip_send` returns by handing its frame for `mac` to `net_send`, and prints
nothing; a card takes the frame if it fits. -/
structure TransmitsTo (st : NetState) (args : IpSendArgs) (mac : MacAddr) (ret : Int)
    (st' : NetState) : Prop where
  handed : (ret, st') = ipTransmit st mac args
  quiet : st'.out = st.out
  sent : st.iobase ≠ 0 → 34 + args.payload.length ≤ rtlTxBufSize →
    ret = 0 ∧ st'.sent = st.sent ++ [ipFrame st mac args]
  addressed : AddressedTo mac (ipFrame st mac args)

/-- The line a failed resolution prints. -/
def arpFailedLine (dst : IpAddr) : List UInt8 :=
  ascii "[NET] ARP failed for " ++ kprintIp dst ++ ascii "\n"

section Ends

variable {st st' : NetState} {wait : IpWait} {ret : Int} {mac : MacAddr}

theorem netSend_out (st : NetState) (frame : List UInt8) : (netSend st frame).2.out = st.out := by
  rcases netSend_cases st frame with same | sent
  · rw [same]
  · rw [sent]

/-- The wait ends with the destination in the cache. -/
theorem transmitsTo_of_found (found : arpLookup st.arpCache wait.args.dst = some mac)
    (returns : ipSendResume st wait = (.returned ret, st')) :
    TransmitsTo st wait.args mac ret st' := by
  simp only [ipSendResume, found] at returns
  injection returns with status net
  injection status with retEq
  subst retEq net
  refine ⟨rfl, netSend_out _ _, fun card fits => ?_, addressedTo_ipFrame⟩
  have length : (ipFrame st mac wait.args).length ≤ rtlTxBufSize := by
    rw [length_ipFrame]
    exact fits
  have takes : ¬ (st.iobase = 0 ∨ (ipFrame st mac wait.args).length > rtlTxBufSize) :=
    not_or.mpr ⟨card, Nat.not_lt.mpr length⟩
  rw [ipTransmit_eq (fits.trans_lt (by decide)), netSend, if_neg takes]
  exact ⟨rfl, rfl⟩

/-- The wait ends without it. -/
theorem fails_of_missed (missed : arpLookup st.arpCache wait.args.dst = none)
    (returns : ipSendResume st wait = (.returned ret, st')) :
    ret = -1 ∧ st'.sent = st.sent ∧ st'.out = st.out ++ arpFailedLine wait.args.dst := by
  simp only [ipSendResume, missed] at returns
  split at returns
  · injection returns with status net
    injection status with retEq
    subst retEq net
    refine ⟨rfl, rfl, ?_⟩
    simp only [arpFailedLine, List.append_assoc]
  · cases returns

theorem arpFailedLine_ne_nil (dst : IpAddr) : arpFailedLine dst ≠ [] := by
  intro empty
  have length := congrArg List.length empty
  simp only [arpFailedLine, List.length_append, List.length_nil] at length
  exact absurd (Nat.eq_zero_of_add_eq_zero_left length) (by decide)

end Ends

/-! ## An announcement -/

/-- An ARP reply in which `ip` announces `mac`. -/
def announcement (ip : IpAddr) (mac : MacAddr) : RxFrame where
  bytes :=
    let sender : NetState := { netInit mac 0 with ip := ip }
    arpFrame sender broadcastMac (arpPacket sender arpOpReply broadcastMac 0)
  nonempty := by
    rw [arpFrame, List.length_append, EthHdr.length_bytes, ArpPkt.length_bytes]
    decide
  short := by
    rw [arpFrame, List.length_append, EthHdr.length_bytes, ArpPkt.length_bytes]
    decide

theorem arpSenderIn_announcement (netIp ip : IpAddr) (mac : MacAddr) (buf : Nat → UInt8) :
    arpSenderIn netIp (announcement ip mac).len (overlay buf (announcement ip mac).bytes) =
      some (ip, mac) := by
  set sender : NetState := { netInit mac 0 with ip := ip } with sender_eq
  set packet := arpPacket sender arpOpReply broadcastMac 0 with packet_eq
  have bytes : (announcement ip mac).bytes = arpFrame sender broadcastMac packet := rfl
  let arrival : Arrival := ⟨buf, [], by decide⟩
  obtain ⟨_, macEq, ipEq, _⟩ := arpFrame_call arrival sender broadcastMac packet
  have long : arpPktSize ≤ (arrival.call (arpFrame sender broadcastMac packet)).len.toNat :=
    Arrival.call_long
  have etype : frameEtype (overlay buf (arpFrame sender broadcastMac packet)) = ethTypeArp := by
    rw [arpFrame, frameEtype_ethBuild]
  have size : ¬ (announcement ip mac).len.toNat < ethHdrSize := by
    rw [RxFrame.toNat_len, bytes, arpFrame, List.length_append, EthHdr.length_bytes]
    omega
  simp only [Arrival.call, arrival, List.append_nil] at macEq ipEq long
  rw [arpSenderIn, run_ethProcess, if_neg size, bytes, if_pos etype, RxFrame.len, bytes]
  simp only
  rw [if_neg (Nat.not_lt.mpr long), ipEq, macEq, packet_eq]
  simp only [arpPacket, ntohl_htonl]
  rfl

theorem pollFrame_waits {s : PollState} {f : RxFrame} {entry : IpAddr × MacAddr}
    (sender : arpSenderIn s.net.ip f.len (overlay s.net.pktBuf f.bytes) = some entry) :
    (pollFrame s f).waits = s.waits := by
  unfold arpSenderIn at sender
  split at sender
  · rename_i pkt plen dispatched
    simp only [pollFrame, ethReceive, Load.run_bind, dispatched, NetCall.exec, Load.run_pure]
  · cases sender

/-- A call that waits hears an announcement, and its cache learns it. -/
theorem ipSendStep_announcement (net : NetState) (wait : IpWait) (ip : IpAddr) (mac : MacAddr) :
    ∃ net', ipSendStep (.waiting ⟨net, []⟩ wait) (some (announcement ip mac)) =
        .waiting ⟨net', []⟩ wait ∧
      heardIn (.waiting ⟨net, []⟩ wait) (some (announcement ip mac)) = [(ip, mac)] ∧
      net'.arpCache = arpCacheInsert net.arpCache ip mac := by
  have sender := arpSenderIn_announcement net.ip ip mac net.pktBuf
  have waits : (pollFrame ⟨net, []⟩ (announcement ip mac)).waits = [] := pollFrame_waits sender
  obtain ⟨net', after⟩ : ∃ net', pollFrame ⟨net, []⟩ (announcement ip mac) = ⟨net', []⟩ :=
    ⟨_, congrArg (PollState.mk _) waits⟩
  have step : ipSendStep (.waiting ⟨net, []⟩ wait) (some (announcement ip mac)) =
      .waiting ⟨net', []⟩ wait := by
    rw [ipSendStep_inner (.inl (Option.some_ne_none _)), pollStep, after]
  have heard : heardIn (.waiting ⟨net, []⟩ wait) (some (announcement ip mac)) = [(ip, mac)] := by
    rw [heardIn, announcedBy, sender]
    rfl
  have cache := ipSendStep_arpCache (.waiting ⟨net, []⟩ wait) (some (announcement ip mac))
  rw [step, heard] at cache
  exact ⟨net', step, heard, cache⟩

/-- Polls that find nothing while the destination is not in the cache. -/
theorem ipSendRun_idle {net : NetState} {args : IpSendArgs}
    (missed : arpLookup net.arpCache args.dst = none) (left : Nat) :
    ipSendRun (.waiting ⟨net, []⟩ ⟨args, left⟩) (List.replicate left none) =
        .waiting ⟨net, []⟩ ⟨args, 0⟩ ∧
      arpHeard (.waiting ⟨net, []⟩ ⟨args, left⟩) (List.replicate left none) = [] := by
  induction left with
  | zero => exact ⟨rfl, rfl⟩
  | succ left ih =>
    have step : ipSendStep (.waiting ⟨net, []⟩ ⟨args, left + 1⟩) none =
        .waiting ⟨net, []⟩ ⟨args, left⟩ := by
      simp only [ipSendStep, ipSendResume, missed, IpSendRun.ofStatus]
    rw [List.replicate_succ, ipSendRun, List.foldl_cons, arpHeard, step]
    exact ih

/-! ## Resolution -/

/-- **ARP resolution.**  A call of `ip_send` that waits returns once nothing more is
received; of whatever it heard of its destination, it transmits to the MAC heard last
exactly if the destination has not been displaced. -/
theorem arp_resolution_kept_iff {st : NetState} {args : IpSendArgs}
    {events : List (Option RxFrame)} {poll : PollState} {wait : IpWait}
    (waiting : ipSendRun (ipSendStart st args) events = .waiting poll wait) :
    let heard := arpHeard (ipSendStart st args) events
    (∃ idles ret st', ipSendRun (.waiting poll wait) (List.replicate idles none) =
      .returned ret st') ∧
    ∀ event ret st', ipSendStep (.waiting poll wait) event = .returned ret st' →
      ((args.dst ∈ heard.map Prod.fst →
        ∃ mac, lastWrite heard args.dst = some mac ∧ TransmitsTo poll.net args mac ret st') ↔
      ¬ Displaced st.arpCache args.dst heard) := by
  intro heard
  obtain ⟨missed, rfl, cache⟩ := ipSendRun_waiting waiting
  refine ⟨ipSendRun_returns _, fun event ret st' returns => ?_⟩
  have resumed := ipSendStep_returned returns
  have lookup := arpLookup_arpLearn (settled_of_arpLookup missed) heard
  rw [← cache, missed, Option.or_none] at lookup
  constructor
  · intro kept displaced
    rw [if_pos displaced] at lookup
    obtain ⟨mac, _, transmits⟩ := kept (displaced.announced missed)
    obtain ⟨_, _, printed⟩ := fails_of_missed lookup resumed
    exact arpFailedLine_ne_nil _ (List.self_eq_append_right.mp (transmits.quiet.symm.trans printed))
  · intro kept announced
    rw [if_neg kept] at lookup
    rcases last : lastWrite heard wait.args.dst with _ | mac
    · exact absurd (List.mem_eraseDups.mpr announced) (lastWrite_eq_none.mp last)
    · exact ⟨mac, rfl, transmitsTo_of_found (lookup.trans last) resumed⟩

/-- An empty cache and one answer: `ip_send` transmits to it. -/
theorem arp_resolution_kept_reply :
    let mac : MacAddr := #v[0x52, 0x54, 0x00, 0x12, 0x34, 0x57]
    let st := netInit #v[0x52, 0x54, 0x00, 0x12, 0x34, 0x56] 0xC000
    let args : IpSendArgs := ⟨0x0A000203, ipProtoUdp, []⟩
    ∃ net ret st',
      ipSendRun (ipSendStart st args) [some (announcement 0x0A000203 mac)] =
        .waiting ⟨net, []⟩ ⟨args, 499999⟩ ∧
      ipSendStep (.waiting ⟨net, []⟩ ⟨args, 499999⟩) none = .returned ret st' ∧
      TransmitsTo net args mac ret st' := by
  intro mac st args
  have start := ipSendStart_missed (by decide : args.dst ≠ broadcastIp)
    (rfl : arpLookup st.arpCache args.dst = none)
  obtain ⟨net, answered, heard, cache⟩ := ipSendStep_announcement (arpSendRequest st args.dst)
    ⟨args, 499999⟩ 0x0A000203 mac
  have found : arpLookup net.arpCache args.dst = some mac := by
    rw [cache]
    exact arpLookup_arpCacheInsert _ _ _
  have waiting : ipSendRun (ipSendStart st args) [some (announcement 0x0A000203 mac)] =
      .waiting ⟨net, []⟩ ⟨args, 499999⟩ := by
    rw [ipSendRun, List.foldl_cons, start, answered]
    rfl
  have history : arpHeard (ipSendStart st args) [some (announcement 0x0A000203 mac)] =
      [(0x0A000203, mac)] := by
    rw [arpHeard, start, heard]
    rfl
  obtain ⟨ret, st', returns⟩ : ∃ ret st',
      ipSendStep (.waiting ⟨net, []⟩ ⟨args, 499999⟩) none = .returned ret st' := by
    simp only [ipSendStep, ipSendResume, found, IpSendRun.ofStatus]
    exact ⟨_, _, rfl⟩
  have kept := ((arp_resolution_kept_iff waiting).2 none ret st' returns).mpr
  rw [history] at kept
  obtain ⟨last, same, transmits⟩ := kept (by decide +kernel) (by decide)
  obtain rfl : mac = last := Option.some.inj same
  exact ⟨net, ret, st', waiting, returns, transmits⟩

/-- A full cache: 10.0.2.3 answers, 10.0.2.4 announces itself in the same batch and evicts
the answer from slot 0, and the wait runs out. -/
theorem arp_answer_evicted :
    let mac : MacAddr := #v[0x52, 0x54, 0x00, 0x12, 0x34, 0x57]
    let st : NetState := { netInit #v[0x52, 0x54, 0x00, 0x12, 0x34, 0x56] 0xC000 with
      arpCache := fun i => ⟨0x0A000264 + UInt32.ofNat i, mac, true⟩ }
    let args : IpSendArgs := ⟨0x0A000203, ipProtoUdp, []⟩
    let events := some (announcement 0x0A000203 mac) :: some (announcement 0x0A000204 mac) ::
      List.replicate 499999 none
    ∃ net net',
      ipSendRun (ipSendStart st args) events = .waiting ⟨net, []⟩ ⟨args, 0⟩ ∧
      arpHeard (ipSendStart st args) events = [(0x0A000203, mac), (0x0A000204, mac)] ∧
      ipSendStep (.waiting ⟨net, []⟩ ⟨args, 0⟩) none = .returned (-1) net' ∧
      net'.sent = net.sent ∧ net'.out = net.out ++ arpFailedLine 0x0A000203 := by
  intro mac st args events
  have missed : arpLookup st.arpCache args.dst = none := by decide +kernel
  have start := ipSendStart_missed (by decide : args.dst ≠ broadcastIp) missed
  have asked : (arpSendRequest st args.dst).arpCache = st.arpCache := netSend_arpCache _ _
  obtain ⟨net₁, answered, heard₁, cache₁⟩ := ipSendStep_announcement
    (arpSendRequest st args.dst) ⟨args, 499999⟩ 0x0A000203 mac
  obtain ⟨net₂, evicted, heard₂, cache₂⟩ := ipSendStep_announcement net₁ ⟨args, 499999⟩
    0x0A000204 mac
  have lost : arpLookup net₂.arpCache args.dst = none := by
    rw [cache₂, cache₁, asked]
    decide +kernel
  obtain ⟨waited, silent⟩ := ipSendRun_idle lost 499999
  refine ⟨net₂, { net₂ with out := net₂.out ++ arpFailedLine 0x0A000203 }, ?_, ?_, ?_, rfl, rfl⟩
  · rw [ipSendRun, List.foldl_cons, List.foldl_cons, start, answered, evicted]
    exact waited
  · rw [arpHeard, arpHeard, start, answered, evicted, heard₁, heard₂, silent]
    rfl
  · simp only [ipSendStep, ipSendResume, lost, IpSendRun.ofStatus, arpFailedLine, List.append_assoc]
    rfl

end MOKernel
