import MOKernel.NetBounds
import MOKernel.IpFrame
import MOKernel.RxRing

/-!
# Polling

`net_poll` takes frames until `rtl_recv` returns 0.  A frame can make `icmp_handle`
call `ip_send`, and an `ip_send` that has to resolve its destination calls `net_poll`
again, so the calls nest.  A `PollState` is the state at a call of `rtl_recv`: the
globals and the waiting activations of `ip_send`, innermost first.  `pollStep` is the
code from one return of `rtl_recv` to its next call: with a frame, `net_poll` processes
it; without one, the innermost `net_poll` returns to the `ip_send` that called it.  Any
list of events is a choice of what each poll finds.
-/

namespace MOKernel

structure PollState where
  net : NetState
  waits : List IpWait

/-- The state after a stretch of an `ip_send` called above `waits`. -/
def PollState.resume (waits : List IpWait) : IpSendStatus × NetState → PollState
  | (.returned _, st) => ⟨st, waits⟩
  | (.polling wait, st) => ⟨st, wait :: waits⟩

theorem PollState.resume_net (waits : List IpWait) (outcome : IpSendStatus × NetState) :
    (PollState.resume waits outcome).net = outcome.2 := by
  obtain ⟨status, st⟩ := outcome
  cases status <;> rfl

/-- `rtl_recv` has copied a frame to `pkt_buf`: `eth_process`. -/
def pollFrame (s : PollState) (f : RxFrame) : PollState :=
  let buf := overlay s.net.pktBuf f.bytes
  match (ethReceive { s.net with pktBuf := buf } f.len).run buf with
  | (st, none) => ⟨st, s.waits⟩
  | (st, some args) => PollState.resume s.waits (ipSend st args)

/-- `rtl_recv` has returned 0: the innermost `net_poll` returns. -/
def pollIdle (s : PollState) : PollState :=
  match s.waits with
  | [] => s
  | wait :: waits => PollState.resume waits (ipSendResume s.net wait)

def pollStep (s : PollState) : Option RxFrame → PollState
  | some f => pollFrame s f
  | none => pollIdle s

def pollRun (s : PollState) (events : List (Option RxFrame)) : PollState :=
  events.foldl pollStep s

/-- A call of `net_poll` from outside the stack, with nothing transmitted yet. -/
def pollStart (net : NetState) : PollState := ⟨{ net with sent := [] }, []⟩

/-- The frames received, in order. -/
def received (events : List (Option RxFrame)) : List RxFrame := events.filterMap id

@[simp] theorem pollRun_append (s : PollState) (events : List (Option RxFrame))
    (event : Option RxFrame) :
    pollRun s (events ++ [event]) = pollStep (pollRun s events) event := by
  simp [pollRun]

@[simp] theorem received_append_frame (events : List (Option RxFrame)) (f : RxFrame) :
    received (events ++ [some f]) = received events ++ [f] := by
  simp [received]

@[simp] theorem received_append_idle (events : List (Option RxFrame)) :
    received (events ++ [none]) = received events := by
  simp [received]

/-! ## A frame does not depend on what `pkt_buf` held -/

/-- The bytes of a frame, zero after its end. -/
def bytesOf (frame : List UInt8) : Nat → UInt8 := overlay (fun _ => 0) frame

/-- A frame as a frame without padding over zeros. -/
theorem bytesOf_eq_append (frame : List UInt8) :
    bytesOf frame = overlay (fun _ => 0) (frame ++ []) := by
  rw [List.append_nil, bytesOf]

/-- The header fields agree with the length if the frame is an IPv4 frame for `netIp`. -/
def WellSized (netIp : IpAddr) (frame : List UInt8) : Prop :=
  IpFrameFor (bytesOf frame) netIp frame.length → LengthsAgree (bytesOf frame) frame.length

instance (netIp : IpAddr) (frame : List UInt8) : Decidable (WellSized netIp frame) :=
  inferInstanceAs (Decidable (_ → _))

theorem overlay_eq_bytesOf {buf : Nat → UInt8} {frame : List UInt8} {i : Nat}
    (lt : i < frame.length) : overlay buf frame i = bytesOf frame i := by
  rw [bytesOf, overlay_of_lt lt, overlay_of_lt lt]

/-- A frame whose header fields agree with its length is processed the same over any
content of the buffer. -/
theorem ethReceive_overlay {st : NetState} {f : RxFrame} (sized : WellSized st.ip f.bytes)
    (buf : Nat → UInt8) :
    (ethReceive st f.len).run (overlay buf f.bytes) =
      (ethReceive st f.len).run (bytesOf f.bytes) := by
  have agree : PassedOn (bytesOf f.bytes) st.ip f.len.toNat →
      LengthsAgree (bytesOf f.bytes) f.len.toNat := by
    rw [RxFrame.toNat_len]
    exact fun passed => sized passed.frame
  have inside := ethReceive_readsIn (call_within agree)
  refine (Load.run_congr fun i member => overlay_eq_bytesOf ?_).1
  have lt := inside i member
  rwa [RxFrame.toNat_len] at lt

end MOKernel
