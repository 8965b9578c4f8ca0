import MOKernel.Interrupts
import MOKernel.PortIo

/-!
# From the devices to the handlers

The keyboard and the mouse share the output buffer of one controller.  A byte that enters the
buffer is an edge at the line of its device; a handler that runs reads the status and the
buffer and ends the interrupt, access by access, while the devices go on.  Only accesses to
the 8042 and to the interrupt controllers, which are connected in any case, are steps of
their own; the rest of a handler, with what it sends to the serial port and the network
card, is one step.

Every run is a run of the coarser model of `Interrupts` with steps in between that this
model does not see, so its invariant holds here.  `InputInv.step` says what a step does to
the buffer, to the latched edges of the two devices and to what the handlers were given.
-/

namespace MOKernel

attribute [local instance] neZero_picLines

/-! ## The handlers -/

/-- What a handler does apart from its port accesses: `timer_ticks++`, or the rest of the
keyboard's or the mouse's handler on what has been read. -/
inductive InputCall
  | tick
  | keyboard (status keycode : UInt8)
  | mouse (status byte : UInt8)

/-- `timer_handler_main`. -/
def timerHandlerPorts : PortIo InputCall Unit := do
  .report .tick
  .writePort 0x20 0x20

/-- The accesses of `keyboard_handler_main` to the controllers; the rest of it is reported. -/
def keyboardHandlerPorts : PortIo InputCall Unit := do
  .writePort 0x20 0x20
  let status ← .readPort 0x64
  if status &&& 0x01 ≠ 0 then
    let keycode ← .readPort 0x60
    .report (.keyboard status keycode)

/-- The port accesses of `mouse_handler_main`; what it does in memory is reported. -/
def mouseHandlerPorts : PortIo InputCall Unit := do
  let status ← .readPort 0x64
  if status &&& 1 = 0 then
    .writePort 0xA0 0x20
    .writePort 0x20 0x20
  else
    let byte ← .readPort 0x60
    .report (.mouse status byte)
    .writePort 0xA0 0x20
    .writePort 0x20 0x20

/-- A page fault is no interrupt of the controllers. -/
def Isr.ports : Isr → PortIo InputCall Unit
  | .timer => timerHandlerPorts
  | .keyboard => keyboardHandlerPorts
  | .mouse => mouseHandlerPorts
  | .pageFault => pure ()

/-! ## The system -/

inductive Ps2Source
  | keyboard
  | mouse
deriving DecidableEq

def Ps2Source.line : Ps2Source → Fin 16
  | .keyboard => 1
  | .mouse => 12

/-- A read of the controller with this output buffer: the port, the byte, the buffer after it.
A status has any bits but the first, which says whether the buffer is full. -/
inductive Ps2Read (buffer : Option (Ps2Source × UInt8)) :
    UInt16 → UInt8 → Option (Ps2Source × UInt8) → Prop
  | status {b : UInt8} : (b &&& 1 ≠ 0 ↔ buffer.isSome) → Ps2Read buffer 0x64 b buffer
  | data {src : Ps2Source} {b : UInt8} : buffer = some (src, b) → Ps2Read buffer 0x60 b none
  | stale {b : UInt8} : buffer = none → Ps2Read buffer 0x60 b none

/-- `running` is what the handler that was entered has still to do; `sent` are the bytes that
have entered the buffer. -/
structure InputState where
  pics : PicPair
  enabled : Bool
  running : PortIo InputCall Unit
  buffer : Option (Ps2Source × UInt8)
  faulted : Bool
  log : List IrqEvent
  sent : List (Ps2Source × UInt8)
  calls : List InputCall

/-- After `load_idt`. -/
def inputBoot (pics : PicPair) (buffer : Option (Ps2Source × UInt8)) : InputState :=
  ⟨pics.writePorts picRemap, true, pure (), buffer, false, [], [], []⟩

/-- What the processor does, on controllers that are connected in any case. -/
inductive InputServe (gates : UInt8 → Gate) (address : Isr → UInt32) (s : InputState) :
    InputState → Prop
  | accept {v : UInt8} {pics : PicPair} {isr : Isr} : s.enabled = true → s.faulted = false →
    s.pics.acknowledge .fixed = some (v, pics) → (gates v).Present → (gates v).Disables →
    (gates v).offset = address isr →
    InputServe gates address s { s with
      pics := pics
      enabled := false
      running := isr.ports
      log := s.log ++ [.served v isr] }
  | fault {v : UInt8} {pics : PicPair} : s.enabled = true → s.faulted = false →
    s.pics.acknowledge .fixed = some (v, pics) → ¬(gates v).Present →
    InputServe gates address s { s with pics := pics, faulted := true }
  | read {port : UInt16} {b : UInt8} {next : UInt8 → PortIo InputCall Unit}
      {buffer : Option (Ps2Source × UInt8)} :
    s.running = .read port next → Ps2Read s.buffer port b buffer →
    InputServe gates address s { s with running := next b, buffer := buffer }
  | write {port : UInt16} {b : UInt8} {next : PortIo InputCall Unit} :
    s.running = .write port b next →
    InputServe gates address s { s with pics := s.pics.writePort port b, running := next }
  | report {call : InputCall} {next : PortIo InputCall Unit} : s.running = .emit call next →
    InputServe gates address s { s with running := next, calls := s.calls ++ [call] }
  | iret : s.enabled = false → s.running = .done () →
    InputServe gates address s { s with enabled := true }

/-- A byte enters the empty buffer, an edge at another line, or a step of the processor. -/
inductive InputStep (gates : UInt8 → Gate) (address : Isr → UInt32) (s : InputState) :
    InputState → Prop
  | byte {src : Ps2Source} {b : UInt8} : s.buffer = none → InputStep gates address s { s with
      pics := s.pics.raise src.line
      buffer := some (src, b)
      log := s.log ++ [.raised src.line]
      sent := s.sent ++ [(src, b)] }
  | raise {line : Fin 16} : line ≠ 2 → (∀ src : Ps2Source, line ≠ src.line) →
    InputStep gates address s
      { s with pics := s.pics.raise line, log := s.log ++ [.raised line] }
  | serve {s' : InputState} : InputServe gates address s s' → InputStep gates address s s'

/-! ## The coarser model -/

/-- The writes that a handler has still to make; they do not depend on what it reads. -/
def portWrites : PortIo InputCall Unit → List (UInt16 × UInt8)
  | .done _ => []
  | .read _ next => portWrites (next 0)
  | .write port b next => (port, b) :: portWrites next
  | .emit _ next => portWrites next

/-- The state of the controllers and the processor alone. -/
def InputState.irq (s : InputState) : IrqState :=
  ⟨s.pics, s.enabled, portWrites s.running, s.faulted, s.log⟩

theorem portWrites_ports (isr : Isr) : portWrites isr.ports = isr.picWrites := by
  cases isr <;> rfl

def keyStatus (status : UInt8) : PortIo InputCall Unit :=
  if status &&& 0x01 ≠ 0 then .read 0x60 fun keycode => .emit (.keyboard status keycode) (.done ())
  else .done ()

def mouseEois : PortIo InputCall Unit := .write 0xA0 0x20 (.write 0x20 0x20 (.done ()))

def mouseStatus (status : UInt8) : PortIo InputCall Unit :=
  if status &&& 1 = 0 then mouseEois
  else .read 0x60 fun byte => .emit (.mouse status byte) mouseEois

/-- Where a handler can be.  `waiting` is the device whose byte it is to read, `hand` the byte
that it has read. -/
inductive InputStage :
    PortIo InputCall Unit → (waiting : Option Ps2Source) →
      (hand : Option (Ps2Source × UInt8)) → Prop
  | idle : InputStage (.done ()) none none
  | masterEoi : InputStage (.write 0x20 0x20 (.done ())) none none
  | slaveEoi : InputStage (.write 0xA0 0x20 (.write 0x20 0x20 (.done ()))) none none
  | tick : InputStage (.emit .tick (.write 0x20 0x20 (.done ()))) none none
  | key : InputStage (.write 0x20 0x20 (.read 0x64 keyStatus)) (some .keyboard) none
  | keyStatus : InputStage (.read 0x64 keyStatus) (some .keyboard) none
  | keyData {status : UInt8} : status &&& 1 ≠ 0 → InputStage
    (.read 0x60 fun keycode => .emit (.keyboard status keycode) (.done ())) (some .keyboard) none
  | keyReport {status keycode : UInt8} : status &&& 1 ≠ 0 →
    InputStage (.emit (.keyboard status keycode) (.done ())) none (some (.keyboard, keycode))
  | mouseStatus : InputStage (.read 0x64 mouseStatus) (some .mouse) none
  | mouseData {status : UInt8} : status &&& 1 ≠ 0 → InputStage
    (.read 0x60 fun byte => .emit (.mouse status byte) mouseEois) (some .mouse) none
  | mouseReport {status byte : UInt8} : status &&& 1 ≠ 0 →
    InputStage (.emit (.mouse status byte) mouseEois) none (some (.mouse, byte))

/-- The device whose byte a handler is to read. -/
def Isr.source : Isr → Option Ps2Source
  | .keyboard => some .keyboard
  | .mouse => some .mouse
  | _ => none

theorem inputStage_ports {isr : Isr} (line : isr.line ≠ none) :
    InputStage isr.ports isr.source none := by
  cases isr with
  | timer => exact .tick
  | keyboard => exact .key
  | mouse => exact .mouseStatus
  | pageFault => exact absurd rfl line

/-- The byte that a call has. -/
def InputCall.byte : InputCall → Option (Ps2Source × UInt8)
  | .tick => none
  | .keyboard _ keycode => some (.keyboard, keycode)
  | .mouse _ byte => some (.mouse, byte)

/-- The status that a call has says that the byte is one. -/
def InputCall.Ready : InputCall → Prop
  | .tick => True
  | .keyboard status _ => status &&& 1 ≠ 0
  | .mouse status _ => status &&& 1 ≠ 0

/-! ## One step -/

/-- What a step does to the buffer, the latched edges of the two devices and the calls. -/
inductive InputChange (s s' : InputState) : Option Ps2Source → Option (Ps2Source × UInt8) →
    Option Ps2Source → Option (Ps2Source × UInt8) → Prop
  | byte {w : Option Ps2Source} {h : Option (Ps2Source × UInt8)} {src : Ps2Source} {b : UInt8} :
    s.buffer = none → s'.buffer = some (src, b) → s'.sent = s.sent ++ [(src, b)] →
    s'.calls = s.calls →
      (∀ l : Ps2Source, s'.pics.Pending l.line ↔ l = src ∨ s.pics.Pending l.line) →
    InputChange s s' w h w h
  | quiet {w : Option Ps2Source} {h : Option (Ps2Source × UInt8)} : s'.buffer = s.buffer →
    s'.sent = s.sent → s'.calls = s.calls →
    (∀ l : Ps2Source, s'.pics.Pending l.line ↔ s.pics.Pending l.line) → InputChange s s' w h w h
  | enter {src : Ps2Source} : s'.buffer = s.buffer → s'.sent = s.sent → s'.calls = s.calls →
    s.pics.Pending src.line →
    (∀ l : Ps2Source, s'.pics.Pending l.line ↔ s.pics.Pending l.line ∧ l ≠ src) →
    InputChange s s' none none (some src) none
  | data {src : Ps2Source} {b : UInt8} : (∀ l c, s.buffer = some (l, c) → b = c) →
    s'.buffer = none → s'.sent = s.sent → s'.calls = s.calls → s'.pics = s.pics →
    InputChange s s' (some src) none none (some (src, b))
  | missed {src : Ps2Source} : s.buffer = none → s'.buffer = none → s'.sent = s.sent →
    s'.calls = s.calls → s'.pics = s.pics → InputChange s s' (some src) none none none
  | report {h : Option (Ps2Source × UInt8)} {call : InputCall} : call.byte = h → call.Ready →
    s'.buffer = s.buffer → s'.sent = s.sent → s'.calls = s.calls ++ [call] → s'.pics = s.pics →
    InputChange s s' none h none none

theorem Isr.line_of_source {isr : Isr} {src : Ps2Source} (own : isr.source = some src) :
    isr.line = some src.line := by
  cases isr with
  | keyboard =>
    obtain rfl := Option.some.inj own
    rfl
  | mouse =>
    obtain rfl := Option.some.inj own
    rfl
  | timer => cases own
  | pageFault => cases own

/-- A handler's line is its device's, or no device's. -/
theorem Isr.line_of_source_none {isr : Isr} (own : isr.source = none) (l : Ps2Source) :
    isr.line ≠ some l.line := by
  cases isr with
  | keyboard => cases own
  | mouse => cases own
  | timer => cases l <;> decide
  | pageFault => cases l <;> decide

theorem Ps2Source.line_injective : Function.Injective Ps2Source.line := by
  intro a b same
  cases a <;> cases b <;> first | rfl | exact absurd same (by decide)

/-- What holds in every run, whatever was in the buffer. -/
structure InputInv (s : InputState) (w : Option Ps2Source) (h : Option (Ps2Source × UInt8)) :
    Prop where
  irq : IrqInv s.irq
  stage : InputStage s.running w h
  halted : s.enabled = true → s.running = .done ()

section Steps

variable {gates : UInt8 → Gate} {address : Isr → UInt32} {s s' : InputState}
  {w : Option Ps2Source} {h : Option (Ps2Source × UInt8)}

/-- With interrupts enabled no handler has a byte to read, or one that it has read. -/
theorem InputInv.idle (inv : InputInv s w h) (enabled : s.enabled = true) :
    w = none ∧ h = none := by
  have stage := inv.stage
  rw [inv.halted enabled] at stage
  cases stage
  exact ⟨rfl, rfl⟩

/-- A handler is entered: in the coarser model too. -/
theorem InputInv.accept (inv : InputInv s w h) (ready : GatesReady gates address)
    (injective : Function.Injective address) {v : UInt8} {pics : PicPair} {isr : Isr}
    (enabled : s.enabled = true) (sound : s.faulted = false)
    (acknowledged : s.pics.acknowledge .fixed = some (v, pics)) (present : (gates v).Present)
    (disables : (gates v).Disables) (offset : (gates v).offset = address isr) :
    ∃ w' h', InputInv
        { s with
          pics := pics, enabled := false, running := isr.ports, log := s.log ++ [.served v isr] }
        w' h' ∧
      InputChange s
        { s with
          pics := pics, enabled := false, running := isr.ports, log := s.log ++ [.served v isr] }
        w h w' h' := by
  obtain ⟨rfl, rfl⟩ := inv.idle enabled
  have step : IrqServe .fixed gates address s.irq _ :=
    .accept enabled sound acknowledged present disables offset
  have irq := inv.irq.serve ready injective step
  obtain ⟨own, line, has, pending, rfl, rfl⟩ :=
    inv.irq.ready.acknowledge_fixed (inv.irq.idle enabled).2 acknowledged
  rw [ready.filled] at offset
  obtain rfl : own = isr := injective offset
  have stage := inputStage_ports (has ▸ Option.some_ne_none line)
  refine ⟨own.source, none, ⟨?_, stage, nofun⟩, ?_⟩
  · rw [InputState.irq, portWrites_ports]
    exact irq
  · have take (l : Ps2Source) : (own.take s.pics).Pending l.line ↔
        s.pics.Pending l.line ∧ own.line ≠ some l.line := inv.irq.ready.pending_take
    cases source : own.source with
    | none =>
      refine .quiet rfl rfl rfl fun l => ?_
      exact (take l).trans (and_iff_left (Isr.line_of_source_none source l))
    | some src =>
      have at_src := Isr.line_of_source source
      refine .enter rfl rfl rfl ?_ fun l => ?_
      · rw [has] at at_src
        rw [← Option.some.inj at_src]
        exact pending
      · refine (take l).trans (and_congr_right fun _ => not_congr ?_)
        rw [at_src, Option.some.injEq, Ps2Source.line_injective.eq_iff]
        exact eq_comm

/-- A handler reads. -/
theorem InputInv.read (inv : InputInv s w h) {port : UInt16} {b : UInt8}
    {next : UInt8 → PortIo InputCall Unit} {buffer : Option (Ps2Source × UInt8)}
    (running : s.running = .read port next) (answer : Ps2Read s.buffer port b buffer) :
    ∃ w' h', InputInv { s with running := next b, buffer := buffer } w' h' ∧
      InputChange s { s with running := next b, buffer := buffer } w h w' h' := by
  obtain ⟨irq, stage, halted⟩ := inv
  have busy : s.enabled = true → next b = .done () := fun enabled => by
    rw [running] at halted
    cases halted enabled
  have kept : portWrites (next b) = portWrites (next 0) →
      IrqInv (InputState.irq { s with running := next b, buffer := buffer }) := fun same => by
    rw [InputState.irq, running] at irq
    rw [InputState.irq, same]
    exact irq
  rw [running] at stage
  cases stage with
  | keyStatus =>
    cases answer with
    | status ready =>
      by_cases full : b &&& 1 ≠ 0
      · have there : keyStatus b =
            .read 0x60 fun keycode => .emit (.keyboard b keycode) (.done ()) := if_pos full
        refine ⟨_, _, ⟨kept ?_, ?_, busy⟩, .quiet rfl rfl rfl fun _ => Iff.rfl⟩
        · rw [there]
          rfl
        · rw [there]
          exact .keyData full
      · have none_ : s.buffer = none := by
          rw [ready, Option.isSome_iff_ne_none, not_not] at full
          exact full
        have there : keyStatus b = .done () := if_neg full
        refine ⟨_, _, ⟨kept ?_, ?_, busy⟩, .missed none_ none_ rfl rfl rfl⟩
        · rw [there]
          rfl
        · rw [there]
          exact .idle
  | mouseStatus =>
    cases answer with
    | status ready =>
      by_cases full : b &&& 1 = 0
      · have none_ : s.buffer = none := by
          rw [← not_not (a := b &&& 1 = 0), ← Ne, ready, Option.isSome_iff_ne_none, not_not] at full
          exact full
        have there : mouseStatus b = mouseEois := if_pos full
        refine ⟨_, _, ⟨kept ?_, ?_, busy⟩, .missed none_ none_ rfl rfl rfl⟩
        · rw [there]
          rfl
        · rw [there]
          exact .slaveEoi
      · have there : mouseStatus b =
            .read 0x60 fun byte => .emit (.mouse b byte) mouseEois := if_neg full
        refine ⟨_, _, ⟨kept ?_, ?_, busy⟩, .quiet rfl rfl rfl fun _ => Iff.rfl⟩
        · rw [there]
          rfl
        · rw [there]
          exact .mouseData full
  | keyData full =>
    cases answer with
    | data held =>
      refine ⟨_, _, ⟨kept rfl, .keyReport full, busy⟩, .data (fun l c same => ?_) rfl rfl rfl rfl⟩
      rw [held] at same
      exact congrArg Prod.snd (Option.some.inj same)
    | stale held =>
      refine ⟨_, _, ⟨kept rfl, .keyReport full, busy⟩, .data (fun l c same => ?_) rfl rfl rfl rfl⟩
      rw [held] at same
      cases same
  | mouseData full =>
    cases answer with
    | data held =>
      refine ⟨_, _, ⟨kept rfl, .mouseReport full, busy⟩, .data (fun l c same => ?_) rfl rfl rfl rfl⟩
      rw [held] at same
      exact congrArg Prod.snd (Option.some.inj same)
    | stale held =>
      refine ⟨_, _, ⟨kept rfl, .mouseReport full, busy⟩, .data (fun l c same => ?_) rfl rfl rfl rfl⟩
      rw [held] at same
      cases same

/-- A handler writes. -/
theorem InputInv.write (inv : InputInv s w h) {port : UInt16} {b : UInt8}
    {next : PortIo InputCall Unit} (running : s.running = .write port b next) :
    ∃ w' h', InputInv { s with pics := s.pics.writePort port b, running := next } w' h' ∧
      InputChange s { s with pics := s.pics.writePort port b, running := next } w h w' h' := by
  obtain ⟨irq, stage, halted⟩ := inv
  have todo : s.irq.todo = (port, b) :: portWrites next := congrArg portWrites running
  have quiet : InputChange s { s with pics := s.pics.writePort port b, running := next } w h w h :=
    .quiet rfl rfl rfl fun l => irq.write_pending todo l.line
  have busy : s.enabled = true → next = .done () := fun enabled => by
    rw [running] at halted
    cases halted enabled
  rw [running] at stage
  cases stage with
  | masterEoi => exact ⟨_, _, ⟨irq.write todo, .idle, busy⟩, quiet⟩
  | slaveEoi => exact ⟨_, _, ⟨irq.write todo, .masterEoi, busy⟩, quiet⟩
  | key => exact ⟨_, _, ⟨irq.write todo, .keyStatus, busy⟩, quiet⟩

/-- A handler goes on with what it has read. -/
theorem InputInv.report (inv : InputInv s w h) {call : InputCall} {next : PortIo InputCall Unit}
    (running : s.running = .emit call next) :
    ∃ w' h', InputInv { s with running := next, calls := s.calls ++ [call] } w' h' ∧
      InputChange s { s with running := next, calls := s.calls ++ [call] } w h w' h' := by
  obtain ⟨irq, stage, halted⟩ := inv
  have busy : s.enabled = true → next = .done () := fun enabled => by
    rw [running] at halted
    cases halted enabled
  have kept : IrqInv (InputState.irq { s with running := next, calls := s.calls ++ [call] }) := by
    rw [InputState.irq, running] at irq
    exact irq
  rw [running] at stage
  cases stage with
  | tick =>
    have ready : InputCall.tick.Ready := trivial
    exact ⟨_, _, ⟨kept, .masterEoi, busy⟩, .report rfl ready rfl rfl rfl rfl⟩
  | @keyReport status keycode full =>
    have ready : (InputCall.keyboard status keycode).Ready := full
    exact ⟨_, _, ⟨kept, .idle, busy⟩, .report rfl ready rfl rfl rfl rfl⟩
  | @mouseReport status byte full =>
    have ready : (InputCall.mouse status byte).Ready := full
    exact ⟨_, _, ⟨kept, .slaveEoi, busy⟩, .report rfl ready rfl rfl rfl rfl⟩

/-- **Step.** -/
theorem InputInv.step (inv : InputInv s w h) (ready : GatesReady gates address)
    (injective : Function.Injective address) (step : InputStep gates address s s') :
    ∃ w' h', InputInv s' w' h' ∧ InputChange s s' w h w' h' := by
  cases step with
  | @byte src b empty =>
    have device : src.line ≠ 2 := by cases src <;> decide
    refine ⟨w, h, ⟨inv.irq.raise device, inv.stage, inv.halted⟩,
      .byte empty rfl rfl rfl fun l => ?_⟩
    exact PicPair.pending_raise.trans (or_congr_left Ps2Source.line_injective.eq_iff)
  | @raise line device other =>
    refine ⟨w, h, ⟨inv.irq.raise device, inv.stage, inv.halted⟩, .quiet rfl rfl rfl fun l => ?_⟩
    exact PicPair.pending_raise.trans (or_iff_right (other l).symm)
  | serve step =>
    cases step with
    | accept enabled sound acknowledged present disables offset =>
      exact inv.accept ready injective enabled sound acknowledged present disables offset
    | fault enabled sound acknowledged absent =>
      have faulted := inv.irq.serve ready injective (.fault enabled sound acknowledged absent)
      cases faulted.sound
    | read running answer => exact inv.read running answer
    | write running => exact inv.write running
    | report running => exact inv.report running
    | iret disabled done =>
      have todo : s.irq.todo = [] := congrArg portWrites done
      exact ⟨w, h, ⟨inv.irq.serve ready injective (.iret disabled todo), inv.stage, fun _ => done⟩,
        .quiet rfl rfl rfl fun _ => Iff.rfl⟩

theorem inputInv_boot {p : PicPair} (idle : PicsIdle p) (buffer : Option (Ps2Source × UInt8)) :
    InputInv (inputBoot p buffer) none none :=
  ⟨irqInv_boot idle, .idle, fun _ => rfl⟩

end Steps

end MOKernel
