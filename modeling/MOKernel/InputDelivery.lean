import MOKernel.InputPath
import MOKernel.Session
import MOKernel.MouseSafe

/-!
# Delivery of input

The handlers do not ask whose byte they read.  From an empty buffer they need not: in every
run each byte is given once, in order, to the handler of its device (`input_delivered`), so
from any moment on the terminal and the pointer are what was typed and moved, whatever else
happened (`input_sessions`), and without new bytes the processor soon has nothing left to do
(`input_drains`).  A byte in the buffer at `load_idt` stays there, and no other is ever
delivered (`input_delivers_iff`).
-/

namespace MOKernel

attribute [local instance] neZero_picLines

section Steps

variable {gates : UInt8 → Gate} {address : Isr → UInt32} {s s' : InputState}
  {w : Option Ps2Source} {h : Option (Ps2Source × UInt8)}

/-! ## From an empty buffer -/

/-- The byte in the buffer belongs to the one device whose edge is latched, or whose handler
is to read it, and everything sent is with a handler, in hand or in the buffer. -/
structure Delivers (s : InputState) (w : Option Ps2Source) (h : Option (Ps2Source × UInt8)) :
    Prop where
  owner : ∀ src : Ps2Source,
    s.pics.Pending src.line ∨ w = some src ↔ ∃ b, s.buffer = some (src, b)
  once : ∀ src : Ps2Source, s.pics.Pending src.line → w ≠ some src
  sent : s.sent = s.calls.filterMap InputCall.byte ++ h.toList ++ s.buffer.toList
  ready : ∀ call ∈ s.calls, call.Ready

/-- What a handler waits for is in the buffer, and not latched. -/
theorem Delivers.waiting (delivers : Delivers s w h) {src : Ps2Source} (waits : w = some src) :
    (∃ b, s.buffer = some (src, b)) ∧ ∀ l : Ps2Source, ¬s.pics.Pending l.line := by
  obtain ⟨b, held⟩ := (delivers.owner src).mp (.inr waits)
  refine ⟨⟨b, held⟩, fun l pending => ?_⟩
  obtain ⟨c, held'⟩ := (delivers.owner l).mp (.inl pending)
  have same : l = src := by
    rw [held] at held'
    exact (congrArg Prod.fst (Option.some.inj held')).symm
  rw [same] at pending
  exact delivers.once src pending waits

theorem Delivers.change (delivers : Delivers s w h) {w' : Option Ps2Source}
    {h' : Option (Ps2Source × UInt8)} (change : InputChange s s' w h w' h') :
    Delivers s' w' h' := by
  obtain ⟨owner, once, sent, ready⟩ := delivers
  cases change with
  | @byte _ _ src b empty buffer sent' calls pending =>
    have none_ (l : Ps2Source) : ¬(s.pics.Pending l.line ∨ w = some l) := fun either => by
      obtain ⟨c, held⟩ := (owner l).mp either
      rw [empty] at held
      cases held
    refine ⟨fun l => ?_, fun l _ waits => none_ l (.inr waits), ?_, calls ▸ ready⟩
    · rw [pending, buffer, or_assoc, or_iff_left (none_ l)]
      constructor
      · rintro rfl
        exact ⟨b, rfl⟩
      · rintro ⟨c, held⟩
        exact (congrArg Prod.fst (Option.some.inj held)).symm
    · rw [sent', sent, calls, buffer, empty, Option.toList_none, List.append_nil]
      rfl
  | quiet buffer sent' calls pending =>
    refine ⟨fun l => ?_, fun l there => once l ((pending l).mp there), ?_, calls ▸ ready⟩
    · rw [pending, buffer]
      exact owner l
    · rw [sent', sent, calls, buffer]
  | @enter src buffer sent' calls there pending =>
    have own := (owner src).mp (.inl there)
    refine ⟨fun l => ?_,
      fun l latched same => ((pending l).mp latched).2 (Option.some.inj same).symm,
      ?_, calls ▸ ready⟩
    · rw [pending, buffer, ← owner l, Option.some.injEq, or_iff_left (Option.some_ne_none l).symm]
      constructor
      · rintro (⟨latched, -⟩ | rfl)
        · exact latched
        · exact there
      · intro latched
        exact (eq_or_ne l src).elim (fun same => .inr same.symm) fun ne => .inl ⟨latched, ne⟩
    · rw [sent', sent, calls, buffer]
  | @data src b reads buffer sent' calls pics =>
    obtain ⟨⟨c, held⟩, quiet⟩ := Delivers.waiting ⟨owner, once, sent, ready⟩ rfl
    refine ⟨fun l => ?_, fun l _ => (Option.some_ne_none l).symm, ?_, calls ▸ ready⟩
    · rw [pics, buffer]
      refine iff_of_false (not_or.mpr ⟨quiet l, (Option.some_ne_none l).symm⟩) ?_
      rintro ⟨_, none_⟩
      cases none_
    · rw [sent', sent, calls, buffer, held, reads src c held, Option.toList_none, List.append_nil,
        List.append_nil]
  | missed empty =>
    obtain ⟨⟨c, held⟩, -⟩ := Delivers.waiting ⟨owner, once, sent, ready⟩ rfl
    rw [empty] at held
    cases held
  | @report _ call byte good buffer sent' calls pics =>
    refine ⟨fun l => ?_, fun l _ => (Option.some_ne_none l).symm, ?_, fun other member => ?_⟩
    · rw [pics, buffer]
      exact owner l
    · have own : [call].filterMap InputCall.byte = h.toList := by
        rw [← byte]
        cases call <;> rfl
      rw [sent', sent, calls, buffer, List.filterMap_append, own, Option.toList_none,
        List.append_nil]
    · rw [calls] at member
      rcases List.mem_append.mp member with before | new
      · exact ready other before
      · rw [List.mem_singleton.mp new]
        exact good

/-- **Run.** -/
theorem delivers_run (ready : GatesReady gates address) (injective : Function.Injective address)
    {p : PicPair} (idle : PicsIdle p)
    (run : Relation.ReflTransGen (InputStep gates address) (inputBoot p none) s) :
    ∃ w h, InputInv s w h ∧ Delivers s w h := by
  induction run with
  | refl =>
    refine ⟨none, none, inputInv_boot idle none, fun src => ?_,
      fun src _ => (Option.some_ne_none src).symm,
      rfl, nofun⟩
    refine iff_of_false (not_or.mpr ⟨not_pending_remap p _, (Option.some_ne_none src).symm⟩) ?_
    rintro ⟨_, none_⟩
    cases none_
  | tail _ step ih =>
    obtain ⟨w, h, inv, delivers⟩ := ih
    obtain ⟨w', h', inv', change⟩ := inv.step ready injective step
    exact ⟨w', h', inv', delivers.change change⟩

/-- What has been sent and what the handlers were given is never forgotten. -/
theorem inputStep_grows (step : InputStep gates address s s') :
    s.calls <+: s'.calls ∧ s.sent <+: s'.sent := by
  cases step with
  | byte => exact ⟨List.prefix_rfl, List.prefix_append _ _⟩
  | raise => exact ⟨List.prefix_rfl, List.prefix_rfl⟩
  | serve step =>
    cases step with
    | accept => exact ⟨List.prefix_rfl, List.prefix_rfl⟩
    | fault => exact ⟨List.prefix_rfl, List.prefix_rfl⟩
    | read => exact ⟨List.prefix_rfl, List.prefix_rfl⟩
    | write => exact ⟨List.prefix_rfl, List.prefix_rfl⟩
    | report => exact ⟨List.prefix_append _ _, List.prefix_rfl⟩
    | iret => exact ⟨List.prefix_rfl, List.prefix_rfl⟩

theorem inputRun_grows (run : Relation.ReflTransGen (InputStep gates address) s s') :
    s.calls <+: s'.calls ∧ s.sent <+: s'.sent := by
  induction run with
  | refl => exact ⟨List.prefix_rfl, List.prefix_rfl⟩
  | tail _ step ih =>
    obtain ⟨calls, sent⟩ := inputStep_grows step
    exact ⟨ih.1.trans calls, ih.2.trans sent⟩

/-- With interrupts enabled everything sent is with a handler or in the buffer. -/
theorem Delivers.sent_enabled (delivers : Delivers s w h) (inv : InputInv s w h)
    (enabled : s.enabled = true) :
    s.sent = s.calls.filterMap InputCall.byte ++ s.buffer.toList := by
  rw [delivers.sent, (inv.idle enabled).2, Option.toList_none, List.append_nil]

/-! ## With a byte left in the buffer -/

/-- Nothing is latched for the two devices, and nothing of theirs is under way. -/
structure Stuck (b : Ps2Source × UInt8) (s : InputState) (w : Option Ps2Source)
    (h : Option (Ps2Source × UInt8)) : Prop where
  buffer : s.buffer = some b
  pending : ∀ src : Ps2Source, ¬s.pics.Pending src.line
  waits : w = none
  hand : h = none
  calls : ∀ call ∈ s.calls, call.byte = none

theorem Stuck.change {b : Ps2Source × UInt8} (stuck : Stuck b s w h) {w' : Option Ps2Source}
    {h' : Option (Ps2Source × UInt8)} (change : InputChange s s' w h w' h') : Stuck b s' w' h' := by
  obtain ⟨full, none_, waits, hand, silent⟩ := stuck
  cases change with
  | byte empty =>
    rw [full] at empty
    cases empty
  | quiet buffer _ calls pending =>
    exact ⟨buffer.trans full, fun l there => none_ l ((pending l).mp there), waits, hand,
      calls ▸ silent⟩
  | enter _ _ _ there => exact absurd there (none_ _)
  | data => cases waits
  | missed => cases waits
  | @report _ call byte _ buffer _ calls pics =>
    refine ⟨buffer.trans full, fun l => pics ▸ none_ l, rfl, rfl, fun other member => ?_⟩
    rw [calls] at member
    rcases List.mem_append.mp member with before | new
    · exact silent other before
    · rw [List.mem_singleton.mp new, byte, hand]

/-- The steps that a handler has still to make when there is a byte for it. -/
def portSteps : PortIo InputCall Unit → Nat
  | .done _ => 0
  | .read _ next => portSteps (next 1) + 1
  | .write _ _ next => portSteps next + 1
  | .emit _ next => portSteps next + 1

/-- What the processor has still to do: for a handler that is to be entered, at most five
steps and the return. -/
def inputWork (s : InputState) : Nat :=
  7 * pendingCount s.pics + if s.enabled then 0 else portSteps s.running + 1

theorem portSteps_le {running : PortIo InputCall Unit} (stage : InputStage running w h) :
    portSteps running ≤ 5 := by
  cases stage <;> exact Nat.le_of_ble_eq_true rfl

theorem portSteps_ports (isr : Isr) : portSteps isr.ports ≤ 5 := by
  cases isr <;> decide

/-- A read brings a handler forward, whatever it reads. -/
theorem portSteps_read {port : UInt16} {next : UInt8 → PortIo InputCall Unit}
    (stage : InputStage (.read port next) w h) (b : UInt8) :
    portSteps (next b) < portSteps (.read port next) := by
  cases stage with
  | keyStatus =>
    have there : portSteps (.read 0x64 keyStatus) = 3 := by decide
    rw [there, keyStatus]
    split
    · exact Nat.lt_succ_self 2
    · exact Nat.succ_pos 2
  | mouseStatus =>
    have there : portSteps (.read 0x64 mouseStatus) = 5 := by decide
    rw [there, mouseStatus]
    split
    · exact (by decide : 2 < 5)
    · exact Nat.lt_succ_self 4
  | keyData => exact Nat.lt_succ_self _
  | mouseData => exact Nat.lt_succ_self _

theorem InputInv.serve_work (inv : InputInv s w h) (ready : GatesReady gates address)
    (injective : Function.Injective address) (step : InputServe gates address s s') :
    inputWork s' < inputWork s := by
  have busy : s.running ≠ .done () → s.enabled = false := fun running =>
    eq_false_of_ne_true fun enabled => running (inv.halted enabled)
  cases step with
  | @accept v pics isr enabled sound acknowledged present disables offset =>
    obtain ⟨own, line, has, pending, rfl, rfl⟩ :=
      inv.irq.ready.acknowledge_fixed (inv.irq.idle enabled).2 acknowledged
    rw [ready.filled] at offset
    obtain rfl : own = isr := injective offset
    have count : pendingCount (own.take s.irq.pics) + 1 = pendingCount s.pics :=
      inv.irq.ready.pendingCount_take has pending
    have steps := portSteps_ports own
    simp only [inputWork, enabled, if_true, Bool.false_eq_true, if_false]
    omega
  | fault enabled sound acknowledged absent =>
    have faulted := inv.irq.serve ready injective (.fault enabled sound acknowledged absent)
    cases faulted.sound
  | @read port b next buffer running answer =>
    have stage := inv.stage
    rw [running] at stage
    have steps := portSteps_read stage b
    have disabled := busy (by rw [running]; exact nofun)
    simp only [inputWork, disabled, running, Bool.false_eq_true, if_false]
    omega
  | @write port b next running =>
    have todo : s.irq.todo = (port, b) :: portWrites next := congrArg portWrites running
    have count : pendingCount (s.pics.writePort port b) = pendingCount s.pics :=
      List.countP_congr fun l _ => by
        simp only [decide_eq_true_eq]
        exact inv.irq.write_pending todo l
    have disabled := busy (by rw [running]; exact nofun)
    simp only [inputWork, count, disabled, running, portSteps, Bool.false_eq_true, if_false]
    omega
  | @report call next running =>
    have disabled := busy (by rw [running]; exact nofun)
    simp only [inputWork, disabled, running, portSteps, Bool.false_eq_true, if_false]
    omega
  | iret disabled done =>
    simp only [inputWork, disabled, Bool.false_eq_true, if_false, if_true]
    omega

/-- A processor that can do nothing has interrupts enabled and nothing latched. -/
theorem InputInv.stuck (inv : InputInv s w h) (ready : GatesReady gates address)
    (stuck : ∀ s', ¬InputServe gates address s s') :
    s.enabled = true ∧ ∀ isr line, Isr.line isr = some line → ¬s.pics.Pending line := by
  have halted : s.running = .done () := by
    cases running : s.running with
    | done => rfl
    | write port b next => exact absurd (.write running) (stuck _)
    | emit call next => exact absurd (.report running) (stuck _)
    | read port next =>
      have stage := inv.stage
      rw [running] at stage
      -- whatever is in the buffer, the controller answers
      have answers : ∃ b buffer, Ps2Read s.buffer port b buffer := by
        have data : ∃ b buffer, Ps2Read s.buffer 0x60 b buffer := by
          cases held : s.buffer with
          | none => exact ⟨0, none, .stale rfl⟩
          | some entry => exact ⟨entry.2, none, .data rfl⟩
        have status : ∃ b buffer, Ps2Read s.buffer 0x64 b buffer := by
          cases held : s.buffer with
          | none => exact ⟨0, none, .status (by decide)⟩
          | some entry => exact ⟨1, some entry, .status (iff_of_true (by decide) rfl)⟩
        cases stage with
        | keyStatus => exact status
        | mouseStatus => exact status
        | keyData => exact data
        | mouseData => exact data
      obtain ⟨b, buffer, answer⟩ := answers
      exact absurd (.read running answer) (stuck _)
  refine inv.irq.stuck ready fun s' step => ?_
  cases step with
  | accept enabled sound acknowledged present disables offset =>
    exact stuck _ (.accept enabled sound acknowledged present disables offset)
  | fault enabled sound acknowledged absent =>
    exact stuck _ (.fault enabled sound acknowledged absent)
  | write next =>
    have none_ : s.irq.todo = [] := congrArg portWrites halted
    rw [none_] at next
    cases next
  | iret disabled => exact stuck _ (.iret disabled halted)

/-- As many steps of the processor as there are, and what is left after them. -/
theorem inputServe_chain (ready : GatesReady gates address) (injective : Function.Injective address)
    {t : Nat → InputState} {n : Nat} (inv : InputInv (t 0) w h) (delivers : Delivers (t 0) w h)
    (chain : ∀ i < n, InputServe gates address (t i) (t (i + 1))) :
    ∃ w' h', InputInv (t n) w' h' ∧ Delivers (t n) w' h' ∧
      n + inputWork (t n) ≤ inputWork (t 0) := by
  induction n with
  | zero => exact ⟨w, h, inv, delivers, (Nat.zero_add _).le⟩
  | succ n ih =>
    obtain ⟨w₁, h₁, inv, delivers, bound⟩ := ih fun i lt => chain i (Nat.lt_succ_of_lt lt)
    have step := chain n n.lt_succ_self
    have work := inv.serve_work ready injective step
    obtain ⟨w₂, h₂, inv', change⟩ := inv.step ready injective (.serve step)
    exact ⟨w₂, h₂, inv', delivers.change change, by omega⟩

end Steps

/-! ## What the handlers are given -/

/-- The calls of the keyboard's handler. -/
def InputCall.key : InputCall → Option (UInt8 × UInt8)
  | .keyboard status keycode => some (status, keycode)
  | _ => none

/-- The calls of the mouse's handler, over some console. -/
def InputCall.packet (con : Console) : InputCall → Option MouseCall
  | .mouse status byte => some ⟨con, status, byte⟩
  | _ => none

/-- The bytes of a device. -/
def sentBy (src : Ps2Source) (sent : List (Ps2Source × UInt8)) : List UInt8 :=
  sent.filterMap fun entry => if entry.1 = src then some entry.2 else none

/-- The keyboard's handler looks at the first bit of the status only. -/
theorem Terminal.interrupt_ready (t : Terminal) {status : UInt8} (ready : status &&& 1 ≠ 0)
    (keycode : UInt8) : t.interrupt status keycode = t.interrupt 1 keycode := by
  have one : ¬(1 : UInt8) &&& 0x01 = 0 := by decide
  rw [Terminal.interrupt, Terminal.interrupt, keyboardHandlerMain, keyboardHandlerMain,
    if_neg ready, if_neg one]

theorem Terminal.run_calls {calls : List InputCall} (ready : ∀ call ∈ calls, call.Ready)
    (t : Terminal) : t.run (calls.filterMap InputCall.key) =
      t.run (interrupts (sentBy .keyboard (calls.filterMap InputCall.byte))) := by
  induction calls generalizing t with
  | nil => rfl
  | cons call calls ih =>
    have rest := ih fun other member => ready other (List.mem_cons_of_mem _ member)
    cases call with
    | tick => exact rest t
    | mouse status byte => exact rest t
    | keyboard status keycode =>
      have own : status &&& 1 ≠ 0 := ready _ List.mem_cons_self
      change t.run ((status, keycode) :: calls.filterMap InputCall.key) =
        t.run ((1, keycode) :: interrupts (sentBy .keyboard (calls.filterMap InputCall.byte)))
      simp only [Terminal.run, t.interrupt_ready own, rest]

theorem mouseRun_calls {calls : List InputCall} (ready : ∀ call ∈ calls, call.Ready) (con : Console)
    (mouse : Mouse) : mouseRun mouse (calls.filterMap (InputCall.packet con)) =
      mouseRun mouse ((sentBy .mouse (calls.filterMap InputCall.byte)).map (⟨con, 1, ·⟩)) := by
  induction calls generalizing mouse with
  | nil => rfl
  | cons call calls ih =>
    have rest := ih fun other member => ready other (List.mem_cons_of_mem _ member)
    cases call with
    | tick => exact rest mouse
    | keyboard status keycode => exact rest mouse
    | mouse status byte =>
      have own : ¬status &&& 1 = 0 := ready _ List.mem_cons_self
      have one : ¬(1 : UInt8) &&& 1 = 0 := by decide
      have same :
        MouseCall.perform mouse ⟨con, status, byte⟩ = MouseCall.perform mouse ⟨con, 1, byte⟩ := by
        rw [MouseCall.perform, MouseCall.perform, mouseHandlerMain, mouseHandlerMain, if_neg own,
          if_neg one]
      change mouseRun (MouseCall.perform mouse ⟨con, status, byte⟩).2 _ = _
      rw [same, rest]
      rfl

/-! ## A key -/

section Key

variable {gates : UInt8 → Gate} {address : Isr → UInt32} {p : PicPair} {keycode : UInt8}

/-- A byte of the keyboard at the boot state. -/
def keyRaised (p : PicPair) (keycode : UInt8) : InputState :=
  ⟨(p.writePorts picRemap).raise 1, true, .done (), some (.keyboard, keycode), false, [.raised 1],
    [(.keyboard, keycode)], []⟩

/-- Its handler is entered. -/
def keyEntered (p : PicPair) (keycode : UInt8) : InputState :=
  { keyRaised p keycode with
    pics := Isr.keyboard.take (keyRaised p keycode).pics
    enabled := false
    running := keyboardHandlerPorts
    log := [.raised 1, .served 0x21 .keyboard] }

/-- The interrupt is ended, and the handler goes on. -/
def keyServing (p : PicPair) (keycode : UInt8) (running : PortIo InputCall Unit) : InputState :=
  { keyEntered p keycode with
    pics := (keyEntered p keycode).pics.writePort 0x20 0x20
    running := running }

/-- What the processor does after the byte has come. -/
def keyTrace (p : PicPair) (keycode : UInt8) : Nat → InputState
  | 0 => keyRaised p keycode
  | 1 => keyEntered p keycode
  | 2 => keyServing p keycode (.read 0x64 keyStatus)
  | 3 => keyServing p keycode (keyStatus 1)
  | 4 => { keyServing p keycode (.emit (.keyboard 1 keycode) (.done ())) with buffer := none }
  | 5 =>
    { keyServing p keycode (.done ()) with
      buffer := none
      calls := [.keyboard 1 keycode] }
  | _ =>
    { keyServing p keycode (.done ()) with
      enabled := true
      buffer := none
      calls := [.keyboard 1 keycode] }

theorem keyTrace_boot : InputStep gates address (inputBoot p none) (keyTrace p keycode 0) :=
  @InputStep.byte gates address (inputBoot p none) .keyboard keycode rfl

/-- The first byte of the keyboard is acknowledged with the vector of its handler. -/
theorem acknowledge_key (idle : PicsIdle p) :
    ((p.writePorts picRemap).raise 1).acknowledge .fixed =
      some (Isr.keyboard.vector, Isr.keyboard.take ((p.writePorts picRemap).raise 1)) := by
  obtain ⟨master, slave⟩ := idle
  rw [writePorts_picRemap, master, slave]
  rfl

theorem keyTrace_serve (ready : GatesReady gates address) (idle : PicsIdle p) {i : Nat}
    (lt : i < 6) :
    InputServe gates address (keyTrace p keycode i) (keyTrace p keycode (i + 1)) := by
  interval_cases i
  · have gate := ready.filled .keyboard
    have present : (gates Isr.keyboard.vector).Present := by
      rw [gate]
      exact (by decide : (0x8E : UInt8) &&& 0x80 ≠ 0)
    have disables : (gates Isr.keyboard.vector).Disables := by
      rw [gate]
      exact (by decide : (0x8E : UInt8) &&& 0x1F = 0x0E)
    exact @InputServe.accept gates address (keyRaised p keycode) Isr.keyboard.vector _ .keyboard
      rfl rfl
      (acknowledge_key idle) present disables (congrArg Gate.offset gate)
  · have running : (keyEntered p keycode).running = .write 0x20 0x20 (.read 0x64 keyStatus) := rfl
    exact .write running
  · have full : Ps2Read (some (.keyboard, keycode)) 0x64 1 (some (.keyboard, keycode)) :=
      .status (iff_of_true (by decide) rfl)
    have running :
      (keyServing p keycode (.read 0x64 keyStatus)).running = .read 0x64 keyStatus := rfl
    exact .read running full
  · have there : Ps2Read (some (.keyboard, keycode)) 0x60 keycode none := .data rfl
    have running : (keyServing p keycode (keyStatus 1)).running =
      .read 0x60 fun keycode => .emit (.keyboard 1 keycode) (.done ()) := rfl
    exact .read running there
  · have running : (keyTrace p keycode 4).running = .emit (.keyboard 1 keycode) (.done ()) := rfl
    exact .report running
  · exact .iret rfl rfl

theorem keyTrace_run (ready : GatesReady gates address) (idle : PicsIdle p) {i : Nat} (le : i ≤ 6) :
    Relation.ReflTransGen (InputStep gates address) (inputBoot p none) (keyTrace p keycode i) := by
  induction i with
  | zero => exact .single keyTrace_boot
  | succ i ih => exact (ih (Nat.le_of_succ_le le)).tail (.serve (keyTrace_serve ready idle le))

theorem keyTrace_stuck (idle : PicsIdle p) (s : InputState) :
    ¬InputServe gates address (keyTrace p keycode 6) s := by
  have none_ : (keyTrace p keycode 6).pics.acknowledge .fixed = none := by
    have pics : (keyTrace p keycode 6).pics =
        (Isr.keyboard.take ((p.writePorts picRemap).raise 1)).writePort 0x20 0x20 := rfl
    obtain ⟨master, slave⟩ := idle
    rw [pics, writePorts_picRemap, master, slave]
    decide
  intro step
  cases step with
  | accept _ _ acknowledged => rw [none_] at acknowledged; cases acknowledged
  | fault _ _ acknowledged => rw [none_] at acknowledged; cases acknowledged
  | read running => cases running
  | write running => cases running
  | report running => cases running
  | iret disabled => cases disabled

end Key

/-! ## From the tables of `idt_init` -/

section Boot

variable {mem : ByteMemory} {ptr : Nat} {idtAddress : UInt32} {address : Isr → UInt32}
  {p : PicPair} {s : InputState}

/-- **Every byte is delivered, once, in order, to the handler of its device.**  In every run
from an empty buffer the bytes that the handlers were given are those that have entered the
buffer, in that order, but for at most two on their way; with interrupts enabled only the one
in the buffer is.  No handler is given a byte that is none. -/
theorem input_delivered (operand : WordsAt mem ptr (idtPtr idtAddress))
    (table : IdtAt mem idtAddress.toNat (idtInit idtBoot address))
    (injective : Function.Injective address) (idle : PicsIdle p)
    (run : Relation.ReflTransGen
      (InputStep (fetchGate mem (lidt mem ptr).2.toNat) address) (inputBoot p none) s) :
    (∃ way, s.sent = s.calls.filterMap InputCall.byte ++ way ∧ way.length ≤ 2 ∧
      (s.enabled = true → way = s.buffer.toList)) ∧
      ∀ call ∈ s.calls, call.Ready := by
  obtain ⟨w, h, inv, delivers⟩ := delivers_run (gatesReady_idtInit operand table) injective idle run
  refine ⟨⟨h.toList ++ s.buffer.toList, ?_, ?_, fun enabled => ?_⟩, delivers.ready⟩
  · rw [delivers.sent, List.append_assoc]
  · rw [List.length_append]
    exact Nat.add_le_add (Option.length_toList_le) (Option.length_toList_le)
  · rw [(inv.idle enabled).2]
    rfl

theorem input_delivered_enter :
    (∃ way, [(Ps2Source.keyboard, (0x1C : UInt8))] = [] ++ way ∧ way.length ≤ 2 ∧
      (false = true → way = [(Ps2Source.keyboard, (0x1C : UInt8))])) ∧
      ∀ call ∈ ([] : List InputCall), call.Ready :=
  input_delivered (idtImage_operand handlersAt) (idtImage_table handlersAt) handlersAt_injective
    (s := keyTrace ⟨picReset, picReset⟩ 0x1C 3) ⟨rfl, rfl⟩
    (keyTrace_run handlerGates_ready ⟨rfl, rfl⟩ (by decide))

/-- **What was typed and moved.**  Take any moment of a run, from the return of `fs_init` on, at
which no handler runs, and whatever terminal and pointer there are then.  At every later such
moment with an empty buffer the terminal is the one after the scancodes that were in the
buffer or that the keyboard has sent since, and the pointer the one after the bytes of the
mouse, however timer, keyboard and mouse came between each other. -/
theorem input_sessions (operand : WordsAt mem ptr (idtPtr idtAddress))
    (table : IdtAt mem idtAddress.toNat (idtInit idtBoot address))
    (injective : Function.Injective address) (idle : PicsIdle p) {s₀ : InputState}
    (before : Relation.ReflTransGen
      (InputStep (fetchGate mem (lidt mem ptr).2.toNat) address) (inputBoot p none) s₀)
    (enabled₀ : s₀.enabled = true)
    (run : Relation.ReflTransGen
      (InputStep (fetchGate mem (lidt mem ptr).2.toNat) address) s₀ s)
    (enabled : s.enabled = true) (empty : s.buffer = none) :
    ∃ calls sent, s.calls = s₀.calls ++ calls ∧ s.sent = s₀.sent ++ sent ∧
      (∀ t : Terminal, t.run (calls.filterMap InputCall.key) =
        t.run (interrupts (sentBy .keyboard (s₀.buffer.toList ++ sent)))) ∧
      ∀ con mouse, mouseRun mouse (calls.filterMap (InputCall.packet con)) =
        mouseRun mouse ((sentBy .mouse (s₀.buffer.toList ++ sent)).map (⟨con, 1, ·⟩)) := by
  have ready := gatesReady_idtInit operand table
  obtain ⟨w₀, h₀, inv₀, delivers₀⟩ := delivers_run ready injective idle before
  obtain ⟨w, h, inv, delivers⟩ := delivers_run ready injective idle (before.trans run)
  obtain ⟨⟨calls, split⟩, ⟨sent, later⟩⟩ := inputRun_grows run
  have all := delivers.sent_enabled inv enabled
  rw [← later, ← split, delivers₀.sent_enabled inv₀ enabled₀, empty, Option.toList_none,
    List.append_nil, List.filterMap_append, List.append_assoc] at all
  have since := List.append_cancel_left all
  have good : ∀ call ∈ calls, call.Ready := fun call member =>
    delivers.ready call (split ▸ List.mem_append_right _ member)
  refine ⟨calls, sent, split.symm, later.symm, fun t => ?_, fun con mouse => ?_⟩
  · rw [since]
    exact t.run_calls good
  · rw [since]
    exact mouseRun_calls good con mouse

theorem input_sessions_enter :
    Terminal.boot.run [(1, 0x1C)] = Terminal.boot.run (interrupts [0x1C]) := by
  obtain ⟨calls, sent, split, later, typed, -⟩ :=
    input_sessions (idtImage_operand handlersAt) (idtImage_table handlersAt) handlersAt_injective
      (p := ⟨picReset, picReset⟩) ⟨rfl, rfl⟩ .refl rfl
      (@keyTrace_run _ _ _ 0x1C handlerGates_ready ⟨rfl, rfl⟩ 6 le_rfl) rfl rfl
  have calls_ : [InputCall.keyboard 1 0x1C] = [] ++ calls := split
  have sent_ : [(Ps2Source.keyboard, (0x1C : UInt8))] = [] ++ sent := later
  rw [List.nil_append] at calls_ sent_
  rw [← calls_, ← sent_] at typed
  exact typed Terminal.boot

/-- **Input is taken in.**  From any state reached from an empty buffer the processor takes at
most 27 steps without new bytes and edges: accesses to the controllers, entries, returns and
the rest of a handler as one.  Where it has no step left the buffer is empty and every byte
has been given to its handler. -/
theorem input_drains (operand : WordsAt mem ptr (idtPtr idtAddress))
    (table : IdtAt mem idtAddress.toNat (idtInit idtBoot address))
    (injective : Function.Injective address) (idle : PicsIdle p) {t : Nat → InputState} {n : Nat}
    (run : Relation.ReflTransGen
      (InputStep (fetchGate mem (lidt mem ptr).2.toNat) address) (inputBoot p none) (t 0))
    (chain : ∀ i < n, InputServe (fetchGate mem (lidt mem ptr).2.toNat) address (t i) (t (i + 1))) :
    n ≤ 27 ∧ ((∀ s', ¬InputServe (fetchGate mem (lidt mem ptr).2.toNat) address (t n) s') →
      (t n).enabled = true ∧ (t n).buffer = none ∧
        (t n).sent = (t n).calls.filterMap InputCall.byte) := by
  have ready := gatesReady_idtInit operand table
  obtain ⟨w, h, inv, delivers⟩ := delivers_run ready injective idle run
  have count := pendingCount_le (t 0).pics
  have steps := portSteps_le inv.stage
  obtain ⟨w', h', inv', delivers', bound⟩ := inputServe_chain ready injective inv delivers chain
  have work : inputWork (t 0) ≤ 27 := by
    unfold inputWork
    split <;> omega
  refine ⟨by omega, fun stuck => ?_⟩
  obtain ⟨enabled, quiet⟩ := inv'.stuck ready stuck
  obtain ⟨rfl, rfl⟩ := inv'.idle enabled
  have empty : (t n).buffer = none := by
    cases held : (t n).buffer with
    | none => rfl
    | some entry =>
      obtain ⟨src, b⟩ := entry
      rcases (delivers'.owner src).mpr ⟨b, held⟩ with pending | waits
      · cases src with
        | keyboard => exact absurd pending (quiet .keyboard 1 rfl)
        | mouse => exact absurd pending (quiet .mouse 12 rfl)
      · cases waits
  refine ⟨enabled, empty, ?_⟩
  rw [delivers'.sent, empty, Option.toList_none, List.append_nil, List.append_nil]

theorem input_drains_enter :
    (keyTrace ⟨picReset, picReset⟩ 0x1C 6).sent =
      [InputCall.keyboard 1 0x1C].filterMap InputCall.byte :=
  ((input_drains (idtImage_operand handlersAt) (idtImage_table handlersAt) handlersAt_injective
    ⟨rfl, rfl⟩ (keyTrace_run handlerGates_ready ⟨rfl, rfl⟩ (Nat.zero_le 6))
    (fun _ lt => keyTrace_serve handlerGates_ready ⟨rfl, rfl⟩ lt)).2
    (keyTrace_stuck ⟨rfl, rfl⟩)).2.2

end Boot

end MOKernel
