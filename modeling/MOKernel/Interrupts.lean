import MOKernel.Idt

/-!
# Interrupts

The processor, the controllers and the handlers from `load_idt` on.  Edges arrive at any
line at any time.  With interrupts enabled the processor acknowledges a request of the
controllers and enters the handler whose gate is at the vector; it runs with interrupts
disabled, makes its writes to the controllers and returns.

On controllers that are connected in any case, and have nothing in service at `load_idt`, a
line with an edge that is not served yet is pending, nothing is served twice, every handler
is entered for its own line and no two at once (`interrupts_served`); without new edges
everything pending is served (`interrupts_drain`).  `idt_init` writes 0 as both third
initialisation words, so on chips that go by these words the mouse's handler is never
entered: its first interrupt has a vector without a gate (`interrupts_faultless_iff`).
-/

namespace MOKernel

attribute [local instance] neZero_picInputs neZero_picLines

/-! ## The system -/

/-- The line that a handler is for; a page fault has none. -/
def Isr.line : Isr → Option (Fin 16)
  | .timer => some 0
  | .keyboard => some 1
  | .mouse => some 12
  | .pageFault => none

/-- What a handler writes to the controllers: `timer_handler_main` and
`keyboard_handler_main` once, `mouse_handler_main` to the slave first, on both its paths. -/
def Isr.picWrites : Isr → List (UInt16 × UInt8)
  | .timer => [(0x20, 0x20)]
  | .keyboard => [(0x20, 0x20)]
  | .mouse => [(0xA0, 0x20), (0x20, 0x20)]
  | .pageFault => []

/-- An edge at a line, or a handler entered for a vector. -/
inductive IrqEvent
  | raised (line : Fin 16)
  | served (v : UInt8) (isr : Isr)

/-- `todo` are the writes that the running handler has still to make. -/
structure IrqState where
  pics : PicPair
  enabled : Bool
  todo : List (UInt16 × UInt8)
  faulted : Bool
  log : List IrqEvent

/-- After `load_idt`: the controllers as `idt_init` has left them, interrupts enabled. -/
def irqBoot (pics : PicPair) : IrqState := ⟨pics.writePorts picRemap, true, [], false, []⟩

/-- What the processor does.  A vector without a gate is the end. -/
inductive IrqServe (wiring : PicWiring) (gates : UInt8 → Gate) (address : Isr → UInt32)
    (s : IrqState) : IrqState → Prop
  | accept {v : UInt8} {pics : PicPair} {isr : Isr} : s.enabled = true → s.faulted = false →
    s.pics.acknowledge wiring = some (v, pics) → (gates v).Present → (gates v).Disables →
    (gates v).offset = address isr →
    IrqServe wiring gates address s { s with
      pics := pics
      enabled := false
      todo := isr.picWrites
      log := s.log ++ [.served v isr] }
  | fault {v : UInt8} {pics : PicPair} : s.enabled = true → s.faulted = false →
    s.pics.acknowledge wiring = some (v, pics) → ¬(gates v).Present →
    IrqServe wiring gates address s { s with pics := pics, faulted := true }
  | write {port : UInt16} {b : UInt8} {rest : List (UInt16 × UInt8)} : s.todo = (port, b) :: rest →
    IrqServe wiring gates address s { s with pics := s.pics.writePort port b, todo := rest }
  | iret : s.enabled = false → s.todo = [] →
    IrqServe wiring gates address s { s with enabled := true }

/-- An edge, or a step of the processor.  Line 2 is the slave's. -/
inductive IrqStep (wiring : PicWiring) (gates : UInt8 → Gate) (address : Isr → UInt32)
    (s : IrqState) : IrqState → Prop
  | raise {line : Fin 16} : line ≠ 2 → IrqStep wiring gates address s
    { s with pics := s.pics.raise line, log := s.log ++ [.raised line] }
  | serve {s' : IrqState} : IrqServe wiring gates address s s' → IrqStep wiring gates address s s'

/-- What the log says of a line: is an edge owed a service?  A service that is not owed has
no value. -/
def owedStep (line : Fin 16) : Option Bool → IrqEvent → Option Bool
  | none, _ => none
  | some owed, .raised l => some (owed || l = line)
  | some owed, .served _ isr =>
    if isr.line = some line then (if owed then some false else none) else some owed

def owed (line : Fin 16) (log : List IrqEvent) : Option Bool :=
  log.foldl (owedStep line) (some false)

@[simp] theorem owed_concat (line : Fin 16) (log : List IrqEvent) (event : IrqEvent) :
    owed line (log ++ [event]) = owedStep line (owed line log) event := by
  rw [owed, List.foldl_append]
  rfl

/-! ## The controllers -/

/-- How `idt_init` leaves a controller. -/
structure PicReady (p : Pic) (imr base : UInt8) : Prop where
  imr : p.imr = imr
  base : p.base = base
  autoEoi : p.autoEoi = false
  icw3 : p.icw3 = 0

/-- Both controllers, and no edge at the slave's input. -/
structure PicsReady (p : PicPair) : Prop where
  master : PicReady p.master 0xF8 0x20
  slave : PicReady p.slave 0xEF 0x28
  cascade : 2 ∉ p.master.irr

theorem writePorts_picRemap (p : PicPair) : p.writePorts picRemap =
    ⟨⟨∅, p.master.isr, 0xF8, 0x20, 0, false, false, true, .mask⟩,
      ⟨∅, p.slave.isr, 0xEF, 0x28, 0, false, false, true, .mask⟩⟩ := rfl

theorem picsReady_remap (p : PicPair) : PicsReady (p.writePorts picRemap) :=
  ⟨⟨rfl, rfl, rfl, rfl⟩, ⟨rfl, rfl, rfl, rfl⟩, Finset.notMem_empty _⟩

theorem not_pending_remap (p : PicPair) (line : Fin 16) :
    ¬(p.writePorts picRemap).Pending line := by
  rw [writePorts_picRemap, PicPair.Pending]
  split
  · exact Finset.notMem_empty _
  · exact Finset.notMem_empty _

/-- The controllers after they are acknowledged for a handler's line. -/
def Isr.take (p : PicPair) : Isr → PicPair
  | .timer => ⟨p.master.acknowledge 0, p.slave⟩
  | .keyboard => ⟨p.master.acknowledge 1, p.slave⟩
  | .mouse => ⟨p.master.acknowledge 2, p.slave.acknowledge 4⟩
  | .pageFault => p

section Controllers

variable {p p' : PicPair} {v : UInt8} {n : Fin 8}

theorem PicReady.slaveMask {q : Pic} {base : UInt8} (ready : PicReady q 0xEF base) :
    q.Masked n ↔ n ≠ 4 := by
  rw [Pic.Masked, ready.imr]
  revert n
  decide

/-- Nothing is in service. -/
structure PicsIdle (p : PicPair) : Prop where
  master : p.master.isr = ∅
  slave : p.slave.isr = ∅

/-- The slave requests service for the mouse only. -/
theorem PicsReady.slaveRequest (ready : PicsReady p) (idle : PicsIdle p) :
    p.slave.request = if 4 ∈ p.slave.irr then some 4 else none := by
  have requests (m : Fin 8) : p.slave.Requests m ↔ m = 4 ∧ 4 ∈ p.slave.irr := by
    rw [Pic.requests_of_idle idle.slave, ready.slave.slaveMask, not_not]
    exact ⟨fun ⟨there, four⟩ => ⟨four, four ▸ there⟩, fun ⟨four, there⟩ => ⟨four ▸ there, four⟩⟩
  split
  · next there =>
    rw [Pic.request_eq_some_iff]
    exact ⟨(requests 4).mpr ⟨rfl, there⟩, fun m lt request => lt.ne ((requests m).mp request).1⟩
  · next absent =>
    rw [Pic.request_eq_none_iff]
    exact fun m request => absent ((requests m).mp request).2

theorem PicPair.mem_inputs :
    n ∈ p.inputs.irr ↔ n ∈ p.master.irr ∨ n = 2 ∧ p.slave.request.isSome := by
  unfold PicPair.inputs
  split
  · next some_ => rw [Pic.raise, Finset.mem_insert, or_comm, and_iff_left some_]
  · next none_ => rw [or_iff_left fun both => none_ both.2]

/-- The requests of idle controllers. -/
theorem PicsReady.requests_iff (ready : PicsReady p) (idle : PicsIdle p) :
    p.inputs.Requests n ↔ (n = 0 ∧ 0 ∈ p.master.irr) ∨ (n = 1 ∧ 1 ∈ p.master.irr) ∨
      (n = 2 ∧ 4 ∈ p.slave.irr) := by
  have idleIn : p.inputs.isr = ∅ := by
    unfold PicPair.inputs
    split
    · exact idle.master
    · exact idle.master
  have mask : p.inputs.imr = 0xF8 := by
    unfold PicPair.inputs
    split
    · exact ready.master.imr
    · exact ready.master.imr
  have slave : p.slave.request.isSome ↔ 4 ∈ p.slave.irr := by
    rw [ready.slaveRequest idle]
    split <;> simp_all
  have unmasked : ¬p.inputs.Masked n ↔ n = 0 ∨ n = 1 ∨ n = 2 := by
    rw [Pic.Masked, mask]
    revert n
    decide
  rw [Pic.requests_of_idle idleIn, PicPair.mem_inputs, slave, unmasked]
  have cascade := ready.cascade
  constructor
  · rintro ⟨edge, rfl | rfl | rfl⟩
    · exact .inl ⟨rfl, edge.resolve_right fun both => absurd both.1 (by decide)⟩
    · exact .inr (.inl ⟨rfl, edge.resolve_right fun both => absurd both.1 (by decide)⟩)
    · exact .inr (.inr ⟨rfl, (edge.resolve_left cascade).2⟩)
  · rintro (⟨rfl, edge⟩ | ⟨rfl, edge⟩ | ⟨rfl, edge⟩)
    · exact ⟨.inl edge, .inl rfl⟩
    · exact ⟨.inl edge, .inr (.inl rfl)⟩
    · exact ⟨.inr ⟨rfl, edge⟩, .inr (.inr rfl)⟩

/-- Idle controllers are acknowledged for a pending line, with the vector of its handler. -/
theorem PicsReady.acknowledge_fixed (ready : PicsReady p) (idle : PicsIdle p)
    (acknowledged : p.acknowledge .fixed = some (v, p')) :
    ∃ isr line, Isr.line isr = some line ∧ p.Pending line ∧ v = isr.vector ∧ p' = isr.take p := by
  unfold PicPair.acknowledge at acknowledged
  obtain ⟨n, requested, outcome⟩ := Option.map_eq_some_iff.mp acknowledged
  rcases (ready.requests_iff idle).mp (Pic.requests_of_request requested) with
    ⟨rfl, edge⟩ | ⟨rfl, edge⟩ | ⟨rfl, edge⟩
  · rw [if_neg fun both => absurd both.1 (by decide), ready.master.base] at outcome
    obtain ⟨rfl, rfl⟩ := Prod.mk.inj outcome
    exact ⟨.timer, 0, rfl, edge, rfl, rfl⟩
  · rw [if_neg fun both => absurd both.1 (by decide), ready.master.base] at outcome
    obtain ⟨rfl, rfl⟩ := Prod.mk.inj outcome
    exact ⟨.keyboard, 1, rfl, edge, rfl, rfl⟩
  · rw [if_pos ⟨rfl, trivial⟩, ready.slaveRequest idle, if_pos edge, ready.slave.base] at outcome
    obtain ⟨rfl, rfl⟩ := Prod.mk.inj outcome
    exact ⟨.mouse, 12, rfl, edge, rfl, rfl⟩

/-- Where they go by words that do not connect them, the master answers for the mouse. -/
theorem PicsReady.acknowledge_programmed (ready : PicsReady p) (idle : PicsIdle p)
    (acknowledged : p.acknowledge .programmed = some (v, p')) :
    (∃ isr line, isr ≠ .mouse ∧ Isr.line isr = some line ∧ p.Pending line ∧ v = isr.vector ∧
      p' = isr.take p) ∨ v = 0x22 ∧ p.Pending 12 := by
  have alone : ¬p.Cascades .programmed := by
    rintro ⟨word, -⟩
    rw [ready.master.icw3] at word
    exact absurd word (by decide)
  unfold PicPair.acknowledge at acknowledged
  obtain ⟨n, requested, outcome⟩ := Option.map_eq_some_iff.mp acknowledged
  rw [if_neg fun both => alone both.2, ready.master.base] at outcome
  obtain ⟨rfl, rfl⟩ := Prod.mk.inj outcome
  rcases (ready.requests_iff idle).mp (Pic.requests_of_request requested) with
    ⟨rfl, edge⟩ | ⟨rfl, edge⟩ | ⟨rfl, edge⟩
  · exact .inl ⟨.timer, 0, nofun, rfl, edge, rfl, rfl⟩
  · exact .inl ⟨.keyboard, 1, nofun, rfl, edge, rfl, rfl⟩
  · exact .inr ⟨rfl, edge⟩

/-- Idle controllers with a line of a handler pending are acknowledged. -/
theorem PicsReady.acknowledge_isSome (ready : PicsReady p) (idle : PicsIdle p) {isr : Isr}
    {line : Fin 16} (own : isr.line = some line) (pending : p.Pending line) (wiring : PicWiring) :
    ∃ v p', p.acknowledge wiring = some (v, p') := by
  have requests : ∃ n, p.inputs.Requests n := by
    cases isr with
    | timer =>
      obtain rfl := Option.some.inj own
      exact ⟨0, (ready.requests_iff idle).mpr (.inl ⟨rfl, pending⟩)⟩
    | keyboard =>
      obtain rfl := Option.some.inj own
      exact ⟨1, (ready.requests_iff idle).mpr (.inr (.inl ⟨rfl, pending⟩))⟩
    | mouse =>
      obtain rfl := Option.some.inj own
      exact ⟨2, (ready.requests_iff idle).mpr (.inr (.inr ⟨rfl, pending⟩))⟩
    | pageFault => cases own
  obtain ⟨n, request⟩ := requests
  have some_ : p.inputs.request ≠ none := fun none_ => Pic.request_eq_none_iff.mp none_ n request
  obtain ⟨m, requested⟩ := Option.ne_none_iff_exists'.mp some_
  unfold PicPair.acknowledge
  rw [requested]
  exact ⟨_, _, rfl⟩

theorem PicPair.pending_raise {line l : Fin 16} :
    (p.raise line).Pending l ↔ l = line ∨ p.Pending l := by
  unfold PicPair.raise PicPair.Pending
  split
  · split
    · simp [Pic.raise, Fin.ext_iff]
    · next low high =>
      refine ⟨.inr, fun either => either.resolve_left ?_⟩
      rintro rfl
      exact high low
  · split
    · next high low =>
      refine ⟨.inr, fun either => either.resolve_left ?_⟩
      rintro rfl
      exact high low
    · rw [Pic.raise, Finset.mem_insert, Fin.mk.injEq, Fin.ext_iff]
      refine or_congr_left ?_
      omega

/-- Acknowledging takes the edge of the line and no other. -/
theorem PicsReady.pending_take (ready : PicsReady p) {isr : Isr} {l : Fin 16} :
    (isr.take p).Pending l ↔ p.Pending l ∧ isr.line ≠ some l := by
  have cascade := ready.cascade
  have line {isr : Isr} {a : Fin 16} (own : isr.line = some a) :
      isr.line ≠ some l ↔ a.val ≠ l.val := by
    rw [own, Ne, Option.some.injEq, Fin.ext_iff]
  unfold PicPair.Pending
  rcases lt_or_ge l.val 8 with low | high
  · rw [dif_pos low, dif_pos low]
    have erase {k : Fin 8} {irr : Finset (Fin 8)} :
        (⟨l, low⟩ : Fin 8) ∈ irr.erase k ↔ ⟨l, low⟩ ∈ irr ∧ k.val ≠ l.val := by
      rw [Finset.mem_erase, and_comm, Ne, Fin.ext_iff, eq_comm]
    cases isr with
    | timer => exact erase.trans (and_congr_right fun _ => (line (a := 0) rfl).symm)
    | keyboard => exact erase.trans (and_congr_right fun _ => (line (a := 1) rfl).symm)
    | mouse =>
      have far : (12 : Fin 16).val ≠ l.val := (low.trans (by decide)).ne'
      refine erase.trans (and_congr_right fun there => iff_of_true ?_ ((line rfl).mpr far))
      intro two
      have here : (⟨l, low⟩ : Fin 8) = 2 := Fin.ext two.symm
      exact cascade (here ▸ there)
    | pageFault => exact (and_iff_left nofun).symm
  · rw [dif_neg high.not_gt, dif_neg high.not_gt]
    cases isr with
    | timer => exact (and_iff_left ((line rfl).mpr (by omega))).symm
    | keyboard => exact (and_iff_left ((line rfl).mpr (by omega))).symm
    | mouse =>
      refine Finset.mem_erase.trans (and_comm.trans (and_congr_right fun _ => ?_))
      rw [line rfl, Ne, Fin.ext_iff]
      have twelve : (12 : Fin 16).val = 12 := rfl
      have four : (4 : Fin 8).val = 4 := rfl
      rw [twelve, four]
      dsimp only
      omega
    | pageFault => exact (and_iff_left nofun).symm

/-- An acknowledgement leaves the registers that `idt_init` has set. -/
theorem PicReady.acknowledge {q : Pic} {imr base : UInt8} (ready : PicReady q imr base)
    (n : Fin 8) :
    PicReady (q.acknowledge n) imr base := ⟨ready.imr, ready.base, ready.autoEoi, ready.icw3⟩

theorem PicsReady.take (ready : PicsReady p) (isr : Isr) : PicsReady (isr.take p) := by
  cases isr with
  | timer =>
    exact ⟨ready.master.acknowledge 0, ready.slave,
      fun two => ready.cascade (Finset.mem_of_mem_erase two)⟩
  | keyboard =>
    exact ⟨ready.master.acknowledge 1, ready.slave,
      fun two => ready.cascade (Finset.mem_of_mem_erase two)⟩
  | mouse => exact ⟨ready.master.acknowledge 2, ready.slave.acknowledge 4, Finset.notMem_erase 2 _⟩
  | pageFault => exact ready

theorem PicsReady.raise (ready : PicsReady p) {line : Fin 16} (device : line ≠ 2) :
    PicsReady (p.raise line) := by
  unfold PicPair.raise
  split
  · next low =>
    refine ⟨⟨ready.master.imr, ready.master.base, ready.master.autoEoi, ready.master.icw3⟩,
      ready.slave, fun two => ?_⟩
    rcases Finset.mem_insert.mp two with same | there
    · exact device (Fin.ext (congrArg Fin.val same).symm)
    · exact ready.cascade there
  · exact ⟨ready.master, ⟨ready.slave.imr, ready.slave.base, ready.slave.autoEoi, ready.slave.icw3⟩,
      ready.cascade⟩

/-- The end of an interrupt at the master. -/
theorem writePort_masterEoi (serving : p.master.isr = {n}) :
    p.writePort 0x20 0x20 = { p with master := { p.master with isr := ∅ } } := by
  have eoi : p.writePort 0x20 0x20 = { p with master := p.master.endOfInterrupt } := rfl
  rw [eoi, Pic.endOfInterrupt_singleton serving]

theorem writePort_slaveEoi (serving : p.slave.isr = {n}) :
    p.writePort 0xA0 0x20 = { p with slave := { p.slave with isr := ∅ } } := by
  have eoi : p.writePort 0xA0 0x20 = { p with slave := p.slave.endOfInterrupt } := rfl
  rw [eoi, Pic.endOfInterrupt_singleton serving]

end Controllers

/-! ## What holds in every run -/

/-- Where the processor is, and what is in service then. -/
inductive IrqPhase (s : IrqState) : Prop
  | idle : s.enabled = true → s.todo = [] → PicsIdle s.pics → IrqPhase s
  | cascaded {n k : Fin 8} : s.enabled = false → s.todo = [(0xA0, 0x20), (0x20, 0x20)] →
    s.pics.master.isr = {n} → s.pics.slave.isr = {k} → IrqPhase s
  | serving {n : Fin 8} : s.enabled = false → s.todo = [(0x20, 0x20)] → s.pics.master.isr = {n} →
    s.pics.slave.isr = ∅ → IrqPhase s
  | returning : s.enabled = false → s.todo = [] → PicsIdle s.pics → IrqPhase s

structure IrqInv (s : IrqState) : Prop where
  ready : PicsReady s.pics
  phase : IrqPhase s
  sound : s.faulted = false
  owed : ∀ line, owed line s.log = some (decide (s.pics.Pending line))
  served : ∀ v isr, .served v isr ∈ s.log → v = isr.vector ∧ isr.line ≠ none

theorem irqInv_boot {p : PicPair} (idle : PicsIdle p) : IrqInv (irqBoot p) where
  ready := picsReady_remap p
  phase := .idle rfl rfl ⟨idle.master, idle.slave⟩
  sound := rfl
  owed line := (congrArg some (decide_eq_false (not_pending_remap p line))).symm
  served := nofun

section Steps

variable {gates : UInt8 → Gate} {address : Isr → UInt32} {s s' : IrqState}

/-- With interrupts enabled nothing is in service. -/
theorem IrqInv.idle (inv : IrqInv s) (enabled : s.enabled = true) :
    s.todo = [] ∧ PicsIdle s.pics := by
  cases inv.phase with
  | idle _ todo idle => exact ⟨todo, idle⟩
  | cascaded disabled => rw [enabled] at disabled; cases disabled
  | serving disabled => rw [enabled] at disabled; cases disabled
  | returning disabled => rw [enabled] at disabled; cases disabled

/-- An edge changes no register but a request register. -/
theorem PicPair.raise_isr (p : PicPair) (line : Fin 16) :
    (p.raise line).master.isr = p.master.isr ∧ (p.raise line).slave.isr = p.slave.isr := by
  unfold PicPair.raise
  split
  · exact ⟨rfl, rfl⟩
  · exact ⟨rfl, rfl⟩

theorem IrqInv.raise (inv : IrqInv s) {line : Fin 16} (device : line ≠ 2) :
    IrqInv { s with pics := s.pics.raise line, log := s.log ++ [.raised line] } := by
  obtain ⟨master, slave⟩ := s.pics.raise_isr line
  refine ⟨inv.ready.raise device, ?_, inv.sound, fun l => ?_, fun v isr member => ?_⟩
  · cases inv.phase with
    | idle enabled todo idle =>
      exact .idle enabled todo ⟨master.trans idle.master, slave.trans idle.slave⟩
    | cascaded disabled todo serving serving' =>
      exact .cascaded disabled todo (master.trans serving) (slave.trans serving')
    | serving disabled todo serving idle =>
      exact .serving disabled todo (master.trans serving) (slave.trans idle)
    | returning disabled todo idle =>
      exact .returning disabled todo ⟨master.trans idle.master, slave.trans idle.slave⟩
  · rw [owed_concat, inv.owed, owedStep, ← Bool.decide_or]
    congr 2
    exact propext (or_comm.trans (or_congr_left eq_comm |>.trans PicPair.pending_raise.symm))
  · rcases List.mem_append.mp member with before | new
    · exact inv.served v isr before
    · cases List.mem_singleton.mp new

/-- The first acknowledgement puts its input into service. -/
theorem PicReady.serving {q : Pic} {imr base : UInt8} (ready : PicReady q imr base)
    (idle : q.isr = ∅) (n : Fin 8) : (q.acknowledge n).isr = {n} := by
  rw [Pic.acknowledge, ready.autoEoi, idle]
  rfl

/-- The handler of a pending line is entered. -/
theorem IrqInv.accept (inv : IrqInv s) (enabled : s.enabled = true) {isr : Isr} {line : Fin 16}
    (own : isr.line = some line) (pending : s.pics.Pending line) :
    IrqInv { s with
      pics := isr.take s.pics
      enabled := false
      todo := isr.picWrites
      log := s.log ++ [.served isr.vector isr] } := by
  obtain ⟨-, idle⟩ := inv.idle enabled
  refine ⟨inv.ready.take isr, ?_, inv.sound, fun l => ?_, fun v isr' member => ?_⟩
  · cases isr with
    | timer => exact .serving rfl rfl (inv.ready.master.serving idle.master 0) idle.slave
    | keyboard => exact .serving rfl rfl (inv.ready.master.serving idle.master 1) idle.slave
    | mouse =>
      exact .cascaded rfl rfl (inv.ready.master.serving idle.master 2)
        (inv.ready.slave.serving idle.slave 4)
    | pageFault => cases own
  · rw [owed_concat, inv.owed, owedStep]
    split
    · next here =>
      have same : l = line := Option.some.inj (here.symm.trans own)
      have taken : ¬(isr.take s.pics).Pending l := fun still =>
        (inv.ready.pending_take.mp still).2 here
      rw [same] at taken ⊢
      rw [decide_eq_true pending, decide_eq_false taken]
      rfl
    · next other =>
      rw [decide_eq_decide.mpr (inv.ready.pending_take.trans (and_iff_left other))]
  · rcases List.mem_append.mp member with before | new
    · exact inv.served v isr' before
    · cases List.mem_singleton.mp new
      exact ⟨rfl, own ▸ Option.some_ne_none line⟩

/-- A write of a handler ends what it serves. -/
theorem IrqInv.write (inv : IrqInv s) {port : UInt16} {b : UInt8} {rest : List (UInt16 × UInt8)}
    (next : s.todo = (port, b) :: rest) :
    IrqInv { s with pics := s.pics.writePort port b, todo := rest } := by
  cases inv.phase with
  | idle _ todo => rw [next] at todo; cases todo
  | returning _ todo => rw [next] at todo; cases todo
  | cascaded disabled todo serving serving' =>
    rw [next] at todo
    cases todo
    rw [writePort_slaveEoi serving']
    obtain ⟨master, slave, cascade⟩ := inv.ready
    exact ⟨⟨master, ⟨slave.imr, slave.base, slave.autoEoi, slave.icw3⟩, cascade⟩,
      .serving disabled rfl serving rfl, inv.sound, inv.owed, inv.served⟩
  | serving disabled todo serving idle =>
    rw [next] at todo
    cases todo
    rw [writePort_masterEoi serving]
    obtain ⟨master, slave, cascade⟩ := inv.ready
    exact ⟨⟨⟨master.imr, master.base, master.autoEoi, master.icw3⟩, slave, cascade⟩,
      .returning disabled rfl ⟨rfl, idle⟩, inv.sound, inv.owed, inv.served⟩

/-- A write of a handler changes no latched edge. -/
theorem IrqInv.write_pending (inv : IrqInv s) {port : UInt16} {b : UInt8}
    {rest : List (UInt16 × UInt8)} (next : s.todo = (port, b) :: rest) (l : Fin 16) :
    (s.pics.writePort port b).Pending l ↔ s.pics.Pending l := by
  cases inv.phase with
  | idle _ todo => rw [next] at todo; cases todo
  | returning _ todo => rw [next] at todo; cases todo
  | cascaded disabled todo serving serving' =>
    rw [next] at todo
    cases todo
    rw [writePort_slaveEoi serving']
    exact Iff.rfl
  | serving disabled todo serving idle =>
    rw [next] at todo
    cases todo
    rw [writePort_masterEoi serving]
    exact Iff.rfl

/-- **Step.**  What the processor does. -/
theorem IrqInv.serve (inv : IrqInv s) (ready : GatesReady gates address)
    (injective : Function.Injective address) (step : IrqServe .fixed gates address s s') :
    IrqInv s' := by
  cases step with
  | @accept v pics isr enabled _ acknowledged _ _ offset =>
    obtain ⟨own, line, has, pending, rfl, rfl⟩ :=
      inv.ready.acknowledge_fixed (inv.idle enabled).2 acknowledged
    rw [ready.filled] at offset
    obtain rfl : own = isr := injective offset
    exact inv.accept enabled has pending
  | @fault v pics enabled _ acknowledged absent =>
    obtain ⟨own, line, _, _, rfl, rfl⟩ :=
      inv.ready.acknowledge_fixed (inv.idle enabled).2 acknowledged
    have present : (0x8E : UInt8) &&& 0x80 ≠ 0 := by decide
    rw [ready.filled] at absent
    exact absurd present absent
  | write next => exact inv.write next
  | iret disabled done =>
    cases inv.phase with
    | idle enabled => rw [disabled] at enabled; cases enabled
    | cascaded _ todo => rw [done] at todo; cases todo
    | serving _ todo => rw [done] at todo; cases todo
    | returning _ _ idle => exact ⟨inv.ready, .idle rfl done idle, inv.sound, inv.owed, inv.served⟩

/-- **Run.** -/
theorem irqInv_run (ready : GatesReady gates address) (injective : Function.Injective address)
    (start : IrqInv s) (run : Relation.ReflTransGen (IrqStep .fixed gates address) s s') :
    IrqInv s' := by
  induction run with
  | refl => exact start
  | tail _ step ih =>
    cases step with
    | raise device => exact ih.raise device
    | serve step => exact ih.serve ready injective step

/-- On controllers that go by the words: no mouse is served, and up to a vector without a gate
everything holds that holds on the others. -/
structure ProgrammedInv (s : IrqState) : Prop where
  quiet : ∀ v isr, .served v isr ∈ s.log → isr ≠ .mouse
  inv : s.faulted = false → IrqInv s

theorem programmedInv_boot {p : PicPair} (idle : PicsIdle p) : ProgrammedInv (irqBoot p) :=
  ⟨fun _ _ member => absurd member List.not_mem_nil, fun _ => irqInv_boot idle⟩

theorem ProgrammedInv.step (run : ProgrammedInv s) (ready : GatesReady gates address)
    (injective : Function.Injective address) (step : IrqStep .programmed gates address s s') :
    ProgrammedInv s' := by
  cases step with
  | raise device =>
    refine ⟨fun v isr member => ?_, fun sound => (run.inv sound).raise device⟩
    rcases List.mem_append.mp member with before | new
    · exact run.quiet v isr before
    · cases List.mem_singleton.mp new
  | serve step =>
    cases step with
    | @accept v pics isr enabled sound acknowledged present _ offset =>
      have inv := run.inv sound
      rcases inv.ready.acknowledge_programmed (inv.idle enabled).2 acknowledged with
        ⟨own, line, other, has, pending, rfl, rfl⟩ | ⟨rfl, -⟩
      · rw [ready.filled] at offset
        obtain rfl : own = isr := injective offset
        refine ⟨fun v isr' member => ?_, fun _ => inv.accept enabled has pending⟩
        rcases List.mem_append.mp member with before | new
        · exact run.quiet v isr' before
        · cases List.mem_singleton.mp new
          exact other
      · exact absurd present (ready.absent 0x22 fun isr => by cases isr <;> decide)
    | fault => exact ⟨run.quiet, nofun⟩
    | write next => exact ⟨run.quiet, fun sound => (run.inv sound).write next⟩
    | iret disabled done =>
      exact ⟨run.quiet, fun sound =>
        (run.inv sound).serve ready injective (.iret disabled done)⟩

theorem programmedInv_run (ready : GatesReady gates address)
    (injective : Function.Injective address) (start : ProgrammedInv s)
    (run : Relation.ReflTransGen (IrqStep .programmed gates address) s s') : ProgrammedInv s' := by
  induction run with
  | refl => exact start
  | tail _ step ih => exact ih.step ready injective step

/-! ## Without new edges -/

/-- The lines of the handlers that are pending. -/
def pendingCount (p : PicPair) : Nat :=
  ([0, 1, 12] : List (Fin 16)).countP fun line => decide (p.Pending line)

/-- What the processor has still to do: for a handler that is to be entered, at most two
writes and the return. -/
def irqWork (s : IrqState) : Nat :=
  4 * pendingCount s.pics + if s.enabled then 0 else s.todo.length + 1

theorem pendingCount_le (p : PicPair) : pendingCount p ≤ 3 := List.countP_le_length

theorem irqWork_le (inv : IrqInv s) : irqWork s ≤ 15 := by
  have count := pendingCount_le s.pics
  unfold irqWork
  cases inv.phase with
  | idle enabled =>
    rw [if_pos enabled]
    omega
  | cascaded disabled todo =>
    rw [if_neg (ne_true_of_eq_false disabled), todo]
    have length : [((0xA0 : UInt16), (0x20 : UInt8)), (0x20, 0x20)].length = 2 := rfl
    omega
  | serving disabled todo =>
    rw [if_neg (ne_true_of_eq_false disabled), todo]
    have length : [((0x20 : UInt16), (0x20 : UInt8))].length = 1 := rfl
    omega
  | returning disabled todo =>
    rw [if_neg (ne_true_of_eq_false disabled), todo, List.length_nil]
    omega

/-- Entering a handler takes its line off the count. -/
theorem PicsReady.pendingCount_take {p : PicPair} (ready : PicsReady p) {isr : Isr} {line : Fin 16}
    (own : isr.line = some line) (pending : p.Pending line) :
    pendingCount (isr.take p) + 1 = pendingCount p := by
  have take (l : Fin 16) :
    decide ((isr.take p).Pending l) = (decide (p.Pending l) && decide (l ≠ line)) := by
    rw [← Bool.decide_and, decide_eq_decide, ready.pending_take, own, Ne, Option.some.injEq,
      eq_comm]
  have here := decide_eq_true pending
  unfold pendingCount
  cases isr with
  | timer =>
    obtain rfl := Option.some.inj own
    simp only [List.countP_cons, List.countP_nil, take, here]
    simp
  | keyboard =>
    obtain rfl := Option.some.inj own
    simp only [List.countP_cons, List.countP_nil, take, here]
    simp
    omega
  | mouse =>
    obtain rfl := Option.some.inj own
    simp only [List.countP_cons, List.countP_nil, take, here]
    simp
    omega
  | pageFault => cases own

/-- Every step of the processor makes what it has to do less. -/
theorem IrqInv.serve_work (inv : IrqInv s) (ready : GatesReady gates address)
    (injective : Function.Injective address) (step : IrqServe .fixed gates address s s') :
    irqWork s' < irqWork s := by
  cases step with
  | @accept v pics isr enabled _ acknowledged _ _ offset =>
    obtain ⟨own, line, has, pending, rfl, rfl⟩ :=
      inv.ready.acknowledge_fixed (inv.idle enabled).2 acknowledged
    rw [ready.filled] at offset
    obtain rfl : own = isr := injective offset
    have count := inv.ready.pendingCount_take has pending
    have writes : own.picWrites.length ≤ 2 := by cases own <;> decide
    simp only [irqWork, enabled, if_true, Bool.false_eq_true, if_false]
    omega
  | @fault v pics enabled _ acknowledged absent =>
    obtain ⟨own, line, _, _, rfl, rfl⟩ :=
      inv.ready.acknowledge_fixed (inv.idle enabled).2 acknowledged
    have present : (0x8E : UInt8) &&& 0x80 ≠ 0 := by decide
    rw [ready.filled] at absent
    exact absurd present absent
  | @write port b rest next =>
    have disabled : s.enabled = false := by
      refine eq_false_of_ne_true fun enabled => ?_
      have empty := (inv.idle enabled).1
      rw [next] at empty
      cases empty
    have count : pendingCount (s.pics.writePort port b) = pendingCount s.pics :=
      List.countP_congr fun l _ => by
        simp only [decide_eq_true_eq]
        exact inv.write_pending next l
    simp only [irqWork, count, disabled, next, List.length_cons, Bool.false_eq_true, if_false]
    omega
  | iret disabled done =>
    simp only [irqWork, disabled, done, List.length_nil, Bool.false_eq_true, if_false, if_true]
    omega

/-- A processor that can do nothing has interrupts enabled, and no handler's line is pending. -/
theorem IrqInv.stuck (inv : IrqInv s) (ready : GatesReady gates address)
    (stuck : ∀ s', ¬IrqServe .fixed gates address s s') :
    s.enabled = true ∧ ∀ isr line, Isr.line isr = some line → ¬s.pics.Pending line := by
  cases inv.phase with
  | idle enabled todo idle =>
    refine ⟨enabled, fun isr line has pending => ?_⟩
    obtain ⟨v, p', acknowledged⟩ := inv.ready.acknowledge_isSome idle has pending .fixed
    obtain ⟨own, _, _, _, rfl, rfl⟩ := inv.ready.acknowledge_fixed idle acknowledged
    have gate := ready.filled own
    have present : (0x8E : UInt8) &&& 0x80 ≠ 0 := by decide
    have disables : (0x8E : UInt8) &&& 0x1F = 0x0E := by decide
    exact stuck _ (.accept enabled inv.sound acknowledged (gate ▸ present) (gate ▸ disables)
      (congrArg Gate.offset gate))
  | cascaded disabled todo => exact absurd (.write todo) (stuck _)
  | serving disabled todo => exact absurd (.write todo) (stuck _)
  | returning disabled todo => exact absurd (.iret disabled todo) (stuck _)

/-- As many steps of the processor as there are, and what is left after them. -/
theorem serve_chain (ready : GatesReady gates address) (injective : Function.Injective address)
    {t : Nat → IrqState} {n : Nat} (start : IrqInv (t 0))
    (chain : ∀ i < n, IrqServe .fixed gates address (t i) (t (i + 1))) :
    IrqInv (t n) ∧ n + irqWork (t n) ≤ irqWork (t 0) := by
  induction n with
  | zero => exact ⟨start, (Nat.zero_add _).le⟩
  | succ n ih =>
    obtain ⟨inv, bound⟩ := ih fun i lt => chain i (Nat.lt_succ_of_lt lt)
    have step := chain n n.lt_succ_self
    have work := inv.serve_work ready injective step
    exact ⟨inv.serve ready injective step, by omega⟩

end Steps

/-! ## A mouse interrupt -/

def picReset : Pic := ⟨∅, ∅, 0, 0, 0, false, false, false, .mask⟩

def handlersAt : Isr → UInt32
  | .timer => 0x00101000
  | .keyboard => 0x00101040
  | .mouse => 0x00101080
  | .pageFault => 0x001010C0

theorem handlersAt_injective : Function.Injective handlersAt := by
  intro a b same
  cases a <;> cases b <;> first | rfl | exact absurd same (by decide)

/-- An edge at line 12. -/
def mouseRaised : IrqState :=
  { irqBoot ⟨picReset, picReset⟩ with
    pics := (irqBoot ⟨picReset, picReset⟩).pics.raise 12
    log := [.raised 12] }

/-- In the handler, with its last `n` writes to make. -/
def mouseServing (n : Nat) : IrqState :=
  { mouseRaised with
    pics := (Isr.mouse.take mouseRaised.pics).writePorts (Isr.mouse.picWrites.take (2 - n))
    enabled := false
    todo := Isr.mouse.picWrites.drop (2 - n)
    log := [.raised 12, .served 0x2C .mouse] }

/-- What the processor does after the edge. -/
def mouseTrace : Nat → IrqState
  | 0 => mouseRaised
  | 1 => mouseServing 2
  | 2 => mouseServing 1
  | 3 => mouseServing 0
  | _ => { mouseServing 0 with enabled := true }

abbrev handlerGates : UInt8 → Gate :=
  fetchGate (idtImage handlersAt) (lidt (idtImage handlersAt) 0x1000).2.toNat

theorem handlerGates_ready : GatesReady handlerGates handlersAt :=
  gatesReady_idtInit (idtImage_operand handlersAt) (idtImage_table handlersAt)

theorem mouseTrace_raise : Relation.ReflTransGen (IrqStep .fixed handlerGates handlersAt)
    (irqBoot ⟨picReset, picReset⟩) (mouseTrace 0) :=
  .single (.raise (by decide : (12 : Fin 16) ≠ 2))

theorem mouseTrace_serve :
    ∀ i < 4, IrqServe .fixed handlerGates handlersAt (mouseTrace i) (mouseTrace (i + 1))
  | 0, _ => by
    have gate := handlerGates_ready.filled .mouse
    have present : (handlerGates Isr.mouse.vector).Present := by
      rw [gate]
      decide
    have disables : (handlerGates Isr.mouse.vector).Disables := by
      rw [gate]
      decide
    have acknowledged : mouseRaised.pics.acknowledge .fixed =
        some (Isr.mouse.vector, Isr.mouse.take mouseRaised.pics) := by decide
    exact .accept rfl rfl acknowledged present disables (congrArg Gate.offset gate)
  | 1, _ => .write (rfl : (mouseServing 2).todo = [(0xA0, 0x20), (0x20, 0x20)])
  | 2, _ => .write (rfl : (mouseServing 1).todo = [(0x20, 0x20)])
  | 3, _ => .iret rfl rfl

theorem mouseTrace_stuck (s : IrqState) :
    ¬IrqServe .fixed handlerGates handlersAt (mouseTrace 4) s := by
  have none_ : (mouseTrace 4).pics.acknowledge .fixed = none := by decide
  intro step
  cases step with
  | accept _ _ acknowledged => rw [none_] at acknowledged; cases acknowledged
  | fault _ _ acknowledged => rw [none_] at acknowledged; cases acknowledged
  | write next => cases next
  | iret disabled => cases disabled

/-! ## From the tables of `idt_init` -/

section Boot

variable {mem : ByteMemory} {ptr : Nat} {idtAddress : UInt32} {address : Isr → UInt32}
  {p : PicPair} {s : IrqState}

/-- **Every interrupt is served, once, by its own handler.**  On controllers that are connected
in any case and have nothing in service, in every run from `load_idt` on no vector is
without a gate; with interrupts enabled nothing is in service; every handler that is entered
is the one for its vector and has a line; and on every line edges and services alternate, up
to edges that merge, with an edge owed exactly while it is pending. -/
theorem interrupts_served (operand : WordsAt mem ptr (idtPtr idtAddress))
    (table : IdtAt mem idtAddress.toNat (idtInit idtBoot address))
    (injective : Function.Injective address) (idle : PicsIdle p)
    (run : Relation.ReflTransGen
      (IrqStep .fixed (fetchGate mem (lidt mem ptr).2.toNat) address) (irqBoot p) s) :
    s.faulted = false ∧ (s.enabled = true → PicsIdle s.pics) ∧
      (∀ v isr, .served v isr ∈ s.log → v = isr.vector ∧ isr.line ≠ none) ∧
      ∀ line, owed line s.log = some (decide (s.pics.Pending line)) := by
  have inv := irqInv_run (gatesReady_idtInit operand table) injective (irqInv_boot idle) run
  exact ⟨inv.sound, fun enabled => (inv.idle enabled).2, inv.served, inv.owed⟩

theorem interrupts_served_mouse :
    owed 12 [.raised 12, .served 0x2C .mouse] =
      some (decide ((mouseTrace 1).pics.Pending 12)) :=
  (interrupts_served (idtImage_operand handlersAt) (idtImage_table handlersAt) handlersAt_injective
    ⟨rfl, rfl⟩ (mouseTrace_raise.tail (.serve (mouseTrace_serve 0 (by decide))))).2.2.2 12

/-- **Pending interrupts are served.**  On such controllers, from any reachable state, the
processor takes at most fifteen steps without new edges; where it has no step left,
interrupts are enabled and no handler's line is owed a service. -/
theorem interrupts_drain (operand : WordsAt mem ptr (idtPtr idtAddress))
    (table : IdtAt mem idtAddress.toNat (idtInit idtBoot address))
    (injective : Function.Injective address) (idle : PicsIdle p) {t : Nat → IrqState} {n : Nat}
    (run : Relation.ReflTransGen
      (IrqStep .fixed (fetchGate mem (lidt mem ptr).2.toNat) address) (irqBoot p) (t 0))
    (chain : ∀ i < n,
      IrqServe .fixed (fetchGate mem (lidt mem ptr).2.toNat) address (t i) (t (i + 1))) :
    n ≤ 15 ∧ ((∀ s', ¬IrqServe .fixed (fetchGate mem (lidt mem ptr).2.toNat) address (t n) s') →
      (t n).enabled = true ∧
        ∀ isr line, Isr.line isr = some line → owed line (t n).log = some false) := by
  have ready := gatesReady_idtInit operand table
  have start := irqInv_run ready injective (irqInv_boot idle) run
  obtain ⟨inv, bound⟩ := serve_chain ready injective start chain
  have work := irqWork_le start
  refine ⟨by omega, fun stuck => ?_⟩
  obtain ⟨enabled, served⟩ := inv.stuck ready stuck
  refine ⟨enabled, fun isr line has => ?_⟩
  rw [inv.owed, decide_eq_false (served isr line has)]

theorem interrupts_drain_mouse :
    (mouseTrace 4).enabled = true ∧
      ∀ isr line, Isr.line isr = some line → owed line (mouseTrace 4).log = some false :=
  (interrupts_drain (idtImage_operand handlersAt) (idtImage_table handlersAt) handlersAt_injective
    ⟨rfl, rfl⟩ mouseTrace_raise mouseTrace_serve).2 mouseTrace_stuck

/-- There the first mouse interrupt has the vector 0x22. -/
theorem mouse_faults {gates : UInt8 → Gate} (idle : PicsIdle p) (absent : ¬(gates 0x22).Present) :
    ∃ s, Relation.ReflTransGen (IrqStep .programmed gates address) (irqBoot p) s ∧
      s.faulted = true := by
  have boot : IrqInv (irqBoot p) := irqInv_boot idle
  have inv := boot.raise (show (12 : Fin 16) ≠ 2 by decide)
  have nothing (line : Fin 16) : ¬(irqBoot p).pics.Pending line := not_pending_remap p line
  have edge : IrqStep .programmed gates address (irqBoot p)
      { irqBoot p with
        pics := (irqBoot p).pics.raise 12, log := (irqBoot p).log ++ [.raised 12] } :=
    .raise (by decide)
  have enabled : (irqBoot p).enabled = true := rfl
  have sound : (irqBoot p).faulted = false := rfl
  generalize irqBoot p = s at *
  obtain ⟨-, idle⟩ := inv.idle enabled
  obtain ⟨v, pics, acknowledged⟩ := inv.ready.acknowledge_isSome idle
    (show Isr.line .mouse = some 12 from rfl)
    (PicPair.pending_raise.mpr (.inl rfl)) .programmed
  rcases inv.ready.acknowledge_programmed idle acknowledged with
    ⟨isr, line, other, own, pending, -⟩ | ⟨rfl, -⟩
  · have twelve := (PicPair.pending_raise.mp pending).resolve_right (nothing line)
    rw [twelve] at own
    cases isr with
    | timer => exact absurd own (by decide)
    | keyboard => exact absurd own (by decide)
    | mouse => exact absurd rfl other
    | pageFault => cases own
  · exact ⟨_, .tail (.single edge) (.serve (.fault enabled sound acknowledged absent)), rfl⟩

/-- **The third initialisation words.**  The kernel runs without a vector that has no gate
exactly on controllers that are connected in any case.  In every run on ones that go by the
words the mouse's handler is never entered, and the processor is given the vector of a timer
or keyboard edge that is pending, or 0x22 for one of the mouse. -/
theorem interrupts_faultless_iff (operand : WordsAt mem ptr (idtPtr idtAddress))
    (table : IdtAt mem idtAddress.toNat (idtInit idtBoot address))
    (injective : Function.Injective address) (idle : PicsIdle p) (wiring : PicWiring) :
    ((∀ s, Relation.ReflTransGen (IrqStep wiring (fetchGate mem (lidt mem ptr).2.toNat) address)
      (irqBoot p) s → s.faulted = false) ↔ wiring = .fixed) ∧
    ∀ s, Relation.ReflTransGen (IrqStep .programmed (fetchGate mem (lidt mem ptr).2.toNat) address)
      (irqBoot p) s → (∀ v isr, .served v isr ∈ s.log → isr ≠ .mouse) ∧
        ∀ v pics, s.enabled = true → s.faulted = false →
          s.pics.acknowledge .programmed = some (v, pics) →
          v = 0x20 ∧ s.pics.Pending 0 ∨ v = 0x21 ∧ s.pics.Pending 1 ∨
            v = 0x22 ∧ s.pics.Pending 12 := by
  have ready := gatesReady_idtInit operand table
  refine ⟨⟨fun sound => ?_, ?_⟩, fun s run => ?_⟩
  · cases wiring with
    | fixed => rfl
    | programmed =>
      have absent := ready.absent 0x22 fun isr => by cases isr <;> decide
      obtain ⟨s, run, faulted⟩ := mouse_faults idle absent
      rw [sound s run] at faulted
      cases faulted
  · rintro rfl s run
    exact (irqInv_run ready injective (irqInv_boot idle) run).sound
  · obtain ⟨quiet, inv⟩ :=
      programmedInv_run ready injective (programmedInv_boot idle) run
    refine ⟨quiet, fun v pics enabled sound acknowledged => ?_⟩
    have inv := inv sound
    rcases inv.ready.acknowledge_programmed (inv.idle enabled).2 acknowledged with
      ⟨isr, line, other, own, pending, rfl, -⟩ | mouse
    · cases isr with
      | timer =>
        obtain rfl := Option.some.inj own
        exact .inl ⟨rfl, pending⟩
      | keyboard =>
        obtain rfl := Option.some.inj own
        exact .inr (.inl ⟨rfl, pending⟩)
      | mouse => exact absurd rfl other
      | pageFault => cases own
    · exact .inr (.inr mouse)

theorem interrupts_faultless_iff_reset :
    ¬∀ s, Relation.ReflTransGen (IrqStep .programmed handlerGates handlersAt)
      (irqBoot ⟨picReset, picReset⟩) s → s.faulted = false := by
  intro sound
  cases (interrupts_faultless_iff (idtImage_operand handlersAt) (idtImage_table handlersAt)
    handlersAt_injective ⟨rfl, rfl⟩ .programmed).1.mp sound

end Boot

end MOKernel
