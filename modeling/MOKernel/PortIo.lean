import Mathlib

/-!
# Programs on ports

A program that reads and writes byte ports and reports to the outside in between.  It runs
on a device, which answers the reads; what the two do together is a list of events.

`Accesses` and `Writes` say of a program what it does whatever it is answered: the ports
it touches, and the list of its writes.  For a program whose writes depend on what it has
read, `WritesFor` says what they are in terms of its result.
-/

namespace MOKernel

/-- `read` goes on with the byte that the port gives. -/
inductive PortIo (ω α : Type)
  | done (a : α)
  | read (port : UInt16) (next : UInt8 → PortIo ω α)
  | write (port : UInt16) (b : UInt8) (next : PortIo ω α)
  | emit (o : ω) (next : PortIo ω α)

/-- A read may change the device. -/
structure PortDevice (σ : Type) where
  read : σ → UInt16 → UInt8 × σ
  write : σ → UInt16 → UInt8 → σ

inductive PortEvent (ω : Type)
  | read (port : UInt16) (b : UInt8)
  | write (port : UInt16) (b : UInt8)
  | emit (o : ω)

/-- The port that an event is at. -/
def PortEvent.port {ω : Type} : PortEvent ω → Option UInt16
  | .read port _ => some port
  | .write port _ => some port
  | .emit _ => none

def PortEvent.written {ω : Type} : PortEvent ω → Option (UInt16 × UInt8)
  | .write port b => some (port, b)
  | _ => none

/-- A finished run. -/
structure PortRun (ω σ α : Type) where
  value : α
  state : σ
  events : List (PortEvent ω)

namespace PortIo

variable {ω σ α β : Type}

def bind : PortIo ω α → (α → PortIo ω β) → PortIo ω β
  | done a, f => f a
  | read port next, f => read port fun b => (next b).bind f
  | write port b next, f => write port b (next.bind f)
  | emit o next, f => emit o (next.bind f)

instance : Monad (PortIo ω) where
  pure := done
  bind := bind

def readPort (port : UInt16) : PortIo ω UInt8 := read port done
def writePort (port : UInt16) (b : UInt8) : PortIo ω Unit := write port b (done ())
def report (o : ω) : PortIo ω Unit := emit o (done ())

def run (dev : PortDevice σ) : PortIo ω α → σ → PortRun ω σ α
  | done a, s => ⟨a, s, []⟩
  | read port next, s =>
    let answer := dev.read s port
    let rest := (next answer.1).run dev answer.2
    ⟨rest.value, rest.state, .read port answer.1 :: rest.events⟩
  | write port b next, s =>
    let rest := next.run dev (dev.write s port b)
    ⟨rest.value, rest.state, .write port b :: rest.events⟩
  | emit o next, s =>
    let rest := next.run dev s
    ⟨rest.value, rest.state, .emit o :: rest.events⟩

@[simp] theorem run_pure (dev : PortDevice σ) (a : α) (s : σ) :
    (pure a : PortIo ω α).run dev s = ⟨a, s, []⟩ := rfl

/-- One program after the other. -/
@[simp] theorem run_bind (dev : PortDevice σ) (p : PortIo ω α) (f : α → PortIo ω β) (s : σ) :
    (p >>= f).run dev s =
      ⟨((f (p.run dev s).value).run dev (p.run dev s).state).value,
        ((f (p.run dev s).value).run dev (p.run dev s).state).state,
        (p.run dev s).events ++ ((f (p.run dev s).value).run dev (p.run dev s).state).events⟩ := by
  change (p.bind f).run dev s = _
  induction p generalizing s with
  | done a => rfl
  | read port next ih => simp only [bind, run, ih, List.cons_append]
  | write port b next ih => simp only [bind, run, ih, List.cons_append]
  | emit o next ih => simp only [bind, run, ih, List.cons_append]

theorem value_bind (dev : PortDevice σ) (p : PortIo ω α) (f : α → PortIo ω β) (s : σ) :
    ((p >>= f).run dev s).value = ((f (p.run dev s).value).run dev (p.run dev s).state).value := by
  rw [run_bind]

theorem state_bind (dev : PortDevice σ) (p : PortIo ω α) (f : α → PortIo ω β) (s : σ) :
    ((p >>= f).run dev s).state = ((f (p.run dev s).value).run dev (p.run dev s).state).state := by
  rw [run_bind]

@[simp] theorem run_readPort (dev : PortDevice σ) (port : UInt16) (s : σ) :
    (readPort port : PortIo ω UInt8).run dev s =
      ⟨(dev.read s port).1, (dev.read s port).2, [.read port (dev.read s port).1]⟩ := rfl

@[simp] theorem run_writePort (dev : PortDevice σ) (port : UInt16) (b : UInt8) (s : σ) :
    (writePort port b : PortIo ω Unit).run dev s = ⟨(), dev.write s port b, [.write port b]⟩ := rfl

@[simp] theorem run_report (dev : PortDevice σ) (o : ω) (s : σ) :
    (report o : PortIo ω Unit).run dev s = ⟨(), s, [.emit o]⟩ := rfl

/-! ## Whatever the device answers -/

/-- The program touches only these ports. -/
def Accesses (p : PortIo ω α) (ports : Set UInt16) : Prop :=
  ∀ (σ : Type) (dev : PortDevice σ) (s : σ), ∀ event ∈ (p.run dev s).events,
    ∀ port, event.port = some port → port ∈ ports

/-- The writes of the program. -/
def Writes (p : PortIo ω α) (ws : List (UInt16 × UInt8)) : Prop :=
  ∀ (σ : Type) (dev : PortDevice σ) (s : σ), (p.run dev s).events.filterMap PortEvent.written = ws

/-- The writes of the program that has this result. -/
def WritesFor (p : PortIo ω α) (ws : α → List (UInt16 × UInt8)) : Prop :=
  ∀ (σ : Type) (dev : PortDevice σ) (s : σ),
    (p.run dev s).events.filterMap PortEvent.written = ws (p.run dev s).value

section Rules

variable {p : PortIo ω α} {f : α → PortIo ω β} {ports : Set UInt16}
  {ws vs : List (UInt16 × UInt8)}

theorem accesses_pure (a : α) : (pure a : PortIo ω α).Accesses ports := by
  intro σ dev s event member
  cases member

theorem Accesses.bind (first : p.Accesses ports) (rest : ∀ a, (f a).Accesses ports) :
    (p >>= f).Accesses ports := by
  intro σ dev s event member
  rw [run_bind] at member
  rcases List.mem_append.mp member with before | after
  · exact first σ dev s event before
  · exact rest _ σ dev _ event after

theorem accesses_readPort {port : UInt16} (there : port ∈ ports) :
    (readPort port : PortIo ω UInt8).Accesses ports := by
  intro σ dev s event member port' at_port
  rw [List.mem_singleton.mp member] at at_port
  exact Option.some.inj at_port ▸ there

theorem accesses_writePort {port : UInt16} (there : port ∈ ports) (b : UInt8) :
    (writePort port b : PortIo ω Unit).Accesses ports := by
  intro σ dev s event member port' at_port
  rw [List.mem_singleton.mp member] at at_port
  exact Option.some.inj at_port ▸ there

theorem accesses_report (o : ω) : (report o : PortIo ω Unit).Accesses ports := by
  intro σ dev s event member port at_port
  rw [List.mem_singleton.mp member] at at_port
  cases at_port

theorem writes_pure (a : α) : (pure a : PortIo ω α).Writes [] := fun _ _ _ => rfl

theorem Writes.bind (first : p.Writes ws) (rest : ∀ a, (f a).Writes vs) :
    (p >>= f).Writes (ws ++ vs) := by
  intro σ dev s
  rw [run_bind, List.filterMap_append, first, rest]

theorem Writes.bindFor {vs : β → List (UInt16 × UInt8)} (first : p.Writes ws)
    (rest : ∀ a, (f a).WritesFor vs) : (p >>= f).WritesFor fun b => ws ++ vs b := by
  intro σ dev s
  rw [run_bind, List.filterMap_append, first, rest]

/-- What is read is the result of the rest. -/
theorem Writes.bindReturning {g : α → PortIo ω α} {vs : α → List (UInt16 × UInt8)}
    (first : p.Writes ws) (rest : ∀ a, (g a).Writes (vs a))
    (returns : ∀ a (σ : Type) (dev : PortDevice σ) (s : σ), ((g a).run dev s).value = a) :
    (p >>= g).WritesFor fun a => ws ++ vs a := by
  intro σ dev s
  rw [run_bind, List.filterMap_append, first, rest, returns]

theorem writes_readPort (port : UInt16) : (readPort port : PortIo ω UInt8).Writes [] :=
  fun _ _ _ => rfl

theorem writes_writePort (port : UInt16) (b : UInt8) :
    (writePort port b : PortIo ω Unit).Writes [(port, b)] := fun _ _ _ => rfl

theorem writes_report (o : ω) : (report o : PortIo ω Unit).Writes [] := fun _ _ _ => rfl

end Rules

end PortIo

end MOKernel
