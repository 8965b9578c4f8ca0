import Mathlib

/-!
# Transcripts of a machine and what a specification allows

A machine over states `σ` takes commands and answers each one.  A specification over
states `τ` says which answers are allowed and what state they lead to; it may leave
both open.

* `transcript` is the run of a machine as its user sees it: the commands with the
  answers they got;
* `Served` is a transcript that a specification allows;
* `Served.of_simulation`: a relation that every answered command preserves makes every
  transcript of the machine one of the specification.
-/

namespace MOKernel

variable {σ τ α ρ : Type}

/-- The commands of a run, each with its answer. -/
def transcript (step : σ → α → σ) (reply : σ → α → ρ) : σ → List α → List (α × ρ)
  | _, [] => []
  | s, command :: commands =>
    (command, reply s command) :: transcript step reply (step s command) commands

/-- A transcript that a specification allows between two of its states. -/
inductive Served (spec : τ → α → ρ → τ → Prop) : τ → List (α × ρ) → τ → Prop
  | nil {t : τ} : Served spec t [] t
  | cons {t t' t'' : τ} {command : α} {answer : ρ} {rest : List (α × ρ)} :
    spec t command answer t' → Served spec t' rest t'' →
    Served spec t ((command, answer) :: rest) t''

theorem transcript_append (step : σ → α → σ) (reply : σ → α → ρ) (s : σ)
    (commands commands' : List α) :
    transcript step reply s (commands ++ commands') =
      transcript step reply s commands ++
        transcript step reply (commands.foldl step s) commands' := by
  induction commands generalizing s with
  | nil => rfl
  | cons command commands ih => rw [List.cons_append, transcript, ih, transcript]; rfl

/-- **Simulation.**  If related states stay related and the specification allows every
answer, for commands that meet `C` in the state they find, then it allows every
transcript of such commands. -/
theorem Served.of_simulation {spec : τ → α → ρ → τ → Prop} {step : σ → α → σ}
    {reply : σ → α → ρ} {R : σ → τ → Prop} {C : σ → α → Prop}
    (simulates : ∀ {s t command}, R s t → C s command →
      ∃ t', spec t command (reply s command) t' ∧ R (step s command) t')
    {s : σ} {t : τ} (related : R s t) (commands : List α)
    (meets : ∀ k command, commands[k]? = some command →
      C ((commands.take k).foldl step s) command) :
    ∃ t', Served spec t (transcript step reply s commands) t' ∧
      R (commands.foldl step s) t' := by
  induction commands generalizing s t with
  | nil => exact ⟨t, .nil, related⟩
  | cons command commands ih =>
    obtain ⟨t', allowed, related'⟩ := simulates related (meets 0 command rfl)
    have later : ∀ k command', commands[k]? = some command' →
        C ((commands.take k).foldl step (step s command)) command' := by
      intro k command' atK
      exact meets (k + 1) command' atK
    obtain ⟨t'', served, related''⟩ := ih related' later
    exact ⟨t'', .cons allowed served, related''⟩

end MOKernel
