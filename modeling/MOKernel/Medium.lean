import Mathlib

/-!
# Parties on a shared medium

Parties of an arbitrary type, each with a state.  Whatever a party has put on the medium
stays there: any party may take any of it, any number of times, in any order, or never.
So loss, duplication and reordering are all runs of `MediumStep`.

`mediumInvariant` is the rule for what holds in every run: a property of each party's
state that makes everything it has put on the medium genuine, and that the party keeps
when it acts by itself and when it takes something genuine.
-/

namespace MOKernel

variable {ι σ μ : Type} [DecidableEq ι]

/-- How the parties act: what a state has put on the medium, what a party does by itself,
and what it does with something it takes. -/
structure MediumParty (ι σ μ : Type) where
  put : σ → Set μ
  acts : ι → σ → σ → Prop
  takes : ι → μ → σ → σ → Prop

/-- One party acts, or takes what some party has put on the medium. -/
inductive MediumStep (party : MediumParty ι σ μ) (s : ι → σ) : (ι → σ) → Prop
  | act {i : ι} {t : σ} : party.acts i (s i) t → MediumStep party s (Function.update s i t)
  | take {i j : ι} {m : μ} {t : σ} : m ∈ party.put (s j) → party.takes i m (s i) t →
    MediumStep party s (Function.update s i t)

/-- Everything that can happen from a state. -/
abbrev MediumRun (party : MediumParty ι σ μ) : (ι → σ) → (ι → σ) → Prop :=
  Relation.ReflTransGen (MediumStep party)

variable {party : MediumParty ι σ μ} {Local : ι → σ → Prop} {Genuine : ι → μ → Prop}

/-! ## Invariants -/

/-- **Step.**  One step keeps the local property of every party. -/
theorem MediumStep.keeps {s s' : ι → σ} (step : MediumStep party s s')
    (puts : ∀ j t, Local j t → ∀ m ∈ party.put t, Genuine j m)
    (acts : ∀ i t t', party.acts i t t' → Local i t → Local i t')
    (takes : ∀ i j m t t', party.takes i m t t' → Genuine j m → Local i t → Local i t')
    (start : ∀ i, Local i (s i)) (k : ι) : Local k (s' k) := by
  cases step with
  | @act i t moves =>
    rcases eq_or_ne k i with rfl | ne
    · rw [Function.update_self]
      exact acts k _ t moves (start k)
    · rw [Function.update_of_ne ne]
      exact start k
  | @take i j m t there taken =>
    rcases eq_or_ne k i with rfl | ne
    · rw [Function.update_self]
      exact takes k j m _ t taken (puts j _ (start j) m there) (start k)
    · rw [Function.update_of_ne ne]
      exact start k

/-- **Run.**  What the parties keep holds in every state of every run. -/
theorem mediumInvariant {s s' : ι → σ} (run : MediumRun party s s')
    (puts : ∀ j t, Local j t → ∀ m ∈ party.put t, Genuine j m)
    (acts : ∀ i t t', party.acts i t t' → Local i t → Local i t')
    (takes : ∀ i j m t t', party.takes i m t t' → Genuine j m → Local i t → Local i t')
    (start : ∀ i, Local i (s i)) : ∀ i, Local i (s' i) := by
  induction run with
  | refl => exact start
  | tail _ step ih => exact step.keeps puts acts takes ih

/-! ## Runs of some of the parties -/

/-- A run that leaves every party outside `A` as it was. -/
structure MediumRunOf (party : MediumParty ι σ μ) (A : Set ι) (s s' : ι → σ) : Prop where
  run : MediumRun party s s'
  others : ∀ k, k ∉ A → s' k = s k

variable {A : Set ι} {s s' s'' : ι → σ} {i j : ι} {t : σ}

theorem MediumRunOf.refl : MediumRunOf party A s s := ⟨.refl, fun _ _ => rfl⟩

theorem MediumRunOf.trans (first : MediumRunOf party A s s') (second : MediumRunOf party A s' s'') :
    MediumRunOf party A s s'' :=
  ⟨first.run.trans second.run, fun k out => (second.others k out).trans (first.others k out)⟩

theorem MediumStep.runOf (step : MediumStep party s (Function.update s i t)) (member : i ∈ A) :
    MediumRunOf party A s (Function.update s i t) := by
  refine ⟨.single step, fun k out => Function.update_of_ne ?_ _ _⟩
  rintro rfl
  exact out member

theorem MediumRunOf.act (moves : party.acts i (s i) t) (member : i ∈ A) :
    MediumRunOf party A s (Function.update s i t) :=
  (MediumStep.act moves).runOf member

theorem MediumRunOf.take {m : μ} (there : m ∈ party.put (s j)) (taken : party.takes i m (s i) t)
    (member : i ∈ A) : MediumRunOf party A s (Function.update s i t) :=
  (MediumStep.take there taken).runOf member

end MOKernel
