import Mathlib

/-!
# Texts between separators

A text that does not contain the separator is determined by what it and a separator
begin.  Joined texts are therefore told apart as soon as none of them contains the
separator (`joinTexts_injective`).
-/

namespace MOKernel

variable {α : Type*} {sep : α}

/-- The first separator ends the first text. -/
theorem append_sep_inj {x y z w : List α} (left : sep ∉ x) (right : sep ∉ y)
    (equal : x ++ sep :: z = y ++ sep :: w) : x = y ∧ z = w := by
  induction x generalizing y with
  | nil =>
    cases y with
    | nil => exact ⟨rfl, List.tail_eq_of_cons_eq equal⟩
    | cons b y => exact absurd (List.head_eq_of_cons_eq equal) (List.ne_of_not_mem_cons right)
  | cons a x ih =>
    cases y with
    | nil =>
      exact absurd (List.head_eq_of_cons_eq equal).symm (List.ne_of_not_mem_cons left)
    | cons b y =>
      obtain rfl : a = b := List.head_eq_of_cons_eq equal
      obtain ⟨rfl, rest⟩ := ih (List.not_mem_of_not_mem_cons left)
        (List.not_mem_of_not_mem_cons right) (List.tail_eq_of_cons_eq equal)
      exact ⟨rfl, rest⟩

/-- Each text after a separator. -/
def joinTexts (sep : α) (texts : List (List α)) : List α := texts.flatMap fun t => sep :: t

@[simp] theorem joinTexts_nil : joinTexts sep [] = [] := rfl

@[simp] theorem joinTexts_cons (t : List α) (texts : List (List α)) :
    joinTexts sep (t :: texts) = sep :: (t ++ joinTexts sep texts) := rfl

/-- A join is empty or starts with the separator. -/
theorem joinTexts_cases (sep : α) (texts : List (List α)) :
    joinTexts sep texts = [] ∨ ∃ rest, joinTexts sep texts = sep :: rest := by
  cases texts with
  | nil => exact .inl rfl
  | cons t texts => exact .inr ⟨_, rfl⟩

/-- Texts without the separator are determined by their join. -/
theorem joinTexts_injective {texts texts' : List (List α)} (left : ∀ t ∈ texts, sep ∉ t)
    (right : ∀ t ∈ texts', sep ∉ t) (equal : joinTexts sep texts = joinTexts sep texts') :
    texts = texts' := by
  induction texts generalizing texts' with
  | nil =>
    cases texts' with
    | nil => rfl
    | cons t' texts' => cases equal
  | cons t texts ih =>
    cases texts' with
    | nil => cases equal
    | cons t' texts' =>
      rw [joinTexts_cons, joinTexts_cons] at equal
      have inner := List.tail_eq_of_cons_eq equal
      have free := left t (by simp)
      have free' := right t' (by simp)
      have rest : t = t' ∧ joinTexts sep texts = joinTexts sep texts' := by
        rcases joinTexts_cases sep texts with nil | ⟨rest, cons⟩ <;>
          rcases joinTexts_cases sep texts' with nil' | ⟨rest', cons'⟩
        · simpa [nil, nil'] using inner
        · -- the shorter join would put a separator into a text
          rw [nil, cons', List.append_nil] at inner
          exact absurd (inner ▸ List.mem_append_right t' List.mem_cons_self) free
        · rw [nil', cons, List.append_nil] at inner
          exact absurd (inner ▸ List.mem_append_right t List.mem_cons_self) free'
        · rw [cons, cons'] at inner
          obtain ⟨texts_eq, rests⟩ := append_sep_inj free free' inner
          exact ⟨texts_eq, by rw [cons, cons', rests]⟩
      obtain ⟨rfl, joined⟩ := rest
      rw [ih (fun t member => left t (List.mem_cons_of_mem _ member))
        (fun t member => right t (List.mem_cons_of_mem _ member)) joined]

end MOKernel
