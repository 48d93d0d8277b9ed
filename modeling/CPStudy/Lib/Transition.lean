import Mathlib.Data.List.Basic
import Mathlib.Tactic.Common

/-!
# Runs of a labelled transition system

A system is a function `step : σ → α → Option σ` that says what the action `α` does in a state,
with `none` where it is not enabled. `Reaches step ok s t` is the existence of a run from `s` to
`t` each of whose steps is allowed by `ok`, a relation between the state before the step and the
action taken there: the discipline that the callers of a component keep, or the condition under
which a property of all runs is proved. `Reaches.invariant` is the induction over runs that every
safety theorem uses, and `exists_reaches` replays a concrete list of actions.
-/

namespace CPStudy.Lib

variable {σ τ α : Type*} {step : σ → α → Option σ} {ok ok' : σ → α → Prop} {s t u : σ} {a : α}

/-- Some run of `step` from `s` ends in the last argument, each of its steps allowed by `ok`. -/
inductive Reaches (step : σ → α → Option σ) (ok : σ → α → Prop) (s : σ) : σ → Prop
  | refl : Reaches step ok s s
  | tail {t u : σ} {a : α} : Reaches step ok s t → ok t a → step t a = some u →
      Reaches step ok s u

/-- A run can be followed by another. -/
theorem Reaches.trans (h : Reaches step ok s t) (h' : Reaches step ok t u) :
    Reaches step ok s u := by
  induction h' with
  | refl => exact h
  | tail _ hok hstep ih => exact ih.tail hok hstep

/-- A run of one step. -/
theorem Reaches.single (hok : ok s a) (h : step s a = some t) : Reaches step ok s t :=
  Reaches.refl.tail hok h

/-- A weaker discipline allows more runs. -/
theorem Reaches.mono (hle : ∀ s a, ok s a → ok' s a) (h : Reaches step ok s t) :
    Reaches step ok' s t := by
  induction h with
  | refl => exact .refl
  | tail _ hok hstep ih => exact ih.tail (hle _ _ hok) hstep

/-- What holds at the start of a run and is preserved by each of its steps holds at its end. -/
theorem Reaches.invariant {I : σ → Prop} (h0 : I s)
    (hI : ∀ t a u, I t → ok t a → step t a = some u → I u) (h : Reaches step ok s t) : I t := by
  induction h with
  | refl => exact h0
  | tail _ hok hstep ih => exact hI _ _ _ ih hok hstep

/-- Induction over runs with an invariant `J` at hand that is proved before. -/
theorem Reaches.invariant_of {I J : σ → Prop} (hJ : ∀ t, Reaches step ok s t → J t) (h0 : I s)
    (hI : ∀ t a u, J t → I t → ok t a → step t a = some u → I u) (h : Reaches step ok s t) :
    I t := by
  induction h with
  | refl => exact h0
  | tail hrun hok hstep ih => exact hI _ _ _ (hJ _ hrun) ih hok hstep

/-- A discipline that is the weaker one in every state of its runs allows more runs. -/
theorem Reaches.mono_of {J : σ → Prop} (hJ : ∀ t, Reaches step ok s t → J t)
    (hle : ∀ t a u, J t → ok t a → step t a = some u → ok' t a) (h : Reaches step ok s t) :
    Reaches step ok' s t := by
  induction h with
  | refl => exact .refl
  | tail hrun hok hstep ih => exact ih.tail (hle _ _ _ (hJ _ hrun) hok hstep) hstep

/-- Some run of so many steps from `s` ends in the last argument, each of them allowed by `ok`. -/
inductive Steps (step : σ → α → Option σ) (ok : σ → α → Prop) (s : σ) : ℕ → σ → Prop
  | refl : Steps step ok s 0 s
  | tail {n : ℕ} {t u : σ} {a : α} : Steps step ok s n t → ok t a → step t a = some u →
      Steps step ok s (n + 1) u

/-- A run of so many steps is a run. -/
theorem Steps.reaches {n : ℕ} (h : Steps step ok s n t) : Reaches step ok s t := by
  induction h with
  | refl => exact .refl
  | tail _ hok hstep ih => exact ih.tail hok hstep

/-- What every step makes smaller bounds the number of steps. -/
theorem Steps.add_le {μ : σ → ℕ} (hμ : ∀ t a u, ok t a → step t a = some u → μ u < μ t) {n : ℕ}
    (h : Steps step ok s n t) : n + μ t ≤ μ s := by
  induction h with
  | refl => exact Nat.le_of_eq (Nat.zero_add _)
  | tail _ hok hstep ih =>
    have hlt := hμ _ _ _ hok hstep
    omega

/-- Where every step makes something smaller, some run comes to a state without a step. -/
theorem Reaches.exists_rest {μ : σ → ℕ} (hμ : ∀ t a u, ok t a → step t a = some u → μ u < μ t)
    (s : σ) : ∃ t, Reaches step ok s t ∧ ∀ a, ok t a → step t a = none := by
  induction hn : μ s using Nat.strongRecOn generalizing s with
  | ind n ih =>
    by_cases hrest : ∀ a, ok s a → step s a = none
    · exact ⟨s, .refl, hrest⟩
    · obtain ⟨a, ha⟩ := not_forall.mp hrest
      obtain ⟨hok, hstep⟩ := Classical.not_imp.mp ha
      obtain ⟨t, ht⟩ := Option.ne_none_iff_exists'.mp hstep
      obtain ⟨u, hu, hrest⟩ := ih (μ t) (hn ▸ hμ s a t hok ht) t rfl
      exact ⟨u, (Reaches.single hok ht).trans hu, hrest⟩

/-- Replays a list of actions, refusing every action that `ok` does not allow. -/
def replay (step : σ → α → Option σ) (ok : σ → α → Bool) : σ → List α → Option σ
  | s, [] => some s
  | s, a :: as => if ok s a then (step s a).bind (replay step ok · as) else none

/-- A replayed list of actions is a run. -/
theorem reaches_of_replay {okb : σ → α → Bool} :
    ∀ {s t : σ} {as : List α}, replay step okb s as = some t →
      Reaches step (fun s a => okb s a = true) s t
  | s, t, [], h => by
    simp only [replay, Option.some.injEq] at h
    exact h ▸ .refl
  | s, t, a :: as, h => by
    rw [replay] at h
    split at h
    case isTrue hok =>
      obtain ⟨u, hu, h⟩ := Option.bind_eq_some_iff.mp h
      have h1 : Reaches step (fun s a => okb s a = true) s u := .single hok hu
      exact h1.trans (reaches_of_replay h)
    case isFalse => exact absurd h (by simp)

/-- A concrete list of actions that ends in a state where `p` holds: the form in which a run is
exhibited. -/
theorem exists_reaches (step : σ → α → Option σ) (okb : σ → α → Bool) (s : σ) (as : List α)
    (p : σ → Bool) (h : (replay step okb s as).any p = true) :
    ∃ t, Reaches step (fun s a => okb s a = true) s t ∧ p t = true := by
  cases ht : replay step okb s as with
  | none => simp [ht] at h
  | some t => exact ⟨t, reaches_of_replay ht, by simpa [ht] using h⟩

end CPStudy.Lib
