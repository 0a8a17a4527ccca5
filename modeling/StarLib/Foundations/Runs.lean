import Mathlib.Logic.Basic

/-! # Runs whose steps meet a condition

A run is a list of actions, `actions.foldl step s` is where it ends. `Meets step ok s actions` says that every action
of the run is taken in a state in which `ok` allows it; so does every beginning of such a run. What allowed steps
preserve holds at the end of allowed runs.
-/

namespace Foundations
set_option autoImplicit false
set_option maxHeartbeats 250000
set_option maxRecDepth 120000

variable {σ α : Type*} {step : σ → α → σ} {ok : σ → α → Prop}

def Meets (step : σ → α → σ) (ok : σ → α → Prop) : σ → List α → Prop
  | _, [] => True
  | s, a :: actions => ok s a ∧ Meets step ok (step s a) actions

theorem Meets.run {P : σ → Prop} (hstep : ∀ s a, P s → ok s a → P (step s a)) {s : σ} {actions : List α}
    (h : Meets step ok s actions) (hs : P s) : P (actions.foldl step s) := by
  induction actions generalizing s with
  | nil => exact hs
  | cons a actions ih => exact ih h.2 (hstep s a hs h.1)

/-- Two conditions that agree where an invariant holds that the first one keeps. -/
theorem meets_congr {P : σ → Prop} {ok' : σ → α → Prop} (hstep : ∀ s a, P s → ok s a → P (step s a))
    (h : ∀ s a, P s → (ok s a ↔ ok' s a)) {s : σ} {actions : List α} (hs : P s) :
    Meets step ok s actions ↔ Meets step ok' s actions := by
  induction actions generalizing s with
  | nil => exact Iff.rfl
  | cons a actions ih =>
    constructor
    · rintro ⟨ha, hrest⟩
      exact ⟨(h s a hs).1 ha, (ih (hstep s a hs ha)).1 hrest⟩
    · rintro ⟨ha', hrest⟩
      have ha := (h s a hs).2 ha'
      exact ⟨ha, (ih (hstep s a hs ha)).2 hrest⟩

end Foundations
