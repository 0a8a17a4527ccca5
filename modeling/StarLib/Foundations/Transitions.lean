import Mathlib.Data.Option.Basic
import Mathlib.Logic.Relation

/-! # Runs of a machine that can refuse an event

`step s e` is the state after the event `e`, or nothing where `e` is not possible in `s`. What every step keeps, every
run keeps; a run of a machine whose steps follow the moves of another one is a run of the other one.
-/

namespace Foundations.Transitions
set_option autoImplicit false
set_option maxHeartbeats 250000
set_option maxRecDepth 120000

variable {σ ε α : Type*} {step : σ → ε → Option σ} {s s' t : σ} {events : List ε}

def run (step : σ → ε → Option σ) : σ → List ε → Option σ
  | s, [] => some s
  | s, e :: events => (step s e).bind fun s' => run step s' events

theorem run_cons {e : ε} : run step s (e :: events) = some t ↔ ∃ s', step s e = some s' ∧ run step s' events = some t :=
  Option.bind_eq_some_iff

theorem run_keeps {P : σ → Prop} (hstep : ∀ s e s', P s → step s e = some s' → P s') (hs : P s)
    (h : run step s events = some t) : P t := by
  induction events generalizing s with
  | nil => exact Option.some.inj h ▸ hs
  | cons e events ih =>
    obtain ⟨s', hs', hrest⟩ := run_cons.1 h
    exact ih (hstep s e s' hs hs') hrest

/-- A machine whose steps are moves, or none, of another one. -/
theorem run_simulates {I : σ → Prop} {view : σ → α} {move : α → α → Prop}
    (hinv : ∀ s e s', I s → step s e = some s' → I s')
    (hstep : ∀ s e s', I s → step s e = some s' → Relation.ReflGen move (view s) (view s')) (hi : I s)
    (h : run step s events = some t) : Relation.ReflTransGen move (view s) (view t) := by
  induction events generalizing s with
  | nil =>
    rw [Option.some.inj h]
  | cons e events ih =>
    obtain ⟨s', hs', hrest⟩ := run_cons.1 h
    exact (hstep s e s' hi hs').to_reflTransGen.trans (ih (hinv s e s' hi hs') hrest)

end Foundations.Transitions
