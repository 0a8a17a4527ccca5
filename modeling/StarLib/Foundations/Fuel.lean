import Mathlib.Tactic.Common

/-! # Functions with fuel

`Settles f r`: whatever fuel `f` is given from some amount on, its result is `r`. A recursive function that is given
less fuel for its calls settles when they do.
-/

namespace Foundations
set_option autoImplicit false
set_option maxHeartbeats 250000
set_option maxRecDepth 120000

variable {α β : Type*}

def Settles (f : ℕ → Option α) (r : α) : Prop := ∃ turns, ∀ fuel, turns ≤ fuel → f fuel = some r

theorem Settles.const (r : α) : Settles (fun _ => some r) r := ⟨0, fun _ _ => rfl⟩

theorem Settles.unique {f : ℕ → Option α} {r r' : α} (h : Settles f r) (h' : Settles f r') : r = r' := by
  obtain ⟨turns, hturns⟩ := h
  obtain ⟨turns', hturns'⟩ := h'
  have hr := hturns (max turns turns') (Nat.le_max_left _ _)
  rw [hturns' (max turns turns') (Nat.le_max_right _ _)] at hr
  exact (Option.some.inj hr).symm

/-- The call that gets one less. -/
theorem Settles.succ {f g : ℕ → Option α} {r : α} (hstep : ∀ fuel, g (fuel + 1) = f fuel) (h : Settles f r) :
    Settles g r := by
  obtain ⟨turns, hturns⟩ := h
  refine ⟨turns + 1, fun fuel hfuel => ?_⟩
  obtain ⟨k, rfl⟩ := Nat.exists_eq_succ_of_ne_zero (Nat.ne_of_gt (Nat.lt_of_lt_of_le (Nat.succ_pos turns) hfuel))
  rw [hstep]
  exact hturns k (Nat.le_of_succ_le_succ hfuel)

theorem Settles.map {f : ℕ → Option α} {r : α} (h : Settles f r) (g : α → β) : Settles (fun n => (f n).map g) (g r) := by
  obtain ⟨turns, hturns⟩ := h
  refine ⟨turns, fun fuel hfuel => ?_⟩
  dsimp only
  rw [hturns fuel hfuel]
  rfl

theorem Settles.bind {f : ℕ → Option α} {g : ℕ → α → Option β} {r : α} {t : β} (h : Settles f r)
    (h' : Settles (fun n => g n r) t) : Settles (fun n => (f n).bind (g n)) t := by
  obtain ⟨turns, hturns⟩ := h
  obtain ⟨turns', hturns'⟩ := h'
  refine ⟨max turns turns', fun fuel hfuel => ?_⟩
  dsimp only
  rw [hturns fuel (Nat.le_trans (Nat.le_max_left _ _) hfuel), Option.bind_some]
  exact hturns' fuel (Nat.le_trans (Nat.le_max_right _ _) hfuel)

end Foundations
