import StarLib.Foundations.Loop

/-! # What a loop accesses

A turn of a loop names the places that it accesses, from the state that it finds. `loopAccesses` lists those of
all turns; a condition on them follows from an invariant of the loop.
-/

namespace Foundations
set_option autoImplicit false
set_option maxHeartbeats 250000
set_option maxRecDepth 120000

variable {σ α : Type*}

/-- The accesses of `for (i = lo; i < hi; i++) s = body(i, s)`, where turn `i` makes `acc i s`. -/
def loopAccesses (lo hi : ℕ) (body : ℕ → σ → σ) (acc : ℕ → σ → List α) (s : σ) : List α :=
  (List.range' lo (hi - lo)).flatMap fun i => acc i (forRange lo i body s)

theorem mem_loopAccesses {lo hi : ℕ} {body : ℕ → σ → σ} {acc : ℕ → σ → List α} {s : σ} {a : α} :
    a ∈ loopAccesses lo hi body acc s ↔ ∃ i, lo ≤ i ∧ i < hi ∧ a ∈ acc i (forRange lo i body s) := by
  unfold loopAccesses
  rw [List.mem_flatMap]
  constructor
  · rintro ⟨i, hi, ha⟩
    rw [List.mem_range'_1] at hi
    exact ⟨i, hi.1, by omega, ha⟩
  · rintro ⟨i, h1, h2, ha⟩
    refine ⟨i, ?_, ha⟩
    rw [List.mem_range'_1]
    omega

/-- With an invariant of the loop, a condition that every turn meets. -/
theorem loopAccesses_forall {lo hi : ℕ} {body : ℕ → σ → σ} {acc : ℕ → σ → List α} {s : σ} (P : ℕ → σ → Prop)
    {Q : α → Prop} (h0 : P lo s) (step : ∀ i s, lo ≤ i → i < hi → P i s → P (i + 1) (body i s))
    (hacc : ∀ i s, lo ≤ i → i < hi → P i s → ∀ a ∈ acc i s, Q a) : ∀ a ∈ loopAccesses lo hi body acc s, Q a := by
  intro a ha
  obtain ⟨i, h1, h2, ha⟩ := mem_loopAccesses.1 ha
  have hinv : P i (forRange lo i body s) := forRange_inv P h1 h0 fun j s h3 h4 => step j s h3 (by omega)
  exact hacc i _ h1 h2 hinv a ha

/-! ## Guarded loops -/

/-- The states in which `while (cond(s)) s = body(s)` makes a turn, at most `fuel` of them. -/
def whileTurns (cond : σ → Bool) (body : σ → σ) : ℕ → σ → List σ
  | 0, _ => []
  | fuel + 1, s => if cond s then s :: whileTurns cond body fuel (body s) else []

theorem whileTurns_done {cond : σ → Bool} {body : σ → σ} {s : σ} (h : cond s = false) (fuel : ℕ) :
    whileTurns cond body fuel s = [] := by
  cases fuel with
  | zero => rfl
  | succ fuel => simp [whileTurns, h]

theorem whileTurns_succ {cond : σ → Bool} {body : σ → σ} {s : σ} (h : cond s = true) (fuel : ℕ) :
    whileTurns cond body (fuel + 1) s = s :: whileTurns cond body fuel (body s) := if_pos h

theorem whileTurns_forall {cond : σ → Bool} {body : σ → σ} (P : σ → Prop) {Q : σ → Prop}
    (step : ∀ s, P s → cond s = true → P (body s)) (hturn : ∀ s, P s → cond s = true → Q s) (fuel : ℕ) {s : σ} (h0 : P s) :
    ∀ t ∈ whileTurns cond body fuel s, Q t := by
  induction fuel generalizing s with
  | zero => simp [whileTurns]
  | succ fuel ih =>
    unfold whileTurns
    split
    · next hcond =>
      rw [List.forall_mem_cons]
      exact ⟨hturn s h0 hcond, ih (step s h0 hcond)⟩
    · simp

/-- The states in which the condition of a loop is tested: those of its turns, and the last one. -/
def whileTests (cond : σ → Bool) (body : σ → σ) (fuel : ℕ) (s : σ) : List σ :=
  whileTurns cond body fuel s ++ [whileFuel cond body fuel s]

theorem start_tested (cond : σ → Bool) (body : σ → σ) (fuel : ℕ) (s : σ) : s ∈ whileTests cond body fuel s := by
  unfold whileTests
  cases h : cond s with
  | false =>
    rw [whileFuel_done h]
    simp
  | true =>
    cases fuel with
    | zero => simp [whileFuel]
    | succ fuel =>
      rw [whileTurns_succ h]
      simp

theorem whileTests_succ {cond : σ → Bool} {body : σ → σ} {s : σ} (h : cond s = true) (fuel : ℕ) :
    whileTests cond body (fuel + 1) s = s :: whileTests cond body fuel (body s) := by
  unfold whileTests
  rw [whileTurns_succ h, whileFuel_succ h, List.cons_append]

theorem whileTests_done {cond : σ → Bool} {body : σ → σ} {s : σ} (h : cond s = false) (fuel : ℕ) :
    whileTests cond body fuel s = [s] := by
  unfold whileTests
  rw [whileTurns_done h, whileFuel_done h]
  rfl

end Foundations
