import Mathlib.Algebra.Group.Fin.Basic
import Mathlib.Data.List.Basic
import Mathlib.Data.Nat.Init
import Mathlib.Tactic.Common

/-! # Counted and guarded loops

`forRange lo hi body` runs `body lo, body (lo+1), …, body (hi-1)` on a state; `whileFuel` runs a
guarded loop with a bound on the number of turns. The rules below are the only way later modules
reason about loops: an invariant rule, a two-run rule, and for the guarded loop a rule that the
bound was large enough.
-/

namespace Foundations
set_option autoImplicit false
set_option maxHeartbeats 250000
set_option maxRecDepth 120000

variable {σ τ α : Type*}

/-- `for (i = lo; i < hi; i++) s = body(i, s)`. -/
def forRange (lo hi : ℕ) (body : ℕ → σ → σ) (s : σ) : σ :=
  (List.range' lo (hi - lo)).foldl (fun s i => body i s) s

theorem forRange_of_le {lo hi : ℕ} (h : hi ≤ lo) (body : ℕ → σ → σ) (s : σ) :
    forRange lo hi body s = s := by
  have h0 : hi - lo = 0 := by omega
  simp [forRange, h0]

theorem forRange_succ {lo hi : ℕ} (h : lo ≤ hi) (body : ℕ → σ → σ) (s : σ) :
    forRange lo (hi + 1) body s = body hi (forRange lo hi body s) := by
  have h1 : hi + 1 - lo = (hi - lo) + 1 := by omega
  have h2 : lo + (hi - lo) = hi := by omega
  simp only [forRange, h1, List.range'_concat, List.foldl_append, List.foldl_cons, List.foldl_nil,
    Nat.one_mul, h2]

theorem forRange_cons {lo hi : ℕ} (h : lo < hi) (body : ℕ → σ → σ) (s : σ) :
    forRange lo hi body s = forRange (lo + 1) hi body (body lo s) := by
  have h1 : hi - lo = (hi - (lo + 1)) + 1 := by omega
  simp only [forRange, h1, List.range'_succ, List.foldl_cons]

/-- A loop in two parts. -/
theorem forRange_append {lo mid hi : ℕ} (h1 : lo ≤ mid) (h2 : mid ≤ hi) (body : ℕ → σ → σ) (s : σ) :
    forRange lo hi body s = forRange mid hi body (forRange lo mid body s) := by
  induction hi, h2 using Nat.le_induction with
  | base => rw [forRange_of_le (Nat.le_refl mid)]
  | succ hi h2 ih => rw [forRange_succ (h1.trans h2), forRange_succ h2, ih]

theorem forRange_shift {lo hi : ℕ} (body : ℕ → σ → σ) (s : σ) :
    forRange (lo + 1) (hi + 1) body s = forRange lo hi (fun i s => body (i + 1) s) s := by
  rcases Nat.le_total lo hi with hle | hle
  · induction hi, hle using Nat.le_induction with
    | base => rw [forRange_of_le (le_refl _), forRange_of_le (le_refl _)]
    | succ hi hle ih => rw [forRange_succ (Nat.succ_le_succ hle), forRange_succ hle, ih]
  · rw [forRange_of_le (Nat.succ_le_succ hle), forRange_of_le hle]

/-- The invariant rule of the counted loop. -/
theorem forRange_inv {lo hi : ℕ} {f : ℕ → σ → σ} {s : σ} (P : ℕ → σ → Prop) (hle : lo ≤ hi)
    (h0 : P lo s) (step : ∀ i s, lo ≤ i → i < hi → P i s → P (i + 1) (f i s)) :
    P hi (forRange lo hi f s) := by
  induction hi, hle using Nat.le_induction with
  | base => rwa [forRange_of_le (le_refl lo)]
  | succ hi hle ih =>
    rw [forRange_succ hle]
    exact step hi _ hle (Nat.lt_succ_self hi) (ih fun i s h1 h2 => step i s h1 (by omega))

/-- The two-run rule: a relation kept by the two bodies turn by turn holds at the end. -/
theorem forRange_rel {lo hi : ℕ} {f : ℕ → σ → σ} {g : ℕ → τ → τ} {s : σ} {t : τ}
    (R : ℕ → σ → τ → Prop) (hle : lo ≤ hi) (h0 : R lo s t)
    (step : ∀ i s t, lo ≤ i → i < hi → R i s t → R (i + 1) (f i s) (g i t)) :
    R hi (forRange lo hi f s) (forRange lo hi g t) := by
  induction hi, hle using Nat.le_induction with
  | base => rwa [forRange_of_le (le_refl lo), forRange_of_le (le_refl lo)]
  | succ hi hle ih =>
    rw [forRange_succ hle, forRange_succ hle]
    exact step hi _ _ hle (Nat.lt_succ_self hi) (ih fun i s t h1 h2 => step i s t h1 (by omega))

theorem forRange_congr {lo hi : ℕ} {f g : ℕ → σ → σ} (s : σ)
    (h : ∀ i s, lo ≤ i → i < hi → f i s = g i s) : forRange lo hi f s = forRange lo hi g s := by
  rcases Nat.le_total lo hi with hle | hle
  · exact forRange_rel (fun _ a b => a = b) hle rfl (fun i a b h1 h2 hab => by rw [hab, h i b h1 h2])
  · rw [forRange_of_le hle, forRange_of_le hle]

theorem forRange_prod (lo hi : ℕ) (f : ℕ → σ → σ) (g : ℕ → τ → τ) (s : σ) (t : τ) :
    forRange lo hi (fun i p => (f i p.1, g i p.2)) (s, t) = (forRange lo hi f s, forRange lo hi g t) := by
  rcases Nat.le_total lo hi with hle | hle
  · refine forRange_inv
      (P := fun n p => p = (forRange lo n f s, forRange lo n g t)) hle ?_ ?_
    · rw [forRange_of_le (Nat.le_refl lo), forRange_of_le (Nat.le_refl lo)]
    · intro i p h1 _ hp
      rw [hp, forRange_succ h1, forRange_succ h1]
  · rw [forRange_of_le hle, forRange_of_le hle, forRange_of_le hle]

/-- A loop undone by turns in reverse order, which find the states dressed by `c`. -/
theorem forRange_back {n : ℕ} {f : ℕ → σ → σ} {g : ℕ → τ → τ} {c : ℕ → σ → τ}
    (h : ∀ i < n, ∀ s, g i (c (i + 1) (f i s)) = c i s) (s : σ) :
    forRange 0 n (fun i => g (n - 1 - i)) (c n (forRange 0 n f s)) = c 0 s := by
  induction n with
  | zero => rw [forRange_of_le (Nat.le_refl 0), forRange_of_le (Nat.le_refl 0)]
  | succ n ih =>
    have hfirst : n + 1 - 1 - 0 = n := by omega
    have hrest : forRange 0 n (fun i => g (n - 1 - i)) (c n (forRange 0 n f s)) = c 0 s :=
      ih fun i hi => h i (Nat.lt_succ_of_lt hi)
    rw [forRange_cons (Nat.succ_pos n), hfirst, forRange_succ (Nat.zero_le n), h n (Nat.lt_succ_self n),
      forRange_shift]
    refine Eq.trans (forRange_congr _ fun i s _ hi => ?_) hrest
    have hindex : n + 1 - 1 - (i + 1) = n - 1 - i := by omega
    rw [hindex]

/-- A loop whose turns can be undone is undone by the undoing turns in reverse order. -/
theorem forRange_undo {n : ℕ} {f g : ℕ → σ → σ} (h : ∀ i < n, ∀ s, g i (f i s) = s) (s : σ) :
    forRange 0 n (fun i => g (n - 1 - i)) (forRange 0 n f s) = s :=
  forRange_back (c := fun _ s => s) h s

/-! ## Loops that fill an array -/

theorem forRange_set (g : ℕ → α) (n : ℕ) (a : List α) (h : n ≤ a.length) :
    forRange 0 n (fun i s => s.set i (g i)) a = (List.range n).map g ++ a.drop n := by
  induction n with
  | zero => simp [forRange_of_le]
  | succ n ih =>
    have hlen : ((List.range n).map g).length = n := by simp
    rw [forRange_succ (Nat.zero_le n), ih (by omega), List.set_append_right _ _ (by omega), hlen,
      Nat.sub_self, List.drop_eq_getElem_cons (by omega : n < a.length), List.set_cons_zero,
      List.range_succ, List.map_append, List.append_assoc]
    rfl

/-- `for (j = 0; j < n; j++) a[off + j] = g(j)`. -/
def fillAt (off n : ℕ) (g : ℕ → α) (a : ℕ → α) : ℕ → α :=
  forRange 0 n (fun j a => Function.update a (off + j) (g j)) a

def fill (n : ℕ) (g : ℕ → α) (a : ℕ → α) : ℕ → α :=
  forRange 0 n (fun j a => Function.update a j (g j)) a

theorem fillAt_apply (off n : ℕ) (g : ℕ → α) (a : ℕ → α) (p : ℕ) :
    fillAt off n g a p = if off ≤ p ∧ p < off + n then g (p - off) else a p := by
  unfold fillAt
  induction n with
  | zero =>
    have hp : ¬ (off ≤ p ∧ p < off + 0) := by omega
    rw [forRange_of_le (Nat.le_refl 0), if_neg hp]
  | succ n ih =>
    rw [forRange_succ (Nat.zero_le n)]
    by_cases hpn : p = off + n
    · subst hpn
      have hin : off ≤ off + n ∧ off + n < off + (n + 1) := by omega
      rw [Function.update_self, if_pos hin, Nat.add_sub_cancel_left]
    · have hiff : (off ≤ p ∧ p < off + (n + 1)) ↔ (off ≤ p ∧ p < off + n) := by omega
      rw [Function.update_of_ne hpn, ih]
      simp only [hiff]

theorem forRange_update_apply {lo hi : ℕ} (hle : lo ≤ hi) (g : ℕ → α) (a : ℕ → α) (p : ℕ) :
    forRange lo hi (fun j a => Function.update a j (g j)) a p =
      if lo ≤ p ∧ p < hi then g p else a p := by
  refine forRange_inv (P := fun i (b : ℕ → α) => ∀ p, b p = if lo ≤ p ∧ p < i then g p else a p) hle ?_ ?_ p
  · intro p
    rw [if_neg (by omega)]
  · intro i b h1 _ ih p
    by_cases hpi : p = i
    · subst hpi
      rw [Function.update_self, if_pos ⟨h1, Nat.lt_succ_self p⟩]
    · have hiff : (lo ≤ p ∧ p < i + 1) ↔ (lo ≤ p ∧ p < i) := by omega
      rw [Function.update_of_ne hpi, ih]
      simp only [hiff]

theorem fill_apply (n : ℕ) (g : ℕ → α) (a : ℕ → α) (p : ℕ) :
    fill n g a p = if p < n then g p else a p := by
  have h := forRange_update_apply (Nat.zero_le n) g a p
  simpa [fill] using h

theorem fill_apply_of_lt {n p : ℕ} (hp : p < n) (g : ℕ → α) (a : ℕ → α) : fill n g a p = g p := by
  rw [fill_apply, if_pos hp]

/-! ## Guarded loops -/

/-- `while (cond(s)) s = body(s)`, at most `fuel` turns. -/
def whileFuel (cond : σ → Bool) (body : σ → σ) : ℕ → σ → σ
  | 0, s => s
  | fuel + 1, s => if cond s then whileFuel cond body fuel (body s) else s

theorem whileFuel_succ {cond : σ → Bool} {body : σ → σ} {s : σ} (h : cond s = true) (fuel : ℕ) :
    whileFuel cond body (fuel + 1) s = whileFuel cond body fuel (body s) := if_pos h

theorem whileFuel_done {cond : σ → Bool} {body : σ → σ} {s : σ} (h : cond s = false) (fuel : ℕ) :
    whileFuel cond body fuel s = s := by
  cases fuel with
  | zero => rfl
  | succ fuel => exact if_neg (by rw [h]; exact Bool.false_ne_true)

theorem whileFuel_inv (cond : σ → Bool) (body : σ → σ) (P : σ → Prop)
    (step : ∀ s, P s → cond s = true → P (body s)) :
    ∀ (fuel : ℕ) (s : σ), P s → P (whileFuel cond body fuel s)
  | 0, _, h => h
  | fuel + 1, s, h => by
      unfold whileFuel
      by_cases hc : cond s = true
      · rw [if_pos hc]
        exact whileFuel_inv cond body P step fuel (body s) (step s h hc)
      · rw [if_neg hc]
        exact h

/-- With as many turns as a measure that every turn decreases, the loop ends by its guard. -/
theorem whileFuel_exit (cond : σ → Bool) (body : σ → σ) (P : σ → Prop) (measure : σ → ℕ)
    (step : ∀ s, P s → cond s = true → P (body s) ∧ measure (body s) < measure s) :
    ∀ (fuel : ℕ) (s : σ), P s → measure s ≤ fuel → cond (whileFuel cond body fuel s) = false
  | 0, s, h, hm => by
      unfold whileFuel
      by_contra hc
      have hc' : cond s = true := by simpa using hc
      have := (step s h hc').2
      omega
  | fuel + 1, s, h, hm => by
      unfold whileFuel
      by_cases hc : cond s = true
      · rw [if_pos hc]
        obtain ⟨hP, hlt⟩ := step s h hc
        exact whileFuel_exit cond body P measure step fuel (body s) hP (by omega)
      · rw [if_neg hc]
        simpa using hc

/-- The guarded loop, with no result as long as the guard still holds. -/
def whileEnds (cond : σ → Bool) (body : σ → σ) (fuel : ℕ) (s : σ) : Option σ :=
  let t := whileFuel cond body fuel s
  if cond t then none else some t

theorem whileEnds_done {cond : σ → Bool} {body : σ → σ} {s : σ} (h : cond s = false) (fuel : ℕ) :
    whileEnds cond body fuel s = some s := by
  unfold whileEnds
  rw [whileFuel_done h fuel]
  exact if_neg (by rw [h]; exact Bool.false_ne_true)

theorem whileEnds_succ {cond : σ → Bool} {body : σ → σ} {s : σ} (h : cond s = true) (fuel : ℕ) :
    whileEnds cond body (fuel + 1) s = whileEnds cond body fuel (body s) := by
  unfold whileEnds
  rw [whileFuel_succ h fuel]

theorem whileEnds_inv {cond : σ → Bool} {body : σ → σ} (P : σ → Prop) (step : ∀ s, P s → cond s = true → P (body s))
    {fuel : ℕ} {s t : σ} (hs : P s) (h : whileEnds cond body fuel s = some t) : P t := by
  have hall := whileFuel_inv cond body P step fuel s hs
  unfold whileEnds at h
  dsimp only at h
  split at h
  · exact absurd h (by simp)
  · rw [← Option.some.inj h]
    exact hall

/-- The loop ends after the turns for which the guard holds. -/
theorem whileEnds_iterate {cond : σ → Bool} {body : σ → σ} (turns : ℕ) {fuel : ℕ} {s : σ} (hfuel : turns ≤ fuel)
    (hturn : ∀ i < turns, cond (body^[i] s) = true) (hend : cond (body^[turns] s) = false) :
    whileEnds cond body fuel s = some (body^[turns] s) := by
  induction turns generalizing fuel s with
  | zero => exact whileEnds_done hend fuel
  | succ turns ih =>
    obtain ⟨fuel, rfl⟩ : ∃ k, fuel = k + 1 := ⟨fuel - 1, by omega⟩
    have hfirst : cond s = true := hturn 0 (Nat.succ_pos turns)
    rw [whileEnds_succ hfirst, Function.iterate_succ_apply]
    rw [Function.iterate_succ_apply] at hend
    refine ih (by omega) (fun i hi => ?_) hend
    have h := hturn (i + 1) (by omega)
    rw [Function.iterate_succ_apply] at h
    exact h

/-! ## Sizes that grow

`read n` is tried for the sizes `step`, `2 * step` and so on, until `n` is above what is needed. The sum of two sizes
is taken modulo `w`.
-/

section Growing

variable {cond : σ → Bool} (size : σ → ℕ) {read : ℕ → σ} {step w need : ℕ} (hsize : ∀ n, size (read n) = n)
include hsize

/-- Whenever the loop stops, it has read with some multiple of the step. -/
theorem grow_state (hstep : step ∣ w) (hlt : step < w) (fuel : ℕ) :
    ∃ n, n < w ∧ step ∣ n ∧ whileFuel cond (fun s => read ((size s + step) % w)) fuel (read step) = read n := by
  have hpos : 0 < w := by omega
  have hnext : ∀ s, (∃ n, n < w ∧ step ∣ n ∧ s = read n) → cond s = true →
      ∃ n, n < w ∧ step ∣ n ∧ read ((size s + step) % w) = read n := by
    rintro s ⟨n, hn, hdvd, rfl⟩ -
    refine ⟨_, Nat.mod_lt _ hpos, ?_, rfl⟩
    rw [hsize]
    exact (Nat.dvd_mod_iff hstep).2 (Nat.dvd_add hdvd (Nat.dvd_refl _))
  exact whileFuel_inv cond (fun s => read ((size s + step) % w)) _ hnext fuel (read step)
    ⟨step, hlt, Nat.dvd_refl _, rfl⟩

variable (hcond : ∀ n, n < w → step ∣ n → cond (read n) = decide (n ≤ need))
include hcond

theorem grow_done (hneed : need < w - step) (fuel k : ℕ) (hk : step * k < w) (hfuel : need < step * (k + fuel)) :
    ∃ n, n < w ∧ step ∣ n ∧ need < n ∧
      whileFuel cond (fun s => read ((size s + step) % w)) fuel (read (step * k)) = read n := by
  induction fuel generalizing k with
  | zero => exact ⟨step * k, hk, Nat.dvd_mul_right _ _, hfuel, rfl⟩
  | succ fuel ih =>
    by_cases hmore : step * k ≤ need
    · have hturn : cond (read (step * k)) = true := by
        rw [hcond _ hk (Nat.dvd_mul_right _ _)]
        exact decide_eq_true hmore
      have hnext : step * k + step = step * (k + 1) := (Nat.mul_succ _ _).symm
      have hlt : step * (k + 1) < w := by omega
      rw [whileFuel_succ hturn, hsize, hnext, Nat.mod_eq_of_lt hlt]
      exact ih (k + 1) hlt (by rw [Nat.add_right_comm]; exact hfuel)
    · have hdone : cond (read (step * k)) = false := by
        rw [hcond _ hk (Nat.dvd_mul_right _ _)]
        exact decide_eq_false hmore
      exact ⟨step * k, hk, Nat.dvd_mul_right _ _, by omega, whileFuel_done hdone _⟩

/-- Where no size is large enough the loop goes on for ever. -/
theorem grow_endless (hstep : step ∣ w) (hlt : step < w) (hneed : w - step ≤ need) (fuel : ℕ) :
    cond (whileFuel cond (fun s => read ((size s + step) % w)) fuel (read step)) = true := by
  obtain ⟨n, hn, hdvd, hs⟩ := grow_state size hsize hstep hlt fuel
  have hgap : step ≤ w - n := Nat.le_of_dvd (by omega) (Nat.dvd_sub hstep hdvd)
  rw [hs, hcond n hn hdvd]
  exact decide_eq_true (by omega)

end Growing

end Foundations
