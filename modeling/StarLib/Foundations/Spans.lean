import Mathlib.Algebra.GroupWithZero.Action.Defs
import Mathlib.Algebra.Order.BigOperators.Group.List
import Mathlib.Algebra.Order.Floor.Ring
import Mathlib.Algebra.Order.Floor.Semiring
import Mathlib.Data.Rat.Floor
import Mathlib.Tactic.Linarith
import Mathlib.Tactic.NormNum
import Mathlib.Tactic.Positivity

/-! # Cutting a range into spans

A range of `n` cells is cut at the places `(k + 1/2) / f`, rounded down and two further, as a program does that makes
`f * n` cells of it. The spans follow one another; they stay nonempty as long as the edges have not reached the end.
An average lies between the values that it is made of.
-/

namespace Foundations
set_option autoImplicit false
set_option maxHeartbeats 250000
set_option maxRecDepth 120000

/-- `(int)q`: towards zero. -/
def truncInt (q : ℚ) : ℤ := Int.tdiv q.num q.den

theorem truncInt_of_nonneg {q : ℚ} (h : 0 ≤ q) : truncInt q = (⌊q⌋₊ : ℤ) := by
  unfold truncInt
  rw [Int.tdiv_eq_ediv_of_nonneg (Rat.num_nonneg.2 h), Int.natCast_floor_eq_floor h, Rat.floor_def']

/-- Where span `k` begins; it goes up to the beginning of span `k + 1`. -/
def spanEdge (n : ℕ) (f : ℚ) : ℕ → ℕ
  | 0 => 0
  | k + 1 => min n (⌊(k + 1 / 2 : ℚ) / f⌋₊ + 2)

section Spans
variable {n : ℕ} {f : ℚ}

@[simp] theorem spanEdge_zero : spanEdge n f 0 = 0 := rfl

theorem spanEdge_succ (k : ℕ) : spanEdge n f (k + 1) = min n (⌊(k + 1 / 2 : ℚ) / f⌋₊ + 2) := rfl

theorem spanEdge_le (k : ℕ) : spanEdge n f k ≤ n := by
  cases k with
  | zero => exact Nat.zero_le n
  | succ k => exact Nat.min_le_left _ _

theorem floor_lt_floor (h0 : 0 < f) (h1 : f < 1) (k : ℕ) :
    ⌊(k + 1 / 2 : ℚ) / f⌋₊ < ⌊((k + 1 : ℕ) + 1 / 2 : ℚ) / f⌋₊ := by
  have hpos : (0 : ℚ) ≤ (k + 1 / 2 : ℚ) / f := by positivity
  have hstep : (k + 1 / 2 : ℚ) / f + 1 ≤ ((k + 1 : ℕ) + 1 / 2 : ℚ) / f := by
    rw [div_add_one h0.ne', div_le_div_iff_of_pos_right h0]
    push_cast
    linarith
  have hfloor := Nat.floor_le_floor hstep
  rw [Nat.floor_add_one hpos] at hfloor
  omega

/-- An edge is at the end, or behind the one before it. -/
theorem spanEdge_succ_cases (h0 : 0 < f) (h1 : f < 1) (k : ℕ) :
    spanEdge n f (k + 1) = n ∨ spanEdge n f k < spanEdge n f (k + 1) := by
  cases k with
  | zero =>
    rw [spanEdge_zero, spanEdge_succ]
    omega
  | succ k =>
    have hfloor := floor_lt_floor h0 h1 k
    rw [spanEdge_succ, spanEdge_succ]
    omega

theorem spanEdge_lt_succ_iff (h0 : 0 < f) (h1 : f < 1) (k : ℕ) :
    spanEdge n f k < spanEdge n f (k + 1) ↔ spanEdge n f k < n := by
  have hle := spanEdge_le (n := n) (f := f) (k + 1)
  cases spanEdge_succ_cases (n := n) h0 h1 k with
  | inl hend => rw [hend]
  | inr hlt => exact iff_of_true hlt (by omega)

theorem spanEdge_mono (h0 : 0 < f) (h1 : f < 1) {j k : ℕ} (h : j ≤ k) : spanEdge n f j ≤ spanEdge n f k := by
  induction k, h using Nat.le_induction with
  | base => exact Nat.le_refl _
  | succ k _ ih =>
    have hle := spanEdge_le (n := n) (f := f) k
    cases spanEdge_succ_cases (n := n) h0 h1 k with
    | inl hend => omega
    | inr hlt => omega

/-- No cell lies in two spans. -/
theorem span_unique (h0 : 0 < f) (h1 : f < 1) {j k x : ℕ} (hj : spanEdge n f j ≤ x ∧ x < spanEdge n f (j + 1))
    (hk : spanEdge n f k ≤ x ∧ x < spanEdge n f (k + 1)) : j = k := by
  by_contra hne
  rcases Nat.lt_or_gt_of_ne hne with hlt | hlt
  · have hmono := spanEdge_mono (n := n) h0 h1 (show j + 1 ≤ k from hlt)
    omega
  · have hmono := spanEdge_mono (n := n) h0 h1 (show k + 1 ≤ j from hlt)
    omega

theorem spans_nonempty_iff (h0 : 0 < f) (h1 : f < 1) {m : ℕ} (hm : 0 < m) :
    (∀ k < m, spanEdge n f k < spanEdge n f (k + 1)) ↔ spanEdge n f (m - 1) < n := by
  constructor
  · intro hall
    exact (spanEdge_lt_succ_iff h0 h1 (m - 1)).1 (hall (m - 1) (by omega))
  · intro hlast k hk
    have hmono := spanEdge_mono (n := n) h0 h1 (show k ≤ m - 1 by omega)
    exact (spanEdge_lt_succ_iff h0 h1 k).2 (by omega)

/-- The last of `f * n` spans is nonempty when the edge before it is not too close to the end. -/
theorem spanEdge_last_lt_iff (h0 : 0 < f) (h1 : f < 1) (hm : 0 < ⌊n * f⌋₊) :
    spanEdge n f (⌊n * f⌋₊ - 1) < n ↔ (2 * ⌊n * f⌋₊ - 3 : ℚ) < 2 * (n - 2) * f := by
  have hcells : (1 : ℚ) ≤ n * f := by
    have hfloor := (Nat.floor_pos (a := (n * f : ℚ))).1 hm
    exact hfloor
  have htwo : 2 ≤ n := by
    by_contra hlt
    have hone : (n : ℚ) ≤ 1 := by exact_mod_cast (show n ≤ 1 by omega)
    nlinarith only [hone, hcells, h0, h1]
  have hn : ((n - 2 : ℕ) : ℚ) = n - 2 := by
    rw [Nat.cast_sub htwo]
    norm_num
  obtain ⟨m, hm'⟩ : ∃ m, ⌊n * f⌋₊ = m + 1 := ⟨⌊n * f⌋₊ - 1, by omega⟩
  rw [hm', Nat.add_sub_cancel]
  cases m with
  | zero =>
    have hpos : (0 : ℚ) ≤ ((n - 2 : ℕ) : ℚ) * f := by positivity
    rw [hn] at hpos
    refine iff_of_true (by rw [spanEdge_zero]; omega) ?_
    norm_num
    linarith only [hpos]
  | succ k =>
    have hedge : spanEdge n f (k + 1) < n ↔ ⌊(k + 1 / 2 : ℚ) / f⌋₊ < n - 2 := by
      rw [spanEdge_succ]
      omega
    have hpos : (0 : ℚ) ≤ (k + 1 / 2 : ℚ) / f := by positivity
    rw [hedge, Nat.floor_lt hpos, div_lt_iff₀ h0, hn]
    push_cast
    constructor
    · intro h
      linarith only [h]
    · intro h
      linarith only [h]

end Spans

/-! ## Averages -/

theorem exists_le_average {l : List ℕ} (h : l ≠ []) : ∃ v ∈ l, v ≤ l.sum / l.length := by
  by_contra hnone
  have hall : ∀ v ∈ l, l.sum / l.length + 1 ≤ v := by
    intro v hv
    by_contra hlt
    exact hnone ⟨v, hv, by omega⟩
  have hpos : 0 < l.length := List.length_pos_iff.2 h
  have hsum := List.card_nsmul_le_sum l (l.sum / l.length + 1) hall
  have hlt := Nat.lt_mul_div_succ l.sum hpos
  rw [smul_eq_mul] at hsum
  omega

theorem exists_average_le {l : List ℕ} (h : l ≠ []) : ∃ v ∈ l, l.sum / l.length ≤ v := by
  by_contra hnone
  have hall : ∀ v ∈ l, v + 1 ≤ l.sum / l.length := by
    intro v hv
    by_contra hlt
    exact hnone ⟨v, hv, by omega⟩
  have hpos : 0 < l.length := List.length_pos_iff.2 h
  obtain ⟨v, hv⟩ := List.exists_mem_of_ne_nil l h
  have hone : 1 ≤ l.sum / l.length := Nat.le_trans (Nat.le_add_left 1 v) (hall v hv)
  have hsum := List.sum_le_card_nsmul l (l.sum / l.length - 1) fun v hv => Nat.le_sub_one_of_lt (hall v hv)
  have hle := Nat.mul_div_le l.sum l.length
  have hlen : l.length ≤ l.length * (l.sum / l.length) := Nat.le_mul_of_pos_right _ hone
  rw [smul_eq_mul, Nat.mul_sub, Nat.mul_one] at hsum
  omega

/-- `sum` is a sum of values between `lo` and `hi`, with weights that add up to `weight`. -/
structure Weighted (lo hi sum weight : ℤ) : Prop where
  low : lo * weight ≤ sum
  high : sum ≤ hi * weight

namespace Weighted
variable {lo hi sum weight : ℤ}

theorem zero : Weighted lo hi 0 0 := ⟨by simp, by simp⟩

theorem add {v m : ℤ} (h : Weighted lo hi sum weight) (hlow : lo ≤ v) (hhigh : v ≤ hi) (hm : 0 ≤ m) :
    Weighted lo hi (sum + v * m) (weight + m) := by
  constructor
  · have hstep := mul_le_mul_of_nonneg_right hlow hm
    have := h.low
    linarith
  · have hstep := mul_le_mul_of_nonneg_right hhigh hm
    have := h.high
    linarith

theorem tdiv (h : Weighted lo hi sum weight) (hlo : 0 ≤ lo) (hweight : 0 < weight) :
    lo ≤ sum.tdiv weight ∧ sum.tdiv weight ≤ hi := by
  have hsum : 0 ≤ sum := Int.le_trans (mul_nonneg hlo hweight.le) h.low
  rw [Int.tdiv_eq_ediv_of_nonneg hsum]
  exact ⟨(Int.le_ediv_iff_mul_le hweight).2 h.low, Int.ediv_le_of_le_mul hweight h.high⟩

end Weighted

end Foundations
