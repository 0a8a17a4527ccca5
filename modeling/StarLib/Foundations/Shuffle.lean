import Mathlib.Data.List.Basic
import Mathlib.Data.List.GetD
import Mathlib.Data.List.Induction
import Mathlib.Data.List.Nodup
import Mathlib.Tactic.Common

/-! # Shuffling the bits of a word

`shuffle` collects the bits that a table names, the first one on top; `shuffleInv` puts the bits back
where the table says. For a table that names every bit of the word once they are inverse to each other.
-/

namespace Foundations
set_option autoImplicit false
set_option maxHeartbeats 250000
set_option maxRecDepth 120000

variable {w : ℕ}

def shuffle (x : BitVec w) (table : List ℕ) : BitVec w :=
  table.foldl (fun res t => res + (res + ((x >>> t) &&& 1))) 0

/-- One turn of the inverse: the lowest bit goes to place `t`. -/
def putBit (s : BitVec w × BitVec w) (t : ℕ) : BitVec w × BitVec w := (s.1 ||| ((s.2 &&& 1) <<< t), s.2 >>> 1)

/-- The bits are taken from the lowest one on, and the table from its end. -/
def shuffleInv (x : BitVec w) (table : List ℕ) : BitVec w := (table.reverse.foldl putBit (0, x)).1

/-! ## The bits of a shuffled word -/

theorem getLsbD_and_one (x : BitVec w) (i : ℕ) : (x &&& 1).getLsbD i = (decide (i = 0) && x.getLsbD 0) := by
  have hone : (1 : BitVec w).getLsbD i = (decide (0 < w) && decide (i = 0)) := BitVec.getLsbD_one
  rw [BitVec.getLsbD_and, hone]
  by_cases hi : i = 0
  · subst hi
    by_cases hw : 0 < w
    · simp [hw]
    · have hout : x.getLsbD 0 = false := BitVec.getLsbD_of_ge x 0 (by omega)
      simp [hout]
  · simp [hi]

/-- Doubling and adding a bit. -/
theorem getLsbD_append_bit (res x : BitVec w) {i : ℕ} (hi : i < w) :
    (res + (res + (x &&& 1))).getLsbD i = if i = 0 then x.getLsbD 0 else res.getLsbD (i - 1) := by
  have hdouble : res + res = res <<< 1 := by
    apply BitVec.eq_of_toNat_eq
    rw [BitVec.toNat_add, BitVec.toNat_shiftLeft, Nat.shiftLeft_eq, Nat.pow_one, Nat.mul_two]
  have hdisjoint : (res <<< 1) &&& (x &&& 1) = 0#w := by
    apply BitVec.eq_of_getLsbD_eq
    intro j hj
    rw [BitVec.getLsbD_and, getLsbD_and_one, BitVec.getLsbD_shiftLeft]
    by_cases hj0 : j = 0
    · simp [hj0]
    · simp [hj0]
  rw [← BitVec.add_assoc, hdouble, BitVec.add_eq_or_of_and_eq_zero _ _ hdisjoint, BitVec.getLsbD_or,
    getLsbD_and_one, BitVec.getLsbD_shiftLeft]
  by_cases hi0 : i = 0
  · simp [hi0]
  · have hlow : ¬ i < 1 := by omega
    simp [hi0, hi, hlow]

/-- Bit `j` is the bit that the table names at `j` from its end. -/
theorem getLsbD_shuffle (x : BitVec w) (table : List ℕ) {j : ℕ} (hj : j < table.length) (hw : j < w) :
    (shuffle x table).getLsbD j = x.getLsbD (table.reverse.getD j 0) := by
  induction table using List.reverseRecOn generalizing j with
  | nil => exact absurd hj (Nat.not_lt_zero j)
  | append_singleton table t ih =>
    have hlen : (table ++ [t]).length = table.length + 1 := by simp
    unfold shuffle at ih ⊢
    rw [List.foldl_append, List.reverse_append]
    show (_ + (_ + ((x >>> t) &&& 1))).getLsbD j = _
    rw [getLsbD_append_bit _ _ hw]
    cases j with
    | zero =>
      rw [if_pos rfl, BitVec.getLsbD_ushiftRight]
      rfl
    | succ j =>
      rw [if_neg (Nat.succ_ne_zero j), Nat.add_sub_cancel, ih (by omega) (by omega)]
      rfl

/-! ## The bits of an unshuffled word -/

theorem getLsbD_putBits (ts : List ℕ) (res x : BitVec w) {p : ℕ} (hp : p < w) :
    (ts.foldl putBit (res, x)).1.getLsbD p = true ↔
      res.getLsbD p = true ∨ ∃ i < ts.length, ts.getD i 0 = p ∧ x.getLsbD i = true := by
  induction ts generalizing res x with
  | nil => simp
  | cons t ts ih =>
    have hput : (res ||| ((x &&& 1) <<< t)).getLsbD p = true ↔ res.getLsbD p = true ∨ t = p ∧ x.getLsbD 0 = true := by
      rw [BitVec.getLsbD_or, Bool.or_eq_true, BitVec.getLsbD_shiftLeft, getLsbD_and_one]
      by_cases hpt : p < t
      · have hne : t ≠ p := by omega
        simp [hpt, hne]
      · have hiff : p - t = 0 ↔ t = p := by omega
        simp [hpt, hp, hiff]
    show ((ts.foldl putBit (res ||| ((x &&& 1) <<< t), x >>> 1)).1.getLsbD p = true) ↔ _
    rw [ih, hput, or_assoc]
    refine or_congr_right ⟨?_, ?_⟩
    · rintro (⟨ht, hx⟩ | ⟨i, hi, ht, hx⟩)
      · exact ⟨0, Nat.succ_pos _, ht, hx⟩
      · refine ⟨i + 1, Nat.succ_lt_succ hi, ht, ?_⟩
        rwa [BitVec.getLsbD_ushiftRight, Nat.add_comm] at hx
    · rintro ⟨i, hi, ht, hx⟩
      cases i with
      | zero => exact Or.inl ⟨ht, hx⟩
      | succ i =>
        refine Or.inr ⟨i, Nat.lt_of_succ_lt_succ hi, ht, ?_⟩
        rwa [BitVec.getLsbD_ushiftRight, Nat.add_comm]

theorem getLsbD_shuffleInv (x : BitVec w) (table : List ℕ) {p : ℕ} (hp : p < w) :
    (shuffleInv x table).getLsbD p = true ↔
      ∃ i < table.length, table.reverse.getD i 0 = p ∧ x.getLsbD i = true := by
  unfold shuffleInv
  rw [getLsbD_putBits _ _ _ hp, List.length_reverse]
  simp

/-! ## A table that names every bit once -/

/-- The table is a permutation of the bits. -/
structure IsShuffle (w : ℕ) (table : List ℕ) : Prop where
  length : table.length = w
  nodup : table.Nodup
  lt : ∀ t ∈ table, t < w
  onto : ∀ p < w, p ∈ table

theorem IsShuffle.index {table : List ℕ} (h : IsShuffle w table) {p : ℕ} (hp : p < w) :
    ∃ i < w, table.reverse.getD i 0 = p := by
  obtain ⟨i, hi, hget⟩ := List.getElem_of_mem (List.mem_reverse.mpr (h.onto p hp))
  have hlen := h.length
  rw [List.length_reverse] at hi
  exact ⟨i, by omega, by rw [List.getD_eq_getElem _ _ (by rwa [List.length_reverse]), hget]⟩

theorem IsShuffle.index_inj {table : List ℕ} (h : IsShuffle w table) {i j : ℕ} (hi : i < w) (hj : j < w)
    (heq : table.reverse.getD i 0 = table.reverse.getD j 0) : i = j := by
  have hlen := h.length
  have hi' : i < table.reverse.length := by rw [List.length_reverse]; omega
  have hj' : j < table.reverse.length := by rw [List.length_reverse]; omega
  rw [List.getD_eq_getElem _ _ hi', List.getD_eq_getElem _ _ hj'] at heq
  exact (List.nodup_reverse.mpr h.nodup).getElem_inj_iff.mp heq

theorem shuffleInv_shuffle {table : List ℕ} (h : IsShuffle w table) (x : BitVec w) :
    shuffleInv (shuffle x table) table = x := by
  have hlen := h.length
  apply BitVec.eq_of_getLsbD_eq
  intro p hp
  rw [Bool.eq_iff_iff, getLsbD_shuffleInv _ _ hp]
  constructor
  · rintro ⟨i, hi, hip, hx⟩
    rwa [getLsbD_shuffle x table hi (by omega), hip] at hx
  · intro hx
    obtain ⟨i, hi, hip⟩ := h.index hp
    refine ⟨i, by omega, hip, ?_⟩
    rwa [getLsbD_shuffle x table (by omega) hi, hip]

theorem shuffle_shuffleInv {table : List ℕ} (h : IsShuffle w table) (x : BitVec w) :
    shuffle (shuffleInv x table) table = x := by
  have hlen := h.length
  apply BitVec.eq_of_getLsbD_eq
  intro j hj
  have hplace : table.reverse.getD j 0 < w := by
    have hj' : j < table.reverse.length := by rw [List.length_reverse]; omega
    rw [List.getD_eq_getElem _ _ hj']
    exact h.lt _ (List.mem_reverse.mp (List.getElem_mem hj'))
  rw [getLsbD_shuffle _ table (by omega) hj, Bool.eq_iff_iff, getLsbD_shuffleInv _ _ hplace]
  constructor
  · rintro ⟨i, hi, hij, hx⟩
    rwa [h.index_inj (by omega) hj hij] at hx
  · intro hx
    exact ⟨j, by omega, rfl, hx⟩

end Foundations
