import StarLib.Foundations.Loop

/-! # Arrays of booleans

An array of `n` booleans is kept as a word of `n` bits, cell `i` in bit `i`. `setBit` writes a cell,
`fillBits` runs a loop that writes one cell after the other.
-/

namespace Foundations
set_option autoImplicit false
set_option maxHeartbeats 250000
set_option maxRecDepth 120000

variable {n m : ℕ}

/-- `a[i] = b`. -/
def setBit (a : BitVec n) (i : ℕ) (b : Bool) : BitVec n :=
  if b then a ||| BitVec.twoPow n i else a &&& ~~~(BitVec.twoPow n i)

theorem getLsbD_setBit (a : BitVec n) (i : ℕ) (b : Bool) {j : ℕ} (hj : j < n) :
    (setBit a i b).getLsbD j = if j = i then b else a.getLsbD j := by
  unfold setBit
  by_cases hji : j = i
  · subst hji
    cases b with
    | false => simp [hj]
    | true => simp [hj]
  · have hij : ¬ i = j := fun h => hji h.symm
    cases b with
    | false => simp [hj, hji]
    | true => simp [hij, hji]

/-- `for (i = 0; i < len; i++) a[off + i] = g(i)`. -/
def fillBits (off len : ℕ) (g : ℕ → Bool) (a : BitVec n) : BitVec n :=
  forRange 0 len (fun i a => setBit a (off + i) (g i)) a

theorem getLsbD_fillBits (off len : ℕ) (g : ℕ → Bool) (a : BitVec n) {j : ℕ} (hj : j < n) :
    (fillBits off len g a).getLsbD j = if off ≤ j ∧ j < off + len then g (j - off) else a.getLsbD j := by
  unfold fillBits
  induction len with
  | zero =>
    have hno : ¬ (off ≤ j ∧ j < off + 0) := by omega
    rw [forRange_of_le (Nat.le_refl 0), if_neg hno]
  | succ len ih =>
    rw [forRange_succ (Nat.zero_le len), getLsbD_setBit _ _ _ hj, ih]
    by_cases hlast : j = off + len
    · have hin : off ≤ j ∧ j < off + (len + 1) := by omega
      have hindex : j - off = len := by omega
      rw [if_pos hlast, if_pos hin, hindex]
    · have hiff : (off ≤ j ∧ j < off + (len + 1)) ↔ (off ≤ j ∧ j < off + len) := by omega
      rw [if_neg hlast]
      simp only [hiff]

/-- A loop that writes every cell leaves nothing of what was there. -/
theorem fillBits_all (g : ℕ → Bool) (a b : BitVec n) : fillBits 0 n g a = fillBits 0 n g b := by
  apply BitVec.eq_of_getLsbD_eq
  intro j hj
  have hin : 0 ≤ j ∧ j < 0 + n := by omega
  rw [getLsbD_fillBits _ _ _ _ hj, getLsbD_fillBits _ _ _ _ hj, if_pos hin, if_pos hin]

end Foundations
