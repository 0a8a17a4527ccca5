import Mathlib.Algebra.Group.Nat.Defs
import Mathlib.Data.Int.Notation
import Mathlib.Data.Nat.Notation

/-! # Rounding to a number of bits

Binary floating point without its exponent range: the integers, where a result is rounded to the nearest integer with
`p` significant bits, ties to even. What has no more bits than that is exact.
-/

namespace Foundations
set_option autoImplicit false
set_option maxHeartbeats 250000
set_option maxRecDepth 120000

/-- The nearest number with at most `p` bits and some zeros. -/
def roundNat (p n : ℕ) : ℕ :=
  let k := n.log2 + 1 - p
  let q := n / 2 ^ k
  let r := n % 2 ^ k
  if 2 ^ k < 2 * r ∨ (2 ^ k = 2 * r ∧ q % 2 = 1) then (q + 1) * 2 ^ k else q * 2 ^ k

def roundInt (p : ℕ) (z : ℤ) : ℤ := z.sign * roundNat p z.natAbs

theorem roundNat_exact {p n : ℕ} (hp : 0 < p) (h : n < 2 ^ p) : roundNat p n = n := by
  have hbits : n.log2 + 1 - p = 0 := by
    by_cases hn : n = 0
    · rw [hn, Nat.log2_zero]
      omega
    · have hlog := (Nat.log2_lt hn).2 h
      omega
  unfold roundNat
  simp only [hbits]
  rw [if_neg (by omega), Nat.pow_zero, Nat.div_one, Nat.mul_one]

theorem roundInt_exact {p n : ℕ} (hp : 0 < p) (h : n < 2 ^ p) : roundInt p n = n := by
  unfold roundInt
  rw [Int.natAbs_natCast, roundNat_exact hp h]
  exact Int.sign_mul_natAbs n

end Foundations
