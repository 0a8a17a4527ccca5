import Mathlib.Data.ZMod.Basic
import Mathlib.Tactic.LinearCombination
import Mathlib.Tactic.Ring

/-! # Euclid's divisions for an inverse

The remainders of dividing `n` by `a`, each with the multiple of `a` that it is modulo `n`. The turns of the two
remainders have opposite signs, so that the coefficients only grow.
-/

namespace Foundations
set_option autoImplicit false
set_option maxHeartbeats 250000
set_option maxRecDepth 120000

/-- Two remainders `x` and `y` of `n` and `a`; `t0` and `t1` say which multiples of `a` they are. -/
structure Remainders (n a x y t0 t1 : ℕ) : Prop where
  balance : x * t1 + y * t0 = n
  left : (x : ZMod n) = t0 * a
  right : (y : ZMod n) = -(t1 * a)
  coprime : Nat.Coprime x y

namespace Remainders
variable {n a x y t0 t1 : ℕ}

theorem start (h : Nat.Coprime n a) : Remainders n a a (n % a) 1 (n / a) where
  balance := by rw [Nat.mul_one, Nat.div_add_mod]
  left := by rw [Nat.cast_one, one_mul]
  right := by
    have hcast : ((a * (n / a) + n % a : ℕ) : ZMod n) = 0 := by rw [Nat.div_add_mod, ZMod.natCast_self]
    push_cast at hcast
    linear_combination hcast
  coprime := by
    rw [Nat.coprime_comm, Nat.Coprime, ← Nat.gcd_rec, Nat.gcd_comm]
    exact h

theorem turnLeft (h : Remainders n a x y t0 t1) : Remainders n a (x % y) y (t0 + x / y * t1) t1 where
  balance := by
    have hx := Nat.div_add_mod x y
    calc x % y * t1 + y * (t0 + x / y * t1) = (y * (x / y) + x % y) * t1 + y * t0 := by ring
      _ = n := by rw [hx, h.balance]
  left := by
    have hx : ((y * (x / y) + x % y : ℕ) : ZMod n) = x := by rw [Nat.div_add_mod]
    push_cast at hx ⊢
    linear_combination hx + h.left - (x / y : ℕ) * h.right
  right := h.right
  coprime := by
    rw [Nat.Coprime, ← Nat.gcd_rec, Nat.gcd_comm]
    exact h.coprime

theorem turnRight (h : Remainders n a x y t0 t1) : Remainders n a x (y % x) t0 (t1 + y / x * t0) where
  balance := by
    have hy := Nat.div_add_mod y x
    calc x * (t1 + y / x * t0) + y % x * t0 = x * t1 + (x * (y / x) + y % x) * t0 := by ring
      _ = n := by rw [hy, h.balance]
  left := h.left
  right := by
    have hy : ((x * (y / x) + y % x : ℕ) : ZMod n) = y := by rw [Nat.div_add_mod]
    push_cast at hy ⊢
    linear_combination hy + h.right - (y / x : ℕ) * h.left
  coprime := by
    rw [Nat.coprime_comm, Nat.Coprime, ← Nat.gcd_rec]
    exact h.coprime

/-- A remainder of zero has the other one at one. -/
theorem left_pos (h : Remainders n a x y t0 t1) (hy : y ≠ 1) : 0 < x := by
  refine Nat.pos_of_ne_zero fun hx => hy ?_
  have hone := h.coprime
  rw [hx, Nat.coprime_zero_left] at hone
  exact hone

theorem right_pos (h : Remainders n a x y t0 t1) (hx : x ≠ 1) : 0 < y := by
  refine Nat.pos_of_ne_zero fun hy => hx ?_
  have hone := h.coprime
  rw [hy, Nat.coprime_zero_right] at hone
  exact hone

theorem left_le (h : Remainders n a x y t0 t1) (hy : 0 < y) : t0 ≤ n :=
  (Nat.le_mul_of_pos_left t0 hy).trans (h.balance ▸ Nat.le_add_left _ _)

theorem right_le (h : Remainders n a x y t0 t1) (hx : 0 < x) : t1 ≤ n :=
  (Nat.le_mul_of_pos_left t1 hx).trans (h.balance ▸ Nat.le_add_right _ _)

theorem left_inverse (h : Remainders n a 1 y t0 t1) : (t0 : ZMod n) * a = 1 := by
  rw [← h.left, Nat.cast_one]

theorem right_inverse (h : Remainders n a x 1 t0 t1) (hx : 0 < x) : ((n - t1 : ℕ) : ZMod n) * a = 1 := by
  rw [Nat.cast_sub (h.right_le hx), ZMod.natCast_self, zero_sub, neg_mul, ← h.right, Nat.cast_one]

end Remainders

end Foundations
