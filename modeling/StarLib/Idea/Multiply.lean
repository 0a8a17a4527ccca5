import StarLib.Foundations.Euclid
import StarLib.Foundations.Words
import Mathlib.Tactic.NormNum.Prime

/-! # Multiplication modulo 65537

`mul` and `inv`, in words of 32 bits where the algorithm has 16. The lower half of a word stands for a number from 1
to 65536, zero for the last one. The product is right as long as the second factor is not over 65536; its upper half
is not cut off.
-/

namespace StarLib.Idea
open Foundations
set_option autoImplicit false
set_option maxHeartbeats 250000
set_option maxRecDepth 120000

def low16 (x : DWord) : DWord := x &&& 0xffff

def mul (a b : DWord) : DWord :=
  if a ≠ 0 then
    if b ≠ 0 then
      let p := a * b
      let b := low16 p
      let a := p >>> 16
      b - a + if b < a then 1 else 0
    else 1 - a
  else 1 - b

/-- The macro `MUL`, and what it leaves in `x`. -/
def MUL (x y : DWord) : DWord := mul (low16 x) y

/-- The loop of `inv`; there is no result where it divides by zero. -/
def invTurns : ℕ → DWord → DWord → DWord → DWord → Option DWord
  | 0, _, _, _, _ => none
  | fuel + 1, x, y, t0, t1 =>
    if y = 0 then none
    else
      let q := x / y
      let x := x % y
      let t0 := t0 + q * t1
      if x = 1 then some t0
      else if x = 0 then none
      else
        let q := y / x
        let y := y % x
        let t1 := t1 + q * t0
        if y = 1 then some (low16 (1 - t1)) else invTurns fuel x y t0 t1

/-- `inv`; `y` falls from turn to turn. -/
def inv (x : DWord) : Option DWord :=
  if x ≤ 1 then some x
  else
    let t1 := 0x10001 / x
    let y := 0x10001 % x
    if y = 1 then some (low16 (1 - t1)) else invTurns (y.toNat + 1) x y 1 t1

/-! ## Halves of words -/

theorem low16_toNat (x : DWord) : (low16 x).toNat = x.toNat % 65536 := by
  unfold low16
  rw [BitVec.toNat_and]
  exact Nat.and_two_pow_sub_one_eq_mod x.toNat 16

theorem low16_lt (x : DWord) : (low16 x).toNat < 65536 := by
  rw [low16_toNat]
  exact Nat.mod_lt _ (by decide)

theorem low16_of_lt {x : DWord} (h : x.toNat < 65536) : low16 x = x := by
  apply BitVec.eq_of_toNat_eq
  rw [low16_toNat, Nat.mod_eq_of_lt h]

theorem low16_low16 (x : DWord) : low16 (low16 x) = low16 x := low16_of_lt (low16_lt x)

/-- The number that the lower half of a word stands for. -/
def units (v : ℕ) : ℕ := if v % 65536 = 0 then 65536 else v % 65536

def residue (x : DWord) : ZMod 65537 := units x.toNat

theorem units_of_le {v : ℕ} (hpos : 0 < v) (hle : v ≤ 65536) : units v = v := by
  unfold units
  split <;> omega

theorem residue_low16 (x : DWord) : residue (low16 x) = residue x := by
  unfold residue units
  rw [low16_toNat, Nat.mod_mod]

theorem low16_of_residue {x y : DWord} (h : residue x = residue y) : low16 x = low16 y := by
  have hunits : units x.toNat = units y.toNat := by
    have hlt : ∀ v, units v < 65537 := by
      intro v
      unfold units
      split <;> omega
    have hmod := (ZMod.natCast_eq_natCast_iff' _ _ _).1 h
    rwa [Nat.mod_eq_of_lt (hlt _), Nat.mod_eq_of_lt (hlt _)] at hmod
  apply BitVec.eq_of_toNat_eq
  rw [low16_toNat, low16_toNat]
  unfold units at hunits
  split at hunits <;> split at hunits <;> omega

theorem units_one_sub {v : DWord} (hpos : 0 < v.toNat) (hle : v.toNat ≤ 65536) : units (1 - v).toNat = 65537 - v.toNat := by
  have hsub : (1 - v).toNat = (2 ^ 32 - v.toNat + 1) % 2 ^ 32 := BitVec.toNat_sub 1 v
  unfold units
  split <;> omega

/-! ## Products -/

theorem prime_modulus : Nat.Prime 65537 := by norm_num

/-- Neither factor is a multiple of the modulus. -/
theorem product_mod {a b : ℕ} (ha : 0 < a) (ha' : a < 65537) (hb : 0 < b) (hb' : b < 65537) : a * b % 65537 ≠ 0 := by
  intro h
  rcases prime_modulus.dvd_mul.1 (Nat.dvd_of_mod_eq_zero h) with hdvd | hdvd
  · exact absurd (Nat.le_of_dvd ha hdvd) (by omega)
  · exact absurd (Nat.le_of_dvd hb hdvd) (by omega)

/-- What `mul` returns for two factors other than zero. -/
theorem mul_of_ne_zero {a b : DWord} (ha : a ≠ 0) (hb : b ≠ 0) :
    mul a b = low16 (a * b) - (a * b) >>> 16 + if low16 (a * b) < (a * b) >>> 16 then 1 else 0 := by
  unfold mul
  rw [if_pos ha, if_pos hb]

theorem high_lt (p : DWord) : (p >>> 16).toNat < 65536 := by
  have hlt := p.isLt
  rw [BitVec.toNat_ushiftRight, Nat.shiftRight_eq_div_pow]
  omega

theorem difference_toNat (lo hi : DWord) : (lo - hi + if lo < hi then 1 else 0).toNat =
    if lo.toNat < hi.toNat then (2 ^ 32 - hi.toNat + lo.toNat + 1) % 2 ^ 32 else lo.toNat - hi.toNat := by
  have hdiff : (lo - hi).toNat = (2 ^ 32 - hi.toNat + lo.toNat) % 2 ^ 32 := BitVec.toNat_sub lo hi
  have hlo := lo.isLt
  have hone : (1 : DWord).toNat = 1 := rfl
  by_cases hlt : lo < hi
  · have hlt' : lo.toNat < hi.toNat := hlt
    rw [if_pos hlt, if_pos hlt', BitVec.toNat_add]
    omega
  · have hle : ¬ lo.toNat < hi.toNat := hlt
    have hadd : (lo - hi + 0).toNat = (lo - hi).toNat := congrArg BitVec.toNat (BitVec.add_zero (lo - hi))
    rw [if_neg hlt, if_neg hle, hadd]
    omega

/-- The lower half of a product less its upper half, where these are not equal. -/
theorem units_difference {lo hi : DWord} (hlo : lo.toNat < 65536) (hhi : hi.toNat < 65536) (hne : lo.toNat ≠ hi.toNat) :
    units (lo - hi + if lo < hi then 1 else 0).toNat + hi.toNat = lo.toNat ∨
      units (lo - hi + if lo < hi then 1 else 0).toNat + hi.toNat = lo.toNat + 65537 := by
  rw [difference_toNat]
  unfold units
  split <;> split <;> omega

theorem pos_of_ne_zero {x : DWord} (h : x ≠ 0) : 0 < x.toNat := Nat.pos_of_ne_zero fun hx => h (BitVec.eq_of_toNat_eq hx)

theorem units_mul {a b : DWord} (ha : a ≠ 0) (hb : b ≠ 0) (ha' : a.toNat < 65536) (hb' : b.toNat ≤ 65536) :
    ((units (mul a b).toNat : ℕ) : ZMod 65537) = a.toNat * b.toNat := by
  have hmul : a.toNat * b.toNat ≤ 65535 * 65536 := Nat.mul_le_mul (by omega) hb'
  have hp : (a * b).toNat = a.toNat * b.toNat := by
    rw [BitVec.toNat_mul, Nat.mod_eq_of_lt (by omega)]
  have hne := product_mod (pos_of_ne_zero ha) (by omega) (pos_of_ne_zero hb) (by omega)
  have hhigh : ((a * b) >>> 16).toNat = a.toNat * b.toNat / 65536 := by
    rw [BitVec.toNat_ushiftRight, hp, Nat.shiftRight_eq_div_pow]
  have hlow : (low16 (a * b)).toNat = a.toNat * b.toNat % 65536 := by
    rw [low16_toNat, hp]
  have hdifference := units_difference (low16_lt (a * b)) (high_lt (a * b)) (by omega)
  rw [← mul_of_ne_zero ha hb, hhigh, hlow] at hdifference
  have hcast : ((units (mul a b).toNat + a.toNat * b.toNat / 65536 : ℕ) : ZMod 65537) = (a.toNat * b.toNat % 65536 : ℕ) := by
    rcases hdifference with h | h
    · rw [h]
    · rw [h, Nat.cast_add, ZMod.natCast_self, add_zero]
  have hsplit : ((65536 * (a.toNat * b.toNat / 65536) + a.toNat * b.toNat % 65536 : ℕ) : ZMod 65537) = a.toNat * b.toNat := by
    rw [Nat.div_add_mod, Nat.cast_mul]
  have hmodulus : ((65536 : ℕ) : ZMod 65537) + 1 = 0 := rfl
  rw [Nat.cast_add] at hcast
  rw [Nat.cast_add, Nat.cast_mul] at hsplit
  linear_combination hcast + hsplit - (a.toNat * b.toNat / 65536 : ℕ) * hmodulus

theorem residue_zero : residue 0 = -1 := rfl

theorem residue_of_le {x : DWord} (hx : x ≠ 0) (hle : x.toNat ≤ 65536) : residue x = x.toNat := by
  unfold residue
  rw [units_of_le (pos_of_ne_zero hx) hle]

/-- Zero, or what is as much, is the number −1. -/
theorem residue_one_sub {x : DWord} (hle : x.toNat ≤ 65536) : residue (1 - x) = -residue x := by
  by_cases hx : x = 0
  · rw [hx]
    rfl
  · have hunits := units_one_sub (pos_of_ne_zero hx) hle
    rw [residue_of_le hx hle]
    unfold residue
    rw [hunits, Nat.cast_sub (by omega), ZMod.natCast_self, zero_sub]

theorem residue_mul {a b : DWord} (ha : a.toNat < 65536) (hb : b.toNat ≤ 65536) : residue (mul a b) = residue a * residue b := by
  by_cases ha0 : a = 0
  · have hmul : mul a b = 1 - b := if_neg (not_not.2 ha0)
    rw [hmul, residue_one_sub hb, ha0, residue_zero, neg_one_mul]
  · by_cases hb0 : b = 0
    · have hmul : mul a b = 1 - a := by
        unfold mul
        rw [if_pos ha0, if_neg (not_not.2 hb0)]
      rw [hmul, residue_one_sub (by omega), hb0, residue_zero, mul_neg_one]
    · rw [residue_of_le ha0 (by omega), residue_of_le hb0 hb]
      exact units_mul ha0 hb0 ha hb

theorem residue_MUL (x : DWord) {y : DWord} (hy : y.toNat ≤ 65536) : residue (MUL x y) = residue x * residue y := by
  unfold MUL
  rw [residue_mul (low16_lt x) hy, residue_low16]

theorem MUL_low16 (x y : DWord) : MUL (low16 x) y = MUL x y := congrArg (mul · y) (low16_low16 x)

/-! ## Inverses -/

/-- A word that takes a multiplication by `v` back. -/
structure Inverse (v : ZMod 65537) (r : DWord) : Prop where
  le : r.toNat ≤ 65536
  product : residue r * v = 1

theorem one_ne_zero_modulus : (1 : ZMod 65537) ≠ 0 := by decide

/-- A coefficient of the left remainder 1. -/
theorem inverse_of_left {v : ZMod 65537} {r : DWord} (hr : r.toNat ≤ 65537) (h : (r.toNat : ZMod 65537) * v = 1) : Inverse v r := by
  have hr0 : r ≠ 0 := by
    rintro rfl
    rw [show (0 : DWord).toNat = 0 from rfl, Nat.cast_zero, zero_mul] at h
    exact one_ne_zero_modulus h.symm
  have hr1 : r.toNat ≠ 65537 := by
    intro hr1
    rw [hr1, ZMod.natCast_self, zero_mul] at h
    exact one_ne_zero_modulus h.symm
  refine ⟨by omega, ?_⟩
  rw [residue_of_le hr0 (by omega)]
  exact h

/-- A coefficient of the right remainder 1. -/
theorem inverse_of_right {v : ZMod 65537} {t : DWord} (ht : t.toNat ≤ 65537) (h : ((65537 - t.toNat : ℕ) : ZMod 65537) * v = 1) :
    Inverse v (low16 (1 - t)) := by
  have ht0 : t ≠ 0 := by
    rintro rfl
    rw [show 65537 - (0 : DWord).toNat = 65537 from rfl, ZMod.natCast_self, zero_mul] at h
    exact one_ne_zero_modulus h.symm
  have ht1 : t.toNat ≠ 65537 := by
    intro ht1
    rw [ht1, Nat.sub_self, Nat.cast_zero, zero_mul] at h
    exact one_ne_zero_modulus h.symm
  refine ⟨(low16_lt _).le.trans (by decide), ?_⟩
  have hunits := units_one_sub (pos_of_ne_zero ht0) (by omega)
  rw [residue_low16]
  unfold residue
  rw [hunits]
  exact h

/-- The coefficients stay below the modulus, and no word overflows. -/
theorem coefficient_toNat {t q u : DWord} {m : ℕ} (h : t.toNat + m * u.toNat ≤ 65537) (hq : q.toNat = m) :
    (t + q * u).toNat = t.toNat + m * u.toNat := by
  rw [BitVec.toNat_add, BitVec.toNat_mul, hq, Nat.mod_eq_of_lt (a := m * u.toNat) (by omega), Nat.mod_eq_of_lt (by omega)]

theorem toNat_ne_one {x : DWord} (h : x ≠ 1) : x.toNat ≠ 1 := fun hx => h (BitVec.eq_of_toNat_eq hx)

theorem invTurns_inverse {a : ℕ} (fuel : ℕ) (x y t0 t1 : DWord)
    (h : Remainders 65537 a x.toNat y.toNat t0.toNat t1.toNat) (hx : x ≠ 1) (hy : y ≠ 1) (hfuel : y.toNat < fuel) :
    ∃ r, invTurns fuel x y t0 t1 = some r ∧ Inverse a r := by
  induction fuel generalizing x y t0 t1 with
  | zero => exact absurd hfuel (Nat.not_lt_zero _)
  | succ fuel ih =>
    have hypos := h.right_pos (toNat_ne_one hx)
    have hy0 : y ≠ 0 := by
      rintro rfl
      exact Nat.lt_irrefl 0 hypos
    have hleft := h.turnLeft
    have hcoefficient := coefficient_toNat (hleft.left_le hypos) (BitVec.toNat_udiv (x := x) (y := y))
    rw [← hcoefficient, ← BitVec.toNat_umod] at hleft
    unfold invTurns
    rw [if_neg hy0]
    simp only
    by_cases hx1 : x % y = 1
    · rw [if_pos hx1]
      rw [hx1] at hleft
      exact ⟨_, rfl, inverse_of_left (hleft.left_le hypos) hleft.left_inverse⟩
    · have hxpos := hleft.left_pos (toNat_ne_one hy)
      have hx0 : x % y ≠ 0 := by
        intro hx0
        rw [hx0] at hxpos
        exact Nat.lt_irrefl 0 hxpos
      have hright := hleft.turnRight
      have hcoefficient' := coefficient_toNat (hright.right_le hxpos) (BitVec.toNat_udiv (x := y) (y := x % y))
      rw [← hcoefficient', ← BitVec.toNat_umod] at hright
      rw [if_neg hx1, if_neg hx0]
      by_cases hy1 : y % (x % y) = 1
      · rw [if_pos hy1]
        rw [hy1] at hright
        exact ⟨_, rfl, inverse_of_right (hright.right_le hxpos) (hright.right_inverse hxpos)⟩
      · rw [if_neg hy1]
        refine ih _ _ _ _ hright hx1 hy1 ?_
        have hless : (y % (x % y)).toNat < y.toNat := by
          have hx' : (x % y).toNat < y.toNat := by
            rw [BitVec.toNat_umod]
            exact Nat.mod_lt _ hypos
          rw [BitVec.toNat_umod]
          exact (Nat.mod_lt _ hxpos).trans hx'
        omega

section inv
variable {a : DWord}

theorem modulus_mod : (0x10001 % a).toNat = 65537 % a.toNat := BitVec.toNat_umod

theorem inv_coprime (hdvd : ¬ 65537 ∣ a.toNat) : ∃ r, inv a = some r ∧ Inverse a.toNat r := by
  have hpos : 0 < a.toNat := Nat.pos_of_ne_zero fun h => hdvd (h ▸ Nat.dvd_zero _)
  unfold inv
  by_cases hsmall : a ≤ 1
  · have hle : a.toNat ≤ 1 := hsmall
    have ha : a = 1 := BitVec.eq_of_toNat_eq (Nat.le_antisymm hle hpos)
    rw [if_pos hsmall, ha]
    exact ⟨1, rfl, by decide, rfl⟩
  · have ha1 : a ≠ 1 := by
      rintro rfl
      exact hsmall (Nat.le_refl 1)
    have hstart := Remainders.start ((Nat.Prime.coprime_iff_not_dvd prime_modulus).2 hdvd)
    have hdiv : (0x10001 / a).toNat = 65537 / a.toNat := BitVec.toNat_udiv
    rw [← modulus_mod, ← hdiv] at hstart
    rw [if_neg hsmall]
    simp only
    by_cases hy : 0x10001 % a = 1
    · rw [if_pos hy]
      rw [hy] at hstart
      exact ⟨_, rfl, inverse_of_right (hstart.right_le hpos) (hstart.right_inverse hpos)⟩
    · rw [if_neg hy]
      exact invTurns_inverse _ _ _ 1 _ hstart ha1 hy (Nat.lt_succ_self _)

/-- Of a multiple of the modulus a turn leaves zero, and the next division is by it. -/
theorem inv_multiple (ha : a ≠ 0) (hdvd : 65537 ∣ a.toNat) : inv a = none := by
  obtain ⟨m, hm⟩ := hdvd
  have hpos := pos_of_ne_zero ha
  have hsmall : ¬ a ≤ 1 := by
    intro hle
    have hle' : a.toNat ≤ 1 := hle
    omega
  have hmod := modulus_mod (a := a)
  unfold inv
  rw [if_neg hsmall]
  simp only
  by_cases hone : m = 1
  · have hy : 0x10001 % a = 0 := by
      apply BitVec.eq_of_toNat_eq
      rw [hmod, hm, hone]
      rfl
    rw [hy, if_neg (by decide)]
    rfl
  · have hy : 0x10001 % a = 0x10001 := by
      apply BitVec.eq_of_toNat_eq
      rw [hmod, Nat.mod_eq_of_lt (by omega)]
      rfl
    have hx : a % 0x10001 = 0 := by
      apply BitVec.eq_of_toNat_eq
      rw [BitVec.toNat_umod, hm]
      exact Nat.mul_mod_right 65537 m
    rw [hy, if_neg (by decide)]
    show invTurns (0x10001 + 1) _ _ _ _ = none
    unfold invTurns
    simp only [hx]
    rfl

theorem inv_isSome_iff : (inv a).isSome = true ↔ a = 0 ∨ ¬ 65537 ∣ a.toNat := by
  constructor
  · intro h
    by_cases ha : a = 0
    · exact Or.inl ha
    · refine Or.inr fun hdvd => ?_
      rw [inv_multiple ha hdvd] at h
      exact Bool.false_ne_true h
  · rintro (rfl | hdvd)
    · rfl
    · obtain ⟨r, hr, _⟩ := inv_coprime hdvd
      rw [hr]
      rfl

theorem inv_inverse (hle : a.toNat ≤ 65536) : ∃ r, inv a = some r ∧ Inverse (residue a) r := by
  by_cases ha : a = 0
  · rw [ha]
    exact ⟨0, rfl, by decide, rfl⟩
  · have hpos := pos_of_ne_zero ha
    rw [residue_of_le ha hle]
    exact inv_coprime fun hdvd => absurd (Nat.le_of_dvd hpos hdvd) (by omega)

end inv

/-- A product taken back, up to the upper half. -/
theorem MUL_back {x z r : DWord} (hz : z.toNat ≤ 65536) (h : Inverse (residue z) r) : low16 (MUL (MUL x z) r) = low16 x := by
  refine low16_of_residue ?_
  rw [residue_MUL _ h.le, residue_MUL _ hz, mul_assoc, mul_comm (residue z), h.product, mul_one]

end StarLib.Idea
