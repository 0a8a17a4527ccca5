import Mathlib.Algebra.Group.Nat.Defs
import Mathlib.Data.List.Basic
import Mathlib.Data.List.GetD
import Mathlib.Tactic.Common

/-! # Arrays packed into a word

An array of `n` cells of `e` bits in one word of `e * n` bits. A run on lists that reads and writes single
cells can be followed on such a word (`Packs`), where the cost of an access does not grow with the cell's
index.
-/

namespace Foundations
set_option autoImplicit false
set_option maxHeartbeats 250000
set_option maxRecDepth 120000

variable {e n : ℕ}

def packedGet (s : BitVec (e * n)) (i : ℕ) : BitVec e := (s >>> (e * i)).setWidth e

def packedSet (s : BitVec (e * n)) (i : ℕ) (v : BitVec e) : BitVec (e * n) :=
  s ^^^ (((packedGet s i ^^^ v).setWidth (e * n)) <<< (e * i))

theorem getLsbD_packedGet (s : BitVec (e * n)) (i : ℕ) {k : ℕ} (hk : k < e) :
    (packedGet s i).getLsbD k = s.getLsbD (e * i + k) := by
  simp [packedGet, hk]

theorem packedGet_set_self (s : BitVec (e * n)) {i : ℕ} (hi : i < n) (v : BitVec e) :
    packedGet (packedSet s i v) i = v := by
  apply BitVec.eq_of_getLsbD_eq
  intro k hk
  have hin : e * i + k < e * n := by
    have h := Nat.mul_le_mul_left e (Nat.succ_le_of_lt hi)
    rw [Nat.mul_succ] at h
    omega
  have hk' : k < e * n := by omega
  have hno : ¬ e * i + k < e * i := by omega
  rw [getLsbD_packedGet _ _ hk]
  unfold packedSet
  simp only [BitVec.getLsbD_xor, BitVec.getLsbD_shiftLeft, BitVec.getLsbD_setWidth, hin, hno, hk',
    Nat.add_sub_cancel_left, decide_true, decide_false, Bool.not_false, Bool.true_and, getLsbD_packedGet s i hk]
  rw [← Bool.xor_assoc, Bool.xor_self, Bool.false_xor]

theorem packedGet_set_ne (s : BitVec (e * n)) {i j : ℕ} (hij : i ≠ j) (v : BitVec e) :
    packedGet (packedSet s i v) j = packedGet s j := by
  apply BitVec.eq_of_getLsbD_eq
  intro k hk
  rw [getLsbD_packedGet _ _ hk, getLsbD_packedGet _ _ hk]
  unfold packedSet
  rw [BitVec.getLsbD_xor, BitVec.getLsbD_shiftLeft]
  rcases Nat.lt_or_gt_of_ne hij with hlt | hgt
  · -- above the written cell the difference has no bits
    have h := Nat.mul_le_mul_left e (Nat.succ_le_of_lt hlt)
    rw [Nat.mul_succ] at h
    have hout : ((packedGet s i ^^^ v).setWidth (e * n)).getLsbD (e * j + k - e * i) = false := by
      rw [BitVec.getLsbD_setWidth, BitVec.getLsbD_of_ge _ _ (by omega), Bool.and_false]
    rw [hout, Bool.and_false, Bool.xor_false]
  · -- below it nothing is shifted in
    have h := Nat.mul_le_mul_left e (Nat.succ_le_of_lt hgt)
    rw [Nat.mul_succ] at h
    have hlow : e * j + k < e * i := by omega
    simp [hlow]

/-! ## Lists and words -/

/-- The number with the cells of the list as digits, the first one lowest. -/
def packNat : List (BitVec e) → ℕ
  | [] => 0
  | x :: l => x.toNat + 2 ^ e * packNat l

theorem packNat_digit (l : List (BitVec e)) (i : ℕ) : (packNat l >>> (e * i)) % 2 ^ e = (l.getD i 0).toNat := by
  induction l generalizing i with
  | nil => simp [packNat]
  | cons x l ih =>
    cases i with
    | zero =>
      rw [packNat, Nat.mul_zero, Nat.shiftRight_zero, Nat.add_mul_mod_self_left, Nat.mod_eq_of_lt x.isLt]
      rfl
    | succ i =>
      have hrest : (x.toNat + 2 ^ e * packNat l) >>> e = packNat l := by
        rw [Nat.shiftRight_eq_div_pow, Nat.add_mul_div_left _ _ (Nat.two_pow_pos e), Nat.div_eq_of_lt x.isLt, Nat.zero_add]
      rw [packNat, Nat.mul_succ, Nat.add_comm (e * i) e, Nat.shiftRight_add, hrest, ih]
      rfl

theorem packNat_lt (l : List (BitVec e)) : packNat l < 2 ^ (e * l.length) := by
  induction l with
  | nil => exact Nat.two_pow_pos _
  | cons x l ih =>
    have hx := x.isLt
    have hstep : 2 ^ e * (packNat l + 1) ≤ 2 ^ e * 2 ^ (e * l.length) := Nat.mul_le_mul_left _ ih
    rw [packNat, List.length_cons, Nat.mul_succ, Nat.add_comm (e * l.length) e, Nat.pow_add]
    rw [Nat.mul_succ] at hstep
    omega

def packList (n : ℕ) (l : List (BitVec e)) : BitVec (e * n) := BitVec.ofNat _ (packNat l)

/-- The word holds the cells of the list. -/
def Packs (s : BitVec (e * n)) (l : List (BitVec e)) : Prop := l.length = n ∧ ∀ i < n, l.getD i 0 = packedGet s i

theorem packs_packList {l : List (BitVec e)} (hl : l.length = n) : Packs (packList n l) l := by
  refine ⟨hl, fun i _ => BitVec.eq_of_toNat_eq ?_⟩
  subst hl
  rw [packedGet, packList, BitVec.toNat_setWidth, BitVec.toNat_ushiftRight, BitVec.toNat_ofNat,
    Nat.mod_eq_of_lt (packNat_lt l), packNat_digit]

theorem Packs.unique {s : BitVec (e * n)} {l l' : List (BitVec e)} (h : Packs s l) (h' : Packs s l') : l = l' := by
  refine List.ext_getElem (h.1.trans h'.1.symm) fun i hi hi' => ?_
  have hin : i < n := by
    rw [← h.1]
    exact hi
  rw [← List.getD_eq_getElem l 0 hi, ← List.getD_eq_getElem l' 0 hi', h.2 i hin, h'.2 i hin]

theorem Packs.set {s : BitVec (e * n)} {l : List (BitVec e)} (h : Packs s l) {i : ℕ} (hi : i < n) (v : BitVec e) :
    Packs (packedSet s i v) (l.set i v) := by
  obtain ⟨hlen, hcell⟩ := h
  refine ⟨by rw [List.length_set, hlen], fun j hj => ?_⟩
  by_cases hij : i = j
  · subst hij
    have hi' : i < l.length := by omega
    rw [packedGet_set_self s hi]
    simp [List.getD_eq_getElem?_getD, hi']
  · rw [packedGet_set_ne s hij, ← hcell j hj]
    simp [List.getD_eq_getElem?_getD, List.getElem?_set_ne hij]

end Foundations
