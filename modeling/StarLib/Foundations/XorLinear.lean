import StarLib.Foundations.Shuffle
import StarLib.Foundations.Words

/-! # Functions that respect exclusive or

A function of a word that respects `^^^` is determined by its values on the words with one bit
(`XorLinear.ext`). Shifts, masks, rotations, shuffles and their exclusive ors are such functions, so two
networks of them are compared bit by bit.
-/

namespace Foundations
set_option autoImplicit false
set_option maxHeartbeats 250000
set_option maxRecDepth 120000

variable {w v u : ℕ}

def XorLinear (f : BitVec w → BitVec v) : Prop := ∀ x y, f (x ^^^ y) = f x ^^^ f y

namespace XorLinear

theorem map_zero {f : BitVec w → BitVec v} (hf : XorLinear f) : f 0#w = 0#v := by
  have h := hf 0#w 0#w
  rw [BitVec.xor_self, BitVec.xor_self] at h
  exact h

/-- The lowest `k + 1` bits are the lowest `k` bits and perhaps bit `k`. -/
theorem low_succ (x : BitVec w) (k : ℕ) :
    (x.setWidth (k + 1)).setWidth w =
      (x.setWidth k).setWidth w ^^^ if x.getLsbD k then BitVec.twoPow w k else 0#w := by
  apply BitVec.eq_of_getLsbD_eq
  intro i hi
  rw [BitVec.getLsbD_xor, BitVec.getLsbD_setWidth, BitVec.getLsbD_setWidth, BitVec.getLsbD_setWidth,
    BitVec.getLsbD_setWidth]
  by_cases hik : i = k
  · subst hik
    cases x.getLsbD i with
    | false => simp
    | true => simp [hi]
  · have hlt : i < k + 1 ↔ i < k := by omega
    split
    · simp [hi, hlt, hik]
    · simp [hi, hlt]

/-- Two functions that respect exclusive or and agree on single bits are equal. -/
theorem ext {f g : BitVec w → BitVec v} (hf : XorLinear f) (hg : XorLinear g)
    (h : ∀ i < w, f (BitVec.twoPow w i) = g (BitVec.twoPow w i)) (x : BitVec w) : f x = g x := by
  have hlow : ∀ k ≤ w, f ((x.setWidth k).setWidth w) = g ((x.setWidth k).setWidth w) := by
    intro k hk
    induction k with
    | zero =>
      have hzero : (x.setWidth 0).setWidth w = 0#w := by
        apply BitVec.eq_of_getLsbD_eq
        intro i hi
        simp
      rw [hzero, hf.map_zero, hg.map_zero]
    | succ k ih =>
      rw [low_succ, hf, hg, ih (by omega)]
      split
      · rw [h k (by omega)]
      · rw [hf.map_zero, hg.map_zero]
  have hall := hlow w (Nat.le_refl w)
  rwa [BitVec.setWidth_eq, BitVec.setWidth_eq] at hall

theorem comp {g : BitVec v → BitVec u} (hg : XorLinear g) {f : BitVec w → BitVec v} (hf : XorLinear f) :
    XorLinear fun x => g (f x) := by
  intro x y
  show g (f (x ^^^ y)) = g (f x) ^^^ g (f y)
  rw [hf, hg]

theorem xor {f g : BitVec w → BitVec v} (hf : XorLinear f) (hg : XorLinear g) : XorLinear fun x => f x ^^^ g x := by
  intro x y
  show f (x ^^^ y) ^^^ g (x ^^^ y) = (f x ^^^ g x) ^^^ (f y ^^^ g y)
  rw [hf, hg, BitVec.xor_assoc, BitVec.xor_assoc, ← BitVec.xor_assoc (f y), BitVec.xor_comm (f y),
    BitVec.xor_assoc (g x)]

theorem and (mask : BitVec w) : XorLinear fun x : BitVec w => x &&& mask := by
  intro x y
  apply BitVec.eq_of_getLsbD_eq
  intro i hi
  rw [BitVec.getLsbD_and, BitVec.getLsbD_xor, BitVec.getLsbD_xor, BitVec.getLsbD_and, BitVec.getLsbD_and,
    Bool.and_xor_distrib_right]

theorem shiftLeft (n : ℕ) : XorLinear fun x : BitVec w => x <<< n := fun _ _ => BitVec.shiftLeft_xor_distrib ..

theorem ushiftRight (n : ℕ) : XorLinear fun x : BitVec w => x >>> n := fun _ _ => BitVec.ushiftRight_xor_distrib ..

theorem setWidth (v : ℕ) : XorLinear fun x : BitVec w => x.setWidth v := fun _ _ => BitVec.setWidth_xor

/-- An `or` of two functions is an exclusive or where no bit can come from both. -/
theorem or {f g : BitVec w → BitVec v} (hf : XorLinear f) (hg : XorLinear g) (hdisjoint : ∀ x, f x &&& g x = 0#v) :
    XorLinear fun x => f x ||| g x := by
  have hor : (fun x => f x ||| g x) = fun x => f x ^^^ g x := by
    funext x
    apply BitVec.eq_of_getLsbD_eq
    intro i hi
    have hbit := congrArg (·.getLsbD i) (hdisjoint x)
    simp only [BitVec.getLsbD_and, BitVec.getLsbD_zero] at hbit
    rw [BitVec.getLsbD_or, BitVec.getLsbD_xor]
    cases hfx : (f x).getLsbD i with
    | false => simp
    | true =>
      rw [hfx, Bool.true_and] at hbit
      rw [hbit]
      rfl
  rw [hor]
  exact hf.xor hg

/-- A word built from bits of its argument. -/
theorem of_bits {f : BitVec w → BitVec v} {index : ℕ → ℕ} (h : ∀ x, ∀ j < v, (f x).getLsbD j = x.getLsbD (index j)) :
    XorLinear f := by
  intro x y
  apply BitVec.eq_of_getLsbD_eq
  intro j hj
  rw [BitVec.getLsbD_xor, h _ j hj, h _ j hj, h _ j hj, BitVec.getLsbD_xor]

theorem shuffle {table : List ℕ} (h : table.length = w) : XorLinear fun x : BitVec w => shuffle x table :=
  of_bits fun x _ hj => getLsbD_shuffle x table (h ▸ hj) hj

end XorLinear

end Foundations
