import StarLib.Foundations.Words

/-! # Columns of four bytes and the MixColumns matrix

Columns over `BitVec w` for any width, and the circulant matrices `2 3 1 1` and `14 11 13 9` over
any doubling map that distributes over `^^^`. The product of the two matrices is the identity
already as polynomials in the doubling map, so no reduction modulo a field polynomial is needed.
-/

namespace Foundations
set_option autoImplicit false
set_option maxHeartbeats 250000
set_option maxRecDepth 120000

/-- Four entries, `b0` in the first row. -/
@[ext] structure Column (β : Type*) where
  b0 : β
  b1 : β
  b2 : β
  b3 : β
deriving DecidableEq

namespace Column
variable {w : ℕ}

def xor (c d : Column (BitVec w)) : Column (BitVec w) :=
  ⟨c.b0 ^^^ d.b0, c.b1 ^^^ d.b1, c.b2 ^^^ d.b2, c.b3 ^^^ d.b3⟩

theorem xor_assoc (c d e : Column (BitVec w)) : (c.xor d).xor e = c.xor (d.xor e) := by
  simp [xor, BitVec.xor_assoc]

theorem xor_comm (c d : Column (BitVec w)) : c.xor d = d.xor c := by
  simp [xor, BitVec.xor_comm]

theorem xor_cancel_right (c d : Column (BitVec w)) : (c.xor d).xor d = c := by
  simp only [xor, BitVec.xor_assoc, BitVec.xor_self, BitVec.xor_zero]

/-! ## The two matrices -/

section Mix
variable (dbl : BitVec w → BitVec w)

/-- The circulant matrix with first row `2 3 1 1`. -/
def mix (c : Column (BitVec w)) : Column (BitVec w) where
  b0 := dbl c.b0 ^^^ (dbl c.b1 ^^^ c.b1) ^^^ c.b2 ^^^ c.b3
  b1 := c.b0 ^^^ dbl c.b1 ^^^ (dbl c.b2 ^^^ c.b2) ^^^ c.b3
  b2 := c.b0 ^^^ c.b1 ^^^ dbl c.b2 ^^^ (dbl c.b3 ^^^ c.b3)
  b3 := (dbl c.b0 ^^^ c.b0) ^^^ c.b1 ^^^ c.b2 ^^^ dbl c.b3

def mul9 (x : BitVec w) : BitVec w := dbl (dbl (dbl x)) ^^^ x

def mul11 (x : BitVec w) : BitVec w := dbl (dbl (dbl x)) ^^^ dbl x ^^^ x

def mul13 (x : BitVec w) : BitVec w := dbl (dbl (dbl x)) ^^^ dbl (dbl x) ^^^ x

def mul14 (x : BitVec w) : BitVec w := dbl (dbl (dbl x)) ^^^ dbl (dbl x) ^^^ dbl x

/-- The circulant matrix with first row `14 11 13 9`. -/
def invMix (c : Column (BitVec w)) : Column (BitVec w) where
  b0 := mul14 dbl c.b0 ^^^ mul11 dbl c.b1 ^^^ mul13 dbl c.b2 ^^^ mul9 dbl c.b3
  b1 := mul9 dbl c.b0 ^^^ mul14 dbl c.b1 ^^^ mul11 dbl c.b2 ^^^ mul13 dbl c.b3
  b2 := mul13 dbl c.b0 ^^^ mul9 dbl c.b1 ^^^ mul14 dbl c.b2 ^^^ mul11 dbl c.b3
  b3 := mul11 dbl c.b0 ^^^ mul13 dbl c.b1 ^^^ mul9 dbl c.b2 ^^^ mul14 dbl c.b3

variable {dbl} (hdbl : ∀ a b, dbl (a ^^^ b) = dbl a ^^^ dbl b)
include hdbl

theorem invMix_xor (c d : Column (BitVec w)) :
    invMix dbl (c.xor d) = (invMix dbl c).xor (invMix dbl d) := by
  ext1 <;> simp only [invMix, mul9, mul11, mul13, mul14, xor, hdbl] <;> ac_rfl

/-! ## The matrices are inverse to each other -/

omit hdbl in
theorem xor_left_comm (a b c : BitVec w) : a ^^^ (b ^^^ c) = b ^^^ (a ^^^ c) := by
  rw [← BitVec.xor_assoc, BitVec.xor_comm a, BitVec.xor_assoc]

omit hdbl in
theorem xor_xor_cancel_left (a b : BitVec w) : a ^^^ (a ^^^ b) = b := by
  rw [← BitVec.xor_assoc, BitVec.xor_self, BitVec.zero_xor]

theorem mul9_xor (a b : BitVec w) : mul9 dbl (a ^^^ b) = mul9 dbl a ^^^ mul9 dbl b := by
  simp only [mul9, hdbl]; ac_rfl

theorem mul11_xor (a b : BitVec w) : mul11 dbl (a ^^^ b) = mul11 dbl a ^^^ mul11 dbl b := by
  simp only [mul11, hdbl]; ac_rfl

theorem mul13_xor (a b : BitVec w) : mul13 dbl (a ^^^ b) = mul13 dbl a ^^^ mul13 dbl b := by
  simp only [mul13, hdbl]; ac_rfl

theorem mul14_xor (a b : BitVec w) : mul14 dbl (a ^^^ b) = mul14 dbl a ^^^ mul14 dbl b := by
  simp only [mul14, hdbl]; ac_rfl

theorem row_diagonal (x : BitVec w) :
    mul14 dbl (dbl x) ^^^ mul11 dbl x ^^^ mul13 dbl x ^^^ mul9 dbl (dbl x ^^^ x) = x := by
  simp only [mul9, mul11, mul13, mul14, hdbl, BitVec.xor_comm, xor_left_comm,
    xor_xor_cancel_left, BitVec.xor_self, BitVec.xor_zero]

theorem row_second (x : BitVec w) :
    mul14 dbl (dbl x ^^^ x) ^^^ mul11 dbl (dbl x) ^^^ mul13 dbl x ^^^ mul9 dbl x = 0 := by
  simp only [mul9, mul11, mul13, mul14, hdbl, BitVec.xor_comm, xor_left_comm,
    xor_xor_cancel_left, BitVec.xor_self, BitVec.xor_zero]
  rfl

theorem row_third (x : BitVec w) :
    mul14 dbl x ^^^ mul11 dbl (dbl x ^^^ x) ^^^ mul13 dbl (dbl x) ^^^ mul9 dbl x = 0 := by
  simp only [mul9, mul11, mul13, mul14, hdbl, BitVec.xor_comm, xor_left_comm,
    xor_xor_cancel_left, BitVec.xor_self, BitVec.xor_zero]
  rfl

theorem row_fourth (x : BitVec w) :
    mul14 dbl x ^^^ mul11 dbl x ^^^ mul13 dbl (dbl x ^^^ x) ^^^ mul9 dbl (dbl x) = 0 := by
  simp only [mul9, mul11, mul13, mul14, hdbl, BitVec.xor_comm, xor_left_comm,
    xor_xor_cancel_left, BitVec.xor_self, BitVec.xor_zero]
  rfl

/-- One row of the product: the diagonal entry survives, the other three cancel. -/
theorem row_mix (a b c d : BitVec w) :
    mul14 dbl (dbl a ^^^ (dbl b ^^^ b) ^^^ c ^^^ d) ^^^ mul11 dbl (a ^^^ dbl b ^^^ (dbl c ^^^ c) ^^^ d) ^^^
      mul13 dbl (a ^^^ b ^^^ dbl c ^^^ (dbl d ^^^ d)) ^^^ mul9 dbl ((dbl a ^^^ a) ^^^ b ^^^ c ^^^ dbl d) = a := by
  have hsplit :
      mul14 dbl (dbl a ^^^ (dbl b ^^^ b) ^^^ c ^^^ d) ^^^ mul11 dbl (a ^^^ dbl b ^^^ (dbl c ^^^ c) ^^^ d) ^^^
        mul13 dbl (a ^^^ b ^^^ dbl c ^^^ (dbl d ^^^ d)) ^^^ mul9 dbl ((dbl a ^^^ a) ^^^ b ^^^ c ^^^ dbl d) =
      (mul14 dbl (dbl a) ^^^ mul11 dbl a ^^^ mul13 dbl a ^^^ mul9 dbl (dbl a ^^^ a)) ^^^
        (mul14 dbl (dbl b ^^^ b) ^^^ mul11 dbl (dbl b) ^^^ mul13 dbl b ^^^ mul9 dbl b) ^^^
        (mul14 dbl c ^^^ mul11 dbl (dbl c ^^^ c) ^^^ mul13 dbl (dbl c) ^^^ mul9 dbl c) ^^^
        (mul14 dbl d ^^^ mul11 dbl d ^^^ mul13 dbl (dbl d ^^^ d) ^^^ mul9 dbl (dbl d)) := by
    simp only [mul9_xor hdbl, mul11_xor hdbl, mul13_xor hdbl, mul14_xor hdbl]
    ac_rfl
  rw [hsplit, row_diagonal hdbl, row_second hdbl, row_third hdbl, row_fourth hdbl]
  simp

/-- The second matrix inverts the first. -/
theorem invMix_mix (c : Column (BitVec w)) : invMix dbl (mix dbl c) = c := by
  obtain ⟨a, b, c, d⟩ := c
  ext1
  · exact row_mix hdbl a b c d
  · refine Eq.trans ?_ (row_mix hdbl b c d a)
    simp only [mix, invMix]
    ac_rfl
  · refine Eq.trans ?_ (row_mix hdbl c d a b)
    simp only [mix, invMix]
    ac_rfl
  · refine Eq.trans ?_ (row_mix hdbl d a b c)
    simp only [mix, invMix]
    ac_rfl

end Mix

end Column

end Foundations
