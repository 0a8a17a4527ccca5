import StarLib.Foundations.Words

/-! # Letter case of bytes

The case of the ASCII letters; other bytes have none. Two strings without lower-case letters that agree
up to case are equal.
-/

namespace Foundations
set_option autoImplicit false
set_option maxHeartbeats 250000
set_option maxRecDepth 120000

def toLower (b : Byte) : Byte := if 0x41 ≤ b ∧ b ≤ 0x5a then b + 0x20 else b

def toUpper (b : Byte) : Byte := if 0x61 ≤ b ∧ b ≤ 0x7a then b - 0x20 else b

theorem toLower_inj {a b : Byte} (ha : ¬ (0x61 ≤ a ∧ a ≤ 0x7a)) (hb : ¬ (0x61 ≤ b ∧ b ≤ 0x7a))
    (h : toLower a = toLower b) : a = b := by
  unfold toLower at h
  split at h
  · split at h
    · bv_omega
    · bv_omega
  · split at h
    · bv_omega
    · exact h

theorem toLower_eq_zero {b : Byte} : toLower b = 0 ↔ b = 0 := by
  unfold toLower
  split
  · constructor
    · intro h
      bv_omega
    · intro h
      bv_omega
  · rfl

theorem toUpper_not_lower (b : Byte) : ¬ (0x61 ≤ toUpper b ∧ toUpper b ≤ 0x7a) := by
  unfold toUpper
  split <;> bv_omega

theorem toUpper_ne_zero {b : Byte} (hb : b ≠ 0) : toUpper b ≠ 0 := by
  unfold toUpper
  split
  · bv_omega
  · exact hb

theorem toLower_toUpper (b : Byte) : toLower (toUpper b) = toLower b := by
  unfold toUpper
  split
  · unfold toLower
    rw [if_pos (by bv_omega), if_neg (by bv_omega)]
    bv_omega
  · rfl

/-- The two cases of a letter, the upper one first. -/
def CasePair (a b : Byte) : Prop := 0x41 ≤ a ∧ a ≤ 0x5a ∧ b = a + 0x20

theorem toLower_eq_iff {a b : Byte} : toLower a = toLower b ↔ a = b ∨ CasePair a b ∨ CasePair b a := by
  unfold toLower CasePair
  split
  · split
    · constructor
      · intro h
        left
        bv_omega
      · rintro (h | h | h) <;> bv_omega
    · constructor
      · intro h
        right
        left
        bv_omega
      · rintro (h | h | h) <;> bv_omega
  · split
    · constructor
      · intro h
        right
        right
        bv_omega
      · rintro (h | h | h) <;> bv_omega
    · constructor
      · exact Or.inl
      · rintro (h | h | h) <;> bv_omega

end Foundations
