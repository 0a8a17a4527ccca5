import Mathlib.Data.Nat.Digits.Lemmas

/-! # Numerals

The digits of a number in a base, the most significant first, and the number of a list of digits.
-/

namespace Foundations
set_option autoImplicit false
set_option maxHeartbeats 250000
set_option maxRecDepth 120000

def numeral (b n : ℕ) : List ℕ := if n = 0 then [0] else (Nat.digits b n).reverse

def numeralValue (b : ℕ) (ds : List ℕ) : ℕ := ds.foldl (fun v d => b * v + d) 0

theorem numeralValue_numeral {b : ℕ} (n : ℕ) : numeralValue b (numeral b n) = n := by
  unfold numeralValue numeral
  split
  · next hn => simp [hn]
  · have hfold := Nat.ofDigits_eq_foldr b (Nat.digits b n)
    have hstep : (fun d v : ℕ => b * v + d) = fun d v => (d : ℕ) + b * v := by
      funext d v
      exact Nat.add_comm _ _
    rw [List.foldl_reverse, hstep]
    exact hfold.symm.trans (Nat.ofDigits_digits b n)

theorem numeral_lt {b n d : ℕ} (hb : 1 < b) (hd : d ∈ numeral b n) : d < b := by
  unfold numeral at hd
  split at hd
  · rw [List.mem_singleton.1 hd]
    omega
  · exact Nat.digits_lt_base hb (List.mem_reverse.1 hd)

theorem numeral_ne_nil (b n : ℕ) : numeral b n ≠ [] := by
  unfold numeral
  split
  · exact List.cons_ne_nil _ _
  · next hn =>
    rw [Ne, List.reverse_eq_nil_iff, Nat.digits_eq_nil_iff_eq_zero]
    exact hn

/-- The least significant digit first. -/
theorem numeral_reverse {b : ℕ} (hb : 1 < b) (n : ℕ) : (numeral b n).reverse = (n % b) :: Nat.digits b (n / b) := by
  unfold numeral
  split
  · next hn => simp [hn]
  · next hn => rw [List.reverse_reverse, Nat.digits_def' hb (Nat.pos_of_ne_zero hn)]

theorem numeral_length_le {b n k : ℕ} (hb : 1 < b) (hk : 0 < k) (hn : n < b ^ k) : (numeral b n).length ≤ k := by
  unfold numeral
  split
  · exact hk
  · rw [List.length_reverse]
    exact (Nat.digits_length_le_iff hb n).2 hn

end Foundations
