import Mathlib.Tactic.Common
import Mathlib.Data.Nat.Init

/-! # Key-alternating ciphers and the equivalent inverse cipher

A cipher that whitens the state with key `0`, applies `R - 1` rounds (substitute, mix, add a key)
and ends with a round without mixing. If mixing is linear, the inverse cipher has the same shape:
the round keys in reverse order, the inner ones passed through the inverse mixing.
-/

namespace Foundations.KeyAlternating
set_option autoImplicit false
set_option maxHeartbeats 250000
set_option maxRecDepth 120000

variable {σ : Type*}

section Cipher
variable (add : σ → σ → σ) (sub mix : σ → σ) (K : ℕ → σ)

def rounds : ℕ → σ → σ
  | 0, s => s
  | n + 1, s => add (mix (sub (rounds n s))) (K (n + 1))

/-- The cipher with `R` rounds, the last one without mixing. -/
def cipher (R : ℕ) (s : σ) : σ := add (sub (rounds add sub mix K (R - 1) (add s (K 0)))) (K R)

theorem rounds_succ (n : ℕ) (s : σ) :
    rounds add sub mix K (n + 1) s = add (mix (sub (rounds add sub mix K n s))) (K (n + 1)) := rfl

end Cipher

theorem rounds_congr {add : σ → σ → σ} {sub mix : σ → σ} {K K' : ℕ → σ} (n : ℕ) (s : σ)
    (h : ∀ r, 0 < r → r ≤ n → K r = K' r) : rounds add sub mix K n s = rounds add sub mix K' n s := by
  induction n with
  | zero => rfl
  | succ n ih =>
    rw [rounds_succ, rounds_succ, ih fun r h0 hr => h r h0 (by omega), h (n + 1) (by omega) (Nat.le_refl _)]

theorem cipher_congr {add : σ → σ → σ} {sub mix : σ → σ} {K K' : ℕ → σ} {R : ℕ} (s : σ)
    (h : ∀ r ≤ R, K r = K' r) : cipher add sub mix K R s = cipher add sub mix K' R s := by
  unfold cipher
  rw [h 0 (Nat.zero_le R), h R (Nat.le_refl R), rounds_congr (R - 1) _ fun r _ hr => h r (by omega)]

/-! ## The equivalent inverse cipher -/

section Inverse
variable {add : σ → σ → σ} {sub isub mix imix : σ → σ} {K K' : ℕ → σ} {R : ℕ}
variable (hadd : ∀ a k, add (add a k) k = a) (hsub : ∀ a, isub (sub a) = a)
variable (hmix : ∀ a, imix (mix a) = a) (hlin : ∀ a b, imix (add a b) = add (imix a) (imix b))
variable (hinner : ∀ r, 0 < r → r < R → K' r = imix (K (R - r)))
include hadd hsub hmix hlin hinner

/-- `n` inverse rounds undo the last `n` of the full rounds; what they return is the substituted
state the cipher had there. -/
theorem rounds_inverse (s : σ) (n : ℕ) (hn : n < R) :
    rounds add isub imix K' n (sub (rounds add sub mix K (R - 1) s)) =
      sub (rounds add sub mix K (R - 1 - n) s) := by
  induction n with
  | zero => rfl
  | succ n ih =>
    have hidx : R - 1 - n = (R - 1 - (n + 1)) + 1 := by omega
    have hkey : R - (n + 1) = (R - 1 - (n + 1)) + 1 := by omega
    rw [rounds_succ, ih (by omega), hsub, hidx, rounds_succ, hinner (n + 1) (by omega) hn, hkey, ← hlin,
      hadd, hmix]

/-- The inverse cipher undoes the cipher. -/
theorem cipher_inverse (hR : 0 < R) (hfirst : K' 0 = K R) (hlast : K' R = K 0) (s : σ) :
    cipher add isub imix K' R (cipher add sub mix K R s) = s := by
  have hfull := rounds_inverse hadd hsub hmix hlin hinner (add s (K 0)) (R - 1) (by omega)
  rw [Nat.sub_self] at hfull
  unfold cipher
  rw [hfirst, hadd, hfull, hsub, hlast]
  exact hadd s (K 0)

end Inverse

end Foundations.KeyAlternating
