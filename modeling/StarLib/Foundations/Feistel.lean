import StarLib.Foundations.Loop

/-! # Feistel networks

All that a network needs of its rounds: a round applied once more between two exchanges of the halves is
the exchange (`hround`). A run of rounds is then undone by the same rounds in reverse order, and a
cipher that shuffles the block before and after is undone by itself with the keys reversed.
-/

namespace Foundations.Feistel
set_option autoImplicit false
set_option maxHeartbeats 250000
set_option maxRecDepth 120000

variable {σ κ : Type*} {swap : σ → σ} {round : κ → σ → σ}

section Rounds
variable (hround : ∀ k x, round k (swap (round k x)) = swap x)

include hround in
theorem rounds_reverse (n : ℕ) (K : ℕ → κ) (x : σ) :
    forRange 0 n (fun i x => round (K (n - 1 - i)) x) (swap (forRange 0 n (fun i x => round (K i) x) x)) =
      swap x :=
  forRange_back (g := fun i x => round (K i) x) (c := fun _ => swap) (fun i _ x => hround (K i) x) x

end Rounds

/-- `n` rounds between two shuffles, with the halves exchanged at the end. -/
def cipher (swap : σ → σ) (round : κ → σ → σ) (shuffle unshuffle : σ → σ) (n : ℕ) (K : ℕ → κ) (x : σ) : σ :=
  unshuffle (swap (forRange 0 n (fun i x => round (K i) x) (shuffle x)))

theorem cipher_congr {shuffle unshuffle : σ → σ} {n : ℕ} {K K' : ℕ → κ} (h : ∀ i < n, K i = K' i) (x : σ) :
    cipher swap round shuffle unshuffle n K x = cipher swap round shuffle unshuffle n K' x := by
  unfold cipher
  rw [forRange_congr _ fun i s _ hi => by rw [h i hi]]

/-- Decrypting takes the same cipher with the keys in reverse order. -/
theorem cipher_reverse {shuffle unshuffle : σ → σ} (hround : ∀ k x, round k (swap (round k x)) = swap x)
    (hswap : ∀ x, swap (swap x) = x) (hleft : ∀ x, unshuffle (shuffle x) = x)
    (hright : ∀ x, shuffle (unshuffle x) = x) (n : ℕ) (K : ℕ → κ) (x : σ) :
    cipher swap round shuffle unshuffle n (fun i => K (n - 1 - i)) (cipher swap round shuffle unshuffle n K x) = x := by
  unfold cipher
  rw [hright, rounds_reverse hround, hswap, hleft]

end Foundations.Feistel
