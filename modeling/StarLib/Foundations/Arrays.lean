import StarLib.Foundations.Loop

/-! # Arrays with unknown contents

An array that a program has not initialised is a function with unknown values. Two runs of the program
are compared by `AgreeBelow n`: the first `n` cells are equal. A loop that writes every cell from what
agrees already makes the arrays agree further; what was in them before does not matter.
-/

namespace Foundations
set_option autoImplicit false
set_option maxHeartbeats 250000
set_option maxRecDepth 120000

variable {α : Type*}

def AgreeBelow (n : ℕ) (a b : ℕ → α) : Prop := ∀ i < n, a i = b i

namespace AgreeBelow
variable {n m : ℕ} {a b : ℕ → α}

theorem refl (n : ℕ) (a : ℕ → α) : AgreeBelow n a a := fun _ _ => rfl

theorem mono (h : AgreeBelow n a b) (hm : m ≤ n) : AgreeBelow m a b := fun i hi => h i (by omega)

theorem zero (a b : ℕ → α) : AgreeBelow 0 a b := fun i hi => absurd hi (Nat.not_lt_zero i)

/-- Writing one cell. -/
theorem update (h : AgreeBelow n a b) (i : ℕ) (v : α) :
    AgreeBelow n (Function.update a i v) (Function.update b i v) := by
  intro j hj
  by_cases hji : j = i
  · rw [hji, Function.update_self, Function.update_self]
  · rw [Function.update_of_ne hji, Function.update_of_ne hji, h j hj]

/-- Writing the first cell not known to agree. -/
theorem push (h : AgreeBelow n a b) (v : α) :
    AgreeBelow (n + 1) (Function.update a n v) (Function.update b n v) := by
  intro j hj
  by_cases hjn : j = n
  · rw [hjn, Function.update_self, Function.update_self]
  · rw [Function.update_of_ne hjn, Function.update_of_ne hjn, h j (by omega)]

/-- A loop that computes every cell from the cells before it. -/
theorem forRange_push {lo hi : ℕ} {f g : ℕ → (ℕ → α) → α} (h : AgreeBelow lo a b) (hle : lo ≤ hi)
    (hfg : ∀ i a b, lo ≤ i → i < hi → AgreeBelow i a b → f i a = g i b) :
    AgreeBelow hi (forRange lo hi (fun i a => Function.update a i (f i a)) a)
      (forRange lo hi (fun i b => Function.update b i (g i b)) b) := by
  refine forRange_rel (fun i a b => AgreeBelow i a b) hle h ?_
  intro i a b h1 h2 hab
  rw [hfg i a b h1 h2 hab]
  exact hab.push _

theorem fillAt (h : AgreeBelow n a b) (off m : ℕ) {f g : ℕ → α} (hfg : ∀ i < m, f i = g i) :
    AgreeBelow n (fillAt off m f a) (fillAt off m g b) := by
  intro i hi
  rw [fillAt_apply, fillAt_apply, h i hi]
  by_cases hin : off ≤ i ∧ i < off + m
  · rw [if_pos hin, if_pos hin, hfg (i - off) (by omega)]
  · rw [if_neg hin, if_neg hin]

theorem fillAt_next (h : AgreeBelow n a b) (m : ℕ) {f g : ℕ → α} (hfg : ∀ i < m, f i = g i) :
    AgreeBelow (n + m) (Foundations.fillAt n m f a) (Foundations.fillAt n m g b) := by
  intro i hi
  rw [fillAt_apply, fillAt_apply]
  by_cases hin : n ≤ i ∧ i < n + m
  · rw [if_pos hin, if_pos hin, hfg (i - n) (by omega)]
  · rw [if_neg hin, if_neg hin, h i (by omega)]

theorem fill {f g : ℕ → α} (hfg : ∀ i < n, f i = g i) (a b : ℕ → α) :
    AgreeBelow n (fill n f a) (fill n g b) := by
  intro i hi
  rw [fill_apply_of_lt hi, fill_apply_of_lt hi, hfg i hi]

end AgreeBelow

/-! ## Loops that write two cells a turn -/

/-- `for (i = 0; i < n; i++) { a[2*i] = f(i); a[2*i+1] = g(i); }`. -/
def fillPairs (n : ℕ) (f g : ℕ → α) (a : ℕ → α) : ℕ → α :=
  forRange 0 n (fun i a => Function.update (Function.update a (2 * i) (f i)) (2 * i + 1) (g i)) a

theorem fillPairs_apply {n p : ℕ} (f g : ℕ → α) (a : ℕ → α) (hp : p < 2 * n) :
    fillPairs n f g a p = if p % 2 = 0 then f (p / 2) else g (p / 2) := by
  refine forRange_inv (P := fun i (b : ℕ → α) =>
    ∀ p < 2 * i, b p = if p % 2 = 0 then f (p / 2) else g (p / 2)) (Nat.zero_le n) ?_ ?_ p hp
  · intro p hp
    omega
  · intro i b _ _ ih p hp
    by_cases hodd : p = 2 * i + 1
    · have hmod : ¬ p % 2 = 0 := by omega
      have hdiv : p / 2 = i := by omega
      rw [if_neg hmod, hdiv, hodd, Function.update_self]
    · rw [Function.update_of_ne hodd]
      by_cases heven : p = 2 * i
      · have hmod : p % 2 = 0 := by omega
        have hdiv : p / 2 = i := by omega
        rw [if_pos hmod, hdiv, heven, Function.update_self]
      · rw [Function.update_of_ne heven, ih p (by omega)]

end Foundations
