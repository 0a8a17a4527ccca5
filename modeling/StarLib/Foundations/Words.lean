import Mathlib.Tactic.Common
import Mathlib.Tactic.IntervalCases
import Mathlib.Data.List.Basic
import Mathlib.Data.List.GetD

/-! # Bytes and 32-bit words

A 32-bit word seen as four bytes. `ofBytes b0 b1 b2 b3` has `b0` as its least significant byte;
`byteAt w k` reads byte `k` back. Shifts, masks and rotations by whole bytes are moved onto the
four bytes here, so that later proofs never reason about single bits of a word.
-/

namespace Foundations
set_option autoImplicit false
set_option maxHeartbeats 250000
set_option maxRecDepth 120000

abbrev Byte := BitVec 8

abbrev DWord := BitVec 32

/-- Byte `k` of a word, byte `0` being the least significant one. -/
def byteAt (w : DWord) (k : ℕ) : Byte := w.extractLsb' (8 * k) 8

/-- The word with the given bytes, least significant first. -/
def ofBytes (b0 b1 b2 b3 : Byte) : DWord := b3 ++ b2 ++ b1 ++ b0

theorem getLsbD_byteAt (w : DWord) (k i : ℕ) :
    (byteAt w k).getLsbD i = (decide (i < 8) && w.getLsbD (8 * k + i)) := by
  simp [byteAt]

theorem getLsbD_ofBytes (b0 b1 b2 b3 : Byte) (i : ℕ) :
    (ofBytes b0 b1 b2 b3).getLsbD i =
      if i < 8 then b0.getLsbD i else if i < 16 then b1.getLsbD (i - 8)
      else if i < 24 then b2.getLsbD (i - 16) else b3.getLsbD (i - 24) := by
  simp only [ofBytes, BitVec.getLsbD_append]
  grind

/-! ## Reading bytes -/

@[simp] theorem byteAt_ofBytes_zero (b0 b1 b2 b3 : Byte) : byteAt (ofBytes b0 b1 b2 b3) 0 = b0 := by
  apply BitVec.eq_of_getLsbD_eq
  intro i hi
  simp only [getLsbD_byteAt, getLsbD_ofBytes]
  grind

@[simp] theorem byteAt_ofBytes_one (b0 b1 b2 b3 : Byte) : byteAt (ofBytes b0 b1 b2 b3) 1 = b1 := by
  apply BitVec.eq_of_getLsbD_eq
  intro i hi
  simp only [getLsbD_byteAt, getLsbD_ofBytes]
  grind

@[simp] theorem byteAt_ofBytes_two (b0 b1 b2 b3 : Byte) : byteAt (ofBytes b0 b1 b2 b3) 2 = b2 := by
  apply BitVec.eq_of_getLsbD_eq
  intro i hi
  simp only [getLsbD_byteAt, getLsbD_ofBytes]
  grind

@[simp] theorem byteAt_ofBytes_three (b0 b1 b2 b3 : Byte) : byteAt (ofBytes b0 b1 b2 b3) 3 = b3 := by
  apply BitVec.eq_of_getLsbD_eq
  intro i hi
  simp only [getLsbD_byteAt, getLsbD_ofBytes]
  grind

@[simp] theorem byteAt_xor (a b : DWord) (k : ℕ) : byteAt (a ^^^ b) k = byteAt a k ^^^ byteAt b k := by
  apply BitVec.eq_of_getLsbD_eq
  intro i hi
  simp only [getLsbD_byteAt, BitVec.getLsbD_xor, hi, decide_true, Bool.true_and]

theorem ofBytes_byteAt (w : DWord) : ofBytes (byteAt w 0) (byteAt w 1) (byteAt w 2) (byteAt w 3) = w := by
  apply BitVec.eq_of_getLsbD_eq
  intro i hi
  simp only [getLsbD_byteAt, getLsbD_ofBytes]
  grind

theorem eq_of_byteAt {a b : DWord} (h0 : byteAt a 0 = byteAt b 0) (h1 : byteAt a 1 = byteAt b 1)
    (h2 : byteAt a 2 = byteAt b 2) (h3 : byteAt a 3 = byteAt b 3) : a = b := by
  rw [← ofBytes_byteAt a, ← ofBytes_byteAt b, h0, h1, h2, h3]

theorem ofBytes_xor (a0 a1 a2 a3 b0 b1 b2 b3 : Byte) :
    ofBytes a0 a1 a2 a3 ^^^ ofBytes b0 b1 b2 b3 =
      ofBytes (a0 ^^^ b0) (a1 ^^^ b1) (a2 ^^^ b2) (a3 ^^^ b3) := by
  apply eq_of_byteAt <;> simp

/-! ## Words of a sequence -/

/-- Word `i` of a sequence of bytes, the lowest byte first. -/
def wordAt (bytes : ℕ → Byte) (i : ℕ) : DWord :=
  ofBytes (bytes (4 * i)) (bytes (4 * i + 1)) (bytes (4 * i + 2)) (bytes (4 * i + 3))

theorem byteAt_wordAt (bytes : ℕ → Byte) (i : ℕ) {k : ℕ} (hk : k < 4) : byteAt (wordAt bytes i) k = bytes (4 * i + k) := by
  interval_cases k <;> simp [wordAt]

theorem wordAt_inj {a b : ℕ → Byte} {i : ℕ} (h : wordAt a i = wordAt b i) {k : ℕ} (hk : k < 4) :
    a (4 * i + k) = b (4 * i + k) := by
  rw [← byteAt_wordAt a i hk, h, byteAt_wordAt b i hk]

theorem eq_wordAt {w : DWord} {bytes : ℕ → Byte} {i : ℕ} (h : ∀ k < 4, byteAt w k = bytes (4 * i + k)) :
    w = wordAt bytes i := by
  refine eq_of_byteAt ?_ ?_ ?_ ?_
  · rw [byteAt_wordAt bytes i (by decide), h 0 (by decide)]
  · rw [byteAt_wordAt bytes i (by decide), h 1 (by decide)]
  · rw [byteAt_wordAt bytes i (by decide), h 2 (by decide)]
  · rw [byteAt_wordAt bytes i (by decide), h 3 (by decide)]

/-! ## Shifts and masks -/

theorem setWidth_shiftRight (w : DWord) (k : ℕ) : (w >>> (8 * k)).setWidth 8 = byteAt w k := by
  apply BitVec.eq_of_getLsbD_eq
  intro i hi
  simp [byteAt, hi]

theorem setWidth_zero_byte (w : DWord) : w.setWidth 8 = byteAt w 0 := by
  simpa using setWidth_shiftRight w 0

theorem setWidth_one_byte (w : DWord) : (w >>> 8).setWidth 8 = byteAt w 1 := setWidth_shiftRight w 1

theorem setWidth_two_byte (w : DWord) : (w >>> 16).setWidth 8 = byteAt w 2 := setWidth_shiftRight w 2

theorem setWidth_three_byte (w : DWord) : (w >>> 24).setWidth 8 = byteAt w 3 := setWidth_shiftRight w 3

/-- Packing by shifts and `|` is `ofBytes`. -/
theorem pack_or (b0 b1 b2 b3 : Byte) :
    (b3.setWidth 32 <<< 24) ||| (b2.setWidth 32 <<< 16) ||| (b1.setWidth 32 <<< 8) ||| b0.setWidth 32 =
      ofBytes b0 b1 b2 b3 := by
  apply BitVec.eq_of_getLsbD_eq
  intro i hi
  simp only [BitVec.getLsbD_or, BitVec.getLsbD_shiftLeft, BitVec.getLsbD_setWidth, getLsbD_ofBytes, hi]
  have h0 : 8 ≤ i → b0.getLsbD i = false := BitVec.getLsbD_of_ge b0 i
  have h1 : 8 ≤ i - 8 → b1.getLsbD (i - 8) = false := BitVec.getLsbD_of_ge b1 (i - 8)
  have h2 : 8 ≤ i - 16 → b2.getLsbD (i - 16) = false := BitVec.getLsbD_of_ge b2 (i - 16)
  grind

theorem setWidth_shiftLeft_three (b : Byte) : b.setWidth 32 <<< 24 = ofBytes 0 0 0 b := by
  simpa using pack_or 0 0 0 b

theorem setWidth_shiftLeft_two (b : Byte) : b.setWidth 32 <<< 16 = ofBytes 0 0 b 0 := by
  simpa using pack_or 0 0 b 0

theorem setWidth_shiftLeft_one (b : Byte) : b.setWidth 32 <<< 8 = ofBytes 0 b 0 0 := by
  simpa using pack_or 0 b 0 0

theorem setWidth_shiftLeft_zero (b : Byte) : b.setWidth 32 = ofBytes b 0 0 0 := by
  simpa using pack_or b 0 0 0

/-- A byte shifted in at the low end. -/
theorem shiftLeft_add_byte (w : DWord) (b : Byte) :
    (w <<< 8) + b.setWidth 32 = ofBytes b (byteAt w 0) (byteAt w 1) (byteAt w 2) := by
  have happart : (w <<< 8) &&& b.setWidth 32 = 0#32 := by
    apply BitVec.eq_of_getLsbD_eq
    intro i hi
    have hout : 8 ≤ i → b.getLsbD i = false := BitVec.getLsbD_of_ge b i
    simp only [BitVec.getLsbD_and, BitVec.getLsbD_shiftLeft, BitVec.getLsbD_setWidth, BitVec.getLsbD_zero]
    grind
  rw [BitVec.add_eq_or_of_and_eq_zero _ _ happart]
  apply BitVec.eq_of_getLsbD_eq
  intro i hi
  have hout : 8 ≤ i → b.getLsbD i = false := BitVec.getLsbD_of_ge b i
  simp only [BitVec.getLsbD_or, BitVec.getLsbD_shiftLeft, BitVec.getLsbD_setWidth, getLsbD_ofBytes, getLsbD_byteAt, hi]
  grind

theorem byteAt_shiftLeft_add (w : DWord) (b : Byte) {k : ℕ} (hk : k < 4) :
    byteAt ((w <<< 8) + b.setWidth 32) k = if k = 0 then b else byteAt w (k - 1) := by
  rw [shiftLeft_add_byte]
  interval_cases k <;> simp

/-! ## Rotations -/

/-- Rotation to the left by `n` bits, as C programs write it. -/
def rotl (w : DWord) (n : ℕ) : DWord := (w <<< n) ||| (w >>> (32 - n))

theorem rotl_back (x : DWord) {n : ℕ} (hn : n < 32) : (rotl x n >>> n) ||| (rotl x n <<< (32 - n)) = x := by
  apply BitVec.eq_of_getLsbD_eq
  intro i hi
  unfold rotl
  rw [BitVec.getLsbD_or, BitVec.getLsbD_ushiftRight, BitVec.getLsbD_shiftLeft, BitVec.getLsbD_or, BitVec.getLsbD_or,
    BitVec.getLsbD_shiftLeft, BitVec.getLsbD_shiftLeft, BitVec.getLsbD_ushiftRight, BitVec.getLsbD_ushiftRight]
  have hback : n + i - n = i := by omega
  by_cases hlow : n + i < 32
  · have hout : x.getLsbD (32 - n + (n + i)) = false := BitVec.getLsbD_of_ge _ _ (by omega)
    have hfirst : ¬ n + i < n := by omega
    have hsecond : i < 32 - n := by omega
    simp [hlow, hout, hback, hsecond]
  · have hsecond : ¬ i < 32 - n := by omega
    have hplace : 32 - n + (i - (32 - n)) = i := by omega
    have hunder : i - (32 - n) < n := by omega
    have hout : x.getLsbD (32 - n + (n + i)) = false := BitVec.getLsbD_of_ge _ _ (by omega)
    simp [hlow, hout, hsecond, hplace, hunder, hi]

/-- A rotation and the rest of the full turn. -/
theorem rotl_rotl (x : DWord) {i j : ℕ} (hi : i < 32) (hij : i + j = 32) : rotl (rotl x i) j = x := by
  have hj : 32 - i = j := by omega
  have hi' : 32 - j = i := by omega
  have hback := rotl_back x hi
  rwa [hj, BitVec.or_comm, ← hi', ← rotl, hi'] at hback

theorem rotl_toNat (x : DWord) {i j : ℕ} (hij : i + j = 32) :
    (rotl x i).toNat = x.toNat % 2 ^ j * 2 ^ i + x.toNat / 2 ^ j := by
  have hj : 32 - i = j := by omega
  have hpow : 2 ^ 32 = 2 ^ j * 2 ^ i := by rw [← Nat.pow_add, Nat.add_comm, hij]
  have hhigh : x.toNat <<< i % 2 ^ 32 = x.toNat % 2 ^ j * 2 ^ i := by
    rw [Nat.shiftLeft_eq, hpow, Nat.mul_mod_mul_right]
  have hlow : x.toNat / 2 ^ j < 2 ^ i := by
    rw [Nat.div_lt_iff_lt_mul (Nat.two_pow_pos j), Nat.mul_comm, ← hpow]
    exact x.isLt
  rw [rotl, hj, BitVec.toNat_or, BitVec.toNat_shiftLeft, BitVec.toNat_ushiftRight, hhigh, Nat.shiftRight_eq_div_pow,
    ← Nat.shiftLeft_eq, ← Nat.shiftLeft_add_eq_or_of_lt hlow]

/-! Rotations by whole bytes. -/

theorem rotl_eight_ofBytes (b0 b1 b2 b3 : Byte) : rotl (ofBytes b0 b1 b2 b3) 8 = ofBytes b3 b0 b1 b2 := by
  apply BitVec.eq_of_getLsbD_eq
  intro i hi
  simp only [rotl, BitVec.getLsbD_or, BitVec.getLsbD_shiftLeft, BitVec.getLsbD_ushiftRight,
    getLsbD_ofBytes, hi]
  grind

theorem rotl_sixteen_ofBytes (b0 b1 b2 b3 : Byte) :
    rotl (ofBytes b0 b1 b2 b3) 16 = ofBytes b2 b3 b0 b1 := by
  apply BitVec.eq_of_getLsbD_eq
  intro i hi
  simp only [rotl, BitVec.getLsbD_or, BitVec.getLsbD_shiftLeft, BitVec.getLsbD_ushiftRight,
    getLsbD_ofBytes, hi]
  grind

theorem rotl_twentyFour_ofBytes (b0 b1 b2 b3 : Byte) :
    rotl (ofBytes b0 b1 b2 b3) 24 = ofBytes b1 b2 b3 b0 := by
  apply BitVec.eq_of_getLsbD_eq
  intro i hi
  simp only [rotl, BitVec.getLsbD_or, BitVec.getLsbD_shiftLeft, BitVec.getLsbD_ushiftRight,
    getLsbD_ofBytes, hi]
  grind

end Foundations
