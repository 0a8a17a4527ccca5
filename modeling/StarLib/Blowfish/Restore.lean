import StarLib.Foundations.Arrays
import StarLib.Blowfish.Cipher

/-! # Blowfish undone

Whatever is in the tables, `Decrypt` undoes `Encrypt`. What `InitKey` leaves in them depends on the key
alone: it writes every entry in use before an encryption reads it.
-/

namespace StarLib.Blowfish
open Foundations
set_option autoImplicit false
set_option maxHeartbeats 250000
set_option maxRecDepth 120000

/-! ## Blocks -/

/-- A block before turn `i`, as the turns of `Decrypt` come to it: the halves exchanged, under two entries. -/
def dressed (t : Boxes) (i : ℕ) (x : DWord × DWord) : DWord × DWord :=
  (x.2 ^^^ t.key_pbox (i + 1), x.1 ^^^ t.key_pbox i)

theorem turn_back (t : Boxes) (i : ℕ) (x : DWord × DWord) :
    turn t (i + 2) (dressed t (i + 1) (turn t i x)) = dressed t i x := by
  unfold turn dressed
  simp only [BitVec.xor_assoc, BitVec.xor_self, BitVec.xor_zero]
  rw [← BitVec.xor_assoc, BitVec.xor_self, BitVec.zero_xor]

theorem decrypt_encrypt (t : Boxes) (x : DWord × DWord) : decrypt t (encrypt t x) = x := by
  have hturns : forRange 0 N (fun k => turn t (N + 1 - k)) (dressed t N (forRange 0 N (turn t) x)) = dressed t 0 x := by
    refine Eq.trans (forRange_congr _ fun k s _ hk => ?_)
      (forRange_back (g := fun i => turn t (i + 2)) (fun i _ => turn_back t i) x)
    have hindex : N + 1 - k = N - 1 - k + 2 := by omega
    rw [hindex]
  unfold decrypt
  show (_ ^^^ _, _ ^^^ _) = x
  rw [show encrypt t x = dressed t N (forRange 0 N (turn t) x) from rfl, hturns]
  unfold dressed
  simp only [BitVec.xor_assoc, BitVec.xor_self, BitVec.xor_zero]

/-! ## The tables -/

/-- The same entries, as far as there are any. -/
structure SameBoxes (t t' : Boxes) : Prop where
  pbox : AgreeBelow (N + 2) t.key_pbox t'.key_pbox
  sbox : ∀ i < 4, AgreeBelow 256 (t.key_sbox i) (t'.key_sbox i)

theorem and_255_lt (x : DWord) : (x &&& 0xFF).toNat < 256 := by
  rw [BitVec.toNat_and]
  exact Nat.lt_of_le_of_lt Nat.and_le_right (by decide)

section Same
variable {t t' : Boxes} (h : SameBoxes t t')

include h

theorem F_congr (x : DWord) : F t x = F t' x := by
  unfold F
  rw [h.sbox 0 (by decide) _ (and_255_lt _), h.sbox 1 (by decide) _ (and_255_lt _), h.sbox 2 (by decide) _ (and_255_lt _),
    h.sbox 3 (by decide) _ (and_255_lt _)]

theorem turn_congr {i : ℕ} (hi : i < N + 2) (x : DWord × DWord) : turn t i x = turn t' i x := by
  unfold turn
  simp only [h.pbox i hi, F_congr h]

theorem encrypt_congr (x : DWord × DWord) : encrypt t x = encrypt t' x := by
  unfold encrypt
  rw [forRange_congr x fun i s _ hi => turn_congr h (by omega) s, h.pbox N (by omega), h.pbox (N + 1) (by omega)]

theorem decrypt_congr (x : DWord × DWord) : decrypt t x = decrypt t' x := by
  unfold decrypt
  rw [forRange_congr x fun k s _ hk => turn_congr h (by omega) s, h.pbox 0 (by omega), h.pbox 1 (by omega)]

end Same

/-- Two runs of the chain of encryptions of `InitKey`. -/
structure SameChain (s s' : Chain) : Prop where
  boxes : SameBoxes s.boxes s'.boxes
  x : s.x = s'.x

theorem SameChain.chainPbox {s s' : Chain} (h : SameChain s s') (k : ℕ) : SameChain (chainPbox k s) (chainPbox k s') := by
  have hx : encrypt s.boxes s.x = encrypt s'.boxes s'.x := by rw [h.x, encrypt_congr h.boxes]
  unfold Blowfish.chainPbox
  rw [hx]
  exact ⟨⟨(h.boxes.pbox.update _ _).update _ _, h.boxes.sbox⟩, rfl⟩

theorem SameChain.chainSbox {s s' : Chain} (h : SameChain s s') {i : ℕ} (hi : i < 4) (k : ℕ) :
    SameChain (chainSbox i k s) (chainSbox i k s') := by
  have hx : encrypt s.boxes s.x = encrypt s'.boxes s'.x := by rw [h.x, encrypt_congr h.boxes]
  unfold Blowfish.chainSbox
  rw [hx]
  refine ⟨⟨h.boxes.pbox, fun j hj => ?_⟩, rfl⟩
  by_cases hji : j = i
  · subst hji
    simp only [Function.update_self]
    exact ((h.boxes.sbox j hi).update _ _).update _ _
  · simp only [Function.update_of_ne hji]
    exact h.boxes.sbox j hj

theorem sboxTurn_agree (k n : ℕ) {s s' : ℕ → ℕ → DWord} (h : AgreeBelow n (s k) (s' k))
    (hbefore : ∀ i < k, AgreeBelow 256 (s i) (s' i)) :
    AgreeBelow (n + 1) (sboxTurn k n s k) (sboxTurn k n s' k) ∧ ∀ i < k, AgreeBelow 256 (sboxTurn k n s i) (sboxTurn k n s' i) := by
  unfold sboxTurn
  refine ⟨?_, fun i hi => ?_⟩
  · rw [Function.update_self, Function.update_self]
    exact h.push _
  · rw [Function.update_of_ne (by omega), Function.update_of_ne (by omega)]
    exact hbefore i hi

theorem fillSbox_agree (s s' : ℕ → ℕ → DWord) : ∀ i < 4, AgreeBelow 256 (fillSbox s i) (fillSbox s' i) := by
  refine forRange_rel (fun k (s s' : ℕ → ℕ → DWord) => ∀ i < k, AgreeBelow 256 (s i) (s' i)) (Nat.zero_le 4) ?_ ?_
  · exact fun i hi => absurd hi (Nat.not_lt_zero i)
  · intro k s s' _ _ h i hi
    have hrow := forRange_rel (f := sboxTurn k) (g := sboxTurn k)
      (fun n s s' => AgreeBelow n (s k) (s' k) ∧ ∀ i < k, AgreeBelow 256 (s i) (s' i))
      (Nat.zero_le 256) ⟨AgreeBelow.zero (s k) (s' k), h⟩ fun n _ _ _ _ hs => sboxTurn_agree k n hs.1 hs.2
    by_cases hik : i = k
    · rw [hik]
      exact hrow.1
    · exact hrow.2 i (by omega)

theorem pboxTurn_agree (key : ℕ → Byte) (keyLen : ℤ) (i : ℕ) {s s' : ℕ × (ℕ → DWord)} (hindex : s.1 = s'.1)
    (hp : AgreeBelow i s.2 s'.2) :
    (pboxTurn key keyLen i s).1 = (pboxTurn key keyLen i s').1 ∧
      AgreeBelow (i + 1) (pboxTurn key keyLen i s).2 (pboxTurn key keyLen i s').2 := by
  unfold pboxTurn
  rw [hindex]
  exact ⟨rfl, hp.push _⟩

theorem fillPbox_agree (key : ℕ → Byte) (keyLen : ℤ) (p p' : ℕ → DWord) :
    AgreeBelow (N + 2) (fillPbox key keyLen p) (fillPbox key keyLen p') := by
  have hrun := forRange_rel (f := pboxTurn key keyLen) (g := pboxTurn key keyLen)
    (s := (0, p)) (t := (0, p')) (fun n s s' => s.1 = s'.1 ∧ AgreeBelow n s.2 s'.2) (Nat.zero_le (N + 2))
    ⟨rfl, AgreeBelow.zero p p'⟩ fun i _ _ _ _ hs => pboxTurn_agree key keyLen i hs.1 hs.2
  exact hrun.2

theorem expandKey_agree (key : ℕ → Byte) (keyLen : ℤ) (t t' : Boxes) :
    SameBoxes (expandKey key keyLen t) (expandKey key keyLen t') := by
  have hfilled : SameChain ⟨⟨fillPbox key keyLen t.key_pbox, fillSbox t.key_sbox⟩, (0, 0)⟩
      ⟨⟨fillPbox key keyLen t'.key_pbox, fillSbox t'.key_sbox⟩, (0, 0)⟩ :=
    ⟨⟨fillPbox_agree key keyLen _ _, fillSbox_agree _ _⟩, rfl⟩
  unfold expandKey
  refine (forRange_rel (fun _ => SameChain) (Nat.zero_le 4) ?_ ?_).boxes
  · exact forRange_rel (fun _ => SameChain) (Nat.zero_le _) hfilled fun k _ _ _ _ h => h.chainPbox k
  · intro i s s' _ hi h
    exact forRange_rel (fun _ => SameChain) (Nat.zero_le 128) h fun k _ _ _ _ h => h.chainSbox hi k

theorem initKey_accepts (key : ℕ → Byte) {keyLen : ℤ} (hmin : MINKEYBYTES ≤ keyLen) (hmax : keyLen ≤ MAXKEYBYTES)
    (t : Boxes) : initKey (some key) keyLen t = (.BLOWFISH_SUCCESS, expandKey key keyLen t) := by
  unfold initKey
  show (if keyLen < MINKEYBYTES then _ else if MAXKEYBYTES < keyLen then _ else _) = _
  rw [if_neg (by omega), if_neg (by omega)]

/-! ## Buffers -/

def block : Layout (DWord × DWord) := Layout.word.pair Layout.word

theorem inPlace_eq (f : DWord × DWord → DWord × DWord) (p : ℕ) (mem : Ram) :
    inPlace f p (p + 4) mem = block.store p (f (block.load mem p)) mem := by
  unfold inPlace block
  rw [Layout.pair_store, Layout.pair_load]
  rfl

theorem blowFishEncrypt_eq (t : Boxes) {pData : ℕ} (hp : pData ≠ 0) (n : ℤ) (IsEncrypt : Bool) (mem : Ram) :
    blowFishEncrypt t pData n IsEncrypt mem =
      block.mapBlocks (if IsEncrypt then encrypt t else decrypt t) pData pData (n.tdiv 8).toNat mem := by
  have hsize : block.size = 8 := rfl
  unfold blowFishEncrypt Layout.mapBlocks
  rw [if_neg hp, hsize]
  refine forRange_congr mem fun i mem _ _ => ?_
  have hleft : 4 * (2 * i) = 8 * i := by omega
  have hright : 4 * (2 * i + 1) = 8 * i + 4 := by omega
  rw [hleft, hright, ← Nat.add_assoc]
  exact inPlace_eq _ _ mem

theorem blowFishEncrypt_apart (t : Boxes) (pData : ℕ) (n : ℤ) (IsEncrypt : Bool) (mem : Ram) {i : ℕ}
    (hi : 8 * (n / 8) ≤ i) : blowFishEncrypt t pData n IsEncrypt mem (pData + i) = mem (pData + i) := by
  by_cases hp : pData = 0
  · exact congrFun (if_pos hp) _
  · have hsize : block.size = 8 := rfl
    have hblocks : 8 * (n.tdiv 8).toNat ≤ i := by
      rcases Int.le_total 0 n with hn | hn
      · rw [Int.tdiv_eq_ediv_of_nonneg hn]
        omega
      · have hback : n.tdiv 8 = -((-n).tdiv 8) := by rw [Int.neg_tdiv, Int.neg_neg]
        have hnone : 0 ≤ (-n).tdiv 8 := Int.tdiv_nonneg (by omega) (by decide)
        omega
    rw [blowFishEncrypt_eq t hp]
    refine block.mapBlocks_apart _ _ _ _ _ ?_
    rw [hsize]
    omega

theorem blowFishEncrypt_undo {t t' : Boxes} (h : SameBoxes t t') (pData : ℕ) (n : ℤ) (mem : Ram) :
    blowFishEncrypt t' pData n false (blowFishEncrypt t pData n true mem) = mem := by
  by_cases hp : pData = 0
  · exact (if_pos hp).trans (if_pos hp)
  · have hundo : ∀ x, decrypt t' (encrypt t x) = x := by
      intro x
      rw [← decrypt_congr h, decrypt_encrypt]
    rw [blowFishEncrypt_eq t' hp, blowFishEncrypt_eq t hp]
    funext p
    by_cases hin : pData ≤ p ∧ p < pData + block.size * (n.tdiv 8).toNat
    · obtain ⟨i, rfl⟩ := Nat.exists_eq_add_of_le hin.1
      exact block.mapBlocks_restore hundo (Or.inl rfl) (Or.inl rfl) (fun _ _ => rfl) (by omega)
    · rw [block.mapBlocks_apart _ _ _ _ _ (by omega), block.mapBlocks_apart _ _ _ _ _ (by omega)]

/-- For the keys that `InitKey` accepts, from whatever was in the tables before each of two calls. -/
theorem initKey_restores (key : ℕ → Byte) {keyLen : ℤ} (hmin : MINKEYBYTES ≤ keyLen) (hmax : keyLen ≤ MAXKEYBYTES)
    (t t' : Boxes) :
    SameBoxes (initKey (some key) keyLen t).2 (initKey (some key) keyLen t').2 ∧
    (∀ pData DataLen mem, blowFishEncrypt (initKey (some key) keyLen t').2 pData DataLen false
      (blowFishEncrypt (initKey (some key) keyLen t).2 pData DataLen true mem) = mem) ∧
    ∀ pData DataLen IsEncrypt mem i, 8 * (DataLen / 8) ≤ ((i : ℕ) : ℤ) →
      blowFishEncrypt (initKey (some key) keyLen t).2 pData DataLen IsEncrypt mem (pData + i) = mem (pData + i) := by
  rw [initKey_accepts key hmin hmax t, initKey_accepts key hmin hmax t']
  have hsame := expandKey_agree key keyLen t t'
  exact ⟨hsame, blowFishEncrypt_undo hsame, fun pData DataLen IsEncrypt mem i hi =>
    blowFishEncrypt_apart _ pData DataLen IsEncrypt mem hi⟩

/-- The five bytes `12345` as the key, from empty tables and from others. -/
theorem initKey_restores_sample :
    SameBoxes (initKey (some fun i => BitVec.ofNat 8 (49 + i)) 5 ⟨fun _ => 0, fun _ _ => 0⟩).2
      (initKey (some fun i => BitVec.ofNat 8 (49 + i)) 5 ⟨fun _ => 1, fun _ _ => 2⟩).2 :=
  (initKey_restores (fun i => BitVec.ofNat 8 (49 + i)) (by decide) (by decide) ⟨fun _ => 0, fun _ _ => 0⟩
    ⟨fun _ => 1, fun _ _ => 2⟩).1

end StarLib.Blowfish
