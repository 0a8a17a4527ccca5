import StarLib.Des.Cipher

/-! # One block of `Des_Go`

`DES` reads and writes static arrays, yet what it writes to its output depends on the input block and the
sub-keys alone: every scratch cell is written before it is read. `desBits` is that dependence, and decrypting
with the same sub-keys undoes it: the round function reads one half of the block only, and the table of the
last permutation is the inverse of the table of the first.
-/

namespace StarLib.Des
open Foundations
set_option autoImplicit false
set_option maxHeartbeats 250000
set_option maxRecDepth 120000

variable {n m : ℕ}

/-! ## Permutations -/

/-- `Table` applied to `In`. -/
def permuted (m : ℕ) (In : BitVec n) (Table : List ℕ) : BitVec m :=
  fillBits 0 m (fun i => In.getLsbD (Table.getD i 0 - 1)) 0

theorem getLsbD_permuted (In : BitVec n) (Table : List ℕ) {j : ℕ} (hj : j < m) :
    (permuted m In Table).getLsbD j = In.getLsbD (Table.getD j 0 - 1) := by
  have hin : 0 ≤ j ∧ j < 0 + m := by omega
  unfold permuted
  rw [getLsbD_fillBits _ _ _ _ hj, if_pos hin, Nat.sub_zero]

theorem getLsbD_transform (Tmp : BitVec 256) (Out : BitVec m) (In : BitVec n) (Table : List ℕ) {len j : ℕ}
    (hlen : len ≤ 256) (hj : j < m) :
    (transform Tmp Out In Table len).2.getLsbD j =
      if j < len then In.getLsbD (Table.getD j 0 - 1) else Out.getLsbD j := by
  show (fillBits 0 len _ Out).getLsbD j = _
  rw [getLsbD_fillBits _ _ _ _ hj]
  by_cases hin : j < len
  · have h0 : 0 ≤ j ∧ j < 0 + len := by omega
    rw [if_pos h0, if_pos hin, Nat.sub_zero, getLsbD_fillBits _ _ _ _ (by omega), if_pos h0, Nat.sub_zero]
  · have h0 : ¬ (0 ≤ j ∧ j < 0 + len) := by omega
    rw [if_neg h0, if_neg hin]

/-- A `Transform` of all the cells of its output. -/
theorem transform_snd (Tmp : BitVec 256) (Out : BitVec m) (In : BitVec n) (Table : List ℕ) (hm : m ≤ 256) :
    (transform Tmp Out In Table m).2 = permuted m In Table := by
  apply BitVec.eq_of_getLsbD_eq
  intro j hj
  rw [getLsbD_transform _ _ _ _ hm hj, if_pos hj, getLsbD_permuted _ _ hj]

/-- Tables of which one takes every place back to where the other took it from. -/
theorem permuted_permuted {T U : List ℕ} (h : ∀ j < n, U.getD j 0 - 1 < n ∧ T.getD (U.getD j 0 - 1) 0 - 1 = j)
    (M : BitVec n) : permuted n (permuted n M T) U = M := by
  apply BitVec.eq_of_getLsbD_eq
  intro j hj
  obtain ⟨hlt, hback⟩ := h j hj
  rw [getLsbD_permuted _ _ hj, getLsbD_permuted _ _ hlt, hback]

theorem IPR_inverse : ∀ j < 64, IPR_Table.getD j 0 - 1 < 64 ∧ IP_Table.getD (IPR_Table.getD j 0 - 1) 0 - 1 = j := by
  decide

theorem IP_inverse : ∀ j < 64, IP_Table.getD j 0 - 1 < 64 ∧ IPR_Table.getD (IP_Table.getD j 0 - 1) 0 - 1 = j := by
  decide

theorem xor_eq (A B : BitVec n) : xor A B n = A ^^^ B := by
  apply BitVec.eq_of_getLsbD_eq
  intro j hj
  have h := forRange_inv (f := fun i C => setBit C i (C.getLsbD i ^^ B.getLsbD i)) (s := A)
    (P := fun i (C : BitVec n) => ∀ j < n, C.getLsbD j = if j < i then (A.getLsbD j ^^ B.getLsbD j) else A.getLsbD j)
    (Nat.zero_le n) ?_ ?_ j hj
  · rw [if_pos hj] at h
    rw [BitVec.getLsbD_xor]
    exact h
  · intro j _
    rw [if_neg (Nat.not_lt_zero j)]
  · intro i C _ hi hC j hj
    rw [getLsbD_setBit _ _ _ hj]
    by_cases hji : j = i
    · have hlast : i < i + 1 := by omega
      rw [if_pos hji, hC i hi, if_neg (Nat.lt_irrefl i), hji, if_pos hlast]
    · have hiff : j < i + 1 ↔ j < i := by omega
      rw [if_neg hji, hC j hj]
      simp only [hiff]

/-! ## Rounds -/

/-- What `F_func` leaves in `In`. -/
def fBits (In : BitVec 32) (Ki : BitVec 48) : BitVec 32 :=
  permuted 32 (sFunc In (permuted 48 In E_Table ^^^ Ki)) P_Table

theorem fFunc_snd (s : Statics) (In : BitVec 32) (Ki : BitVec 48) : (fFunc s In Ki).2 = fBits In Ki := by
  show (transform _ _ _ P_Table 32).2 = _
  rw [transform_snd _ _ _ _ (by omega), transform_snd _ _ _ _ (by omega), xor_eq]
  rfl

theorem getLsbD_half (M : BitVec 64) (a : ℕ) {j : ℕ} (hj : j < 32) : (half M a).getLsbD j = M.getLsbD (a + j) := by
  unfold half
  rw [BitVec.getLsbD_extractLsb']
  simp [hj]

/-- Half `a` of the block is written. -/
def setHalf (a : ℕ) (x : BitVec 32) (M : BitVec 64) : BitVec 64 := fillBits a 32 x.getLsbD M

theorem half_setHalf (a : ℕ) (x : BitVec 32) (M : BitVec 64) (ha : a ≤ 32) : half (setHalf a x M) a = x := by
  apply BitVec.eq_of_getLsbD_eq
  intro j hj
  have hin : a ≤ a + j ∧ a + j < a + 32 := by omega
  unfold setHalf
  rw [getLsbD_half _ _ hj, getLsbD_fillBits _ _ _ _ (by omega), if_pos hin, Nat.add_sub_cancel_left]

theorem half_setHalf_of_apart {a b : ℕ} (x : BitVec 32) (M : BitVec 64) (hab : a + 32 ≤ b ∨ b + 32 ≤ a) (hb : b ≤ 32) :
    half (setHalf a x M) b = half M b := by
  apply BitVec.eq_of_getLsbD_eq
  intro j hj
  have hout : ¬ (a ≤ b + j ∧ b + j < a + 32) := by omega
  unfold setHalf
  rw [getLsbD_half _ _ hj, getLsbD_half _ _ hj, getLsbD_fillBits _ _ _ _ (by omega), if_neg hout]

theorem eq_of_halves {M N : BitVec 64} (h0 : half M 0 = half N 0) (h32 : half M 32 = half N 32) : M = N := by
  apply BitVec.eq_of_getLsbD_eq
  intro j hj
  rcases Nat.lt_or_ge j 32 with hlow | hhigh
  · have h := congrArg (fun x => x.getLsbD j) h0
    simp only [getLsbD_half _ _ hlow, Nat.zero_add] at h
    exact h
  · have hlt : j - 32 < 32 := by omega
    have hindex : 32 + (j - 32) = j := by omega
    have h := congrArg (fun x => x.getLsbD (j - 32)) h32
    simp only [getLsbD_half _ _ hlt, hindex] at h
    exact h

/-- The places of the two halves. -/
def HalfPlaces (a b : ℕ) : Prop := (a = 32 ∧ b = 0) ∨ (a = 0 ∧ b = 32)

/-- What a turn of either loop of `DES` makes of `M`. -/
def roundBits (a b : ℕ) (Ki : BitVec 48) (M : BitVec 64) : BitVec 64 :=
  setHalf b (half M a) (setHalf a (fBits (half M a) Ki ^^^ half M b) M)

theorem desTurn_M (which i a b : ℕ) (s : Statics) :
    (desTurn which i a b s).M = roundBits a b (s.SubKey which i) s.M := by
  show fillBits b 32 (half s.M a).getLsbD (fillBits a 32 (xor (fFunc _ (half s.M a) _).2 (half s.M b) 32).getLsbD s.M) = _
  rw [fFunc_snd, xor_eq]
  rfl

theorem half_roundBits {a b : ℕ} (hab : HalfPlaces a b) (Ki : BitVec 48) (M : BitVec 64) :
    half (roundBits a b Ki M) a = fBits (half M a) Ki ^^^ half M b ∧ half (roundBits a b Ki M) b = half M a := by
  unfold roundBits
  rcases hab with ⟨rfl, rfl⟩ | ⟨rfl, rfl⟩
  · rw [half_setHalf_of_apart _ _ (by omega) (by omega), half_setHalf _ _ _ (by omega), half_setHalf _ _ _ (by omega)]
    exact ⟨rfl, rfl⟩
  · rw [half_setHalf_of_apart _ _ (by omega) (by omega), half_setHalf _ _ _ (by omega), half_setHalf _ _ _ (by omega)]
    exact ⟨rfl, rfl⟩

/-- A turn of the other loop with the same sub-key undoes a turn. -/
theorem roundBits_undo {a b : ℕ} (hab : HalfPlaces a b) (Ki : BitVec 48) (M : BitVec 64) :
    roundBits b a Ki (roundBits a b Ki M) = M := by
  obtain ⟨ha, hb⟩ := half_roundBits hab Ki M
  have hba : HalfPlaces b a := Or.symm (Or.imp And.symm And.symm hab)
  obtain ⟨hb', ha'⟩ := half_roundBits hba Ki (roundBits a b Ki M)
  rw [hb] at ha'
  rw [ha, hb, ← BitVec.xor_assoc, BitVec.xor_self, BitVec.zero_xor] at hb'
  rcases hab with ⟨rfl, rfl⟩ | ⟨rfl, rfl⟩
  · exact eq_of_halves hb' ha'
  · exact eq_of_halves ha' hb'

/-- The sixteen turns. -/
def turnsBits (K : ℕ → BitVec 48) (type : Bool) (M : BitVec 64) : BitVec 64 :=
  if type = ENCRYPT then forRange 0 16 (fun i => roundBits 32 0 (K i)) M
  else forRange 0 16 (fun i => roundBits 0 32 (K (15 - i))) M

theorem turnsBits_false (K : ℕ → BitVec 48) (M : BitVec 64) :
    turnsBits K false M = forRange 0 16 (fun i => roundBits 32 0 (K i)) M := if_pos rfl

theorem turnsBits_true (K : ℕ → BitVec 48) (M : BitVec 64) :
    turnsBits K true M = forRange 0 16 (fun i => roundBits 0 32 (K (15 - i))) M := if_neg (by decide)

theorem turnsBits_undo (K : ℕ → BitVec 48) (type : Bool) (M : BitVec 64) :
    turnsBits K (!type) (turnsBits K type M) = M := by
  cases type with
  | false =>
    rw [Bool.not_false, turnsBits_true, turnsBits_false]
    exact forRange_undo (g := fun i => roundBits 0 32 (K i)) (fun i _ => roundBits_undo (Or.inl ⟨rfl, rfl⟩) (K i)) M
  | true =>
    have h := forRange_undo (n := 16) (f := fun i => roundBits 0 32 (K (15 - i)))
      (g := fun i => roundBits 32 0 (K (15 - i))) (fun i _ => roundBits_undo (Or.inr ⟨rfl, rfl⟩) (K (15 - i))) M
    rw [Bool.not_true, turnsBits_false, turnsBits_true]
    refine Eq.trans (forRange_congr _ fun i s _ hi => ?_) h
    have hindex : 15 - (16 - 1 - i) = i := by omega
    rw [hindex]

theorem turnsBits_congr {K K' : ℕ → BitVec 48} (h : ∀ i < 16, K i = K' i) (type : Bool) (M : BitVec 64) :
    turnsBits K type M = turnsBits K' type M := by
  cases type with
  | false =>
    rw [turnsBits_false, turnsBits_false]
    exact forRange_congr M fun i s _ hi => by rw [h i hi]
  | true =>
    rw [turnsBits_true, turnsBits_true]
    exact forRange_congr M fun i s _ hi => by rw [h (15 - i) (by omega)]

/-! ## The block -/

/-- What `DES` makes of the bits of a block. -/
def desBits (K : ℕ → BitVec 48) (type : Bool) (M : BitVec 64) : BitVec 64 :=
  permuted 64 (turnsBits K type (permuted 64 M IP_Table)) IPR_Table

theorem desBits_undo (K : ℕ → BitVec 48) (type : Bool) (M : BitVec 64) :
    desBits K (!type) (desBits K type M) = M := by
  unfold desBits
  rw [permuted_permuted IP_inverse, turnsBits_undo, permuted_permuted IPR_inverse]

theorem desBits_congr {K K' : ℕ → BitVec 48} (h : ∀ i < 16, K i = K' i) (type : Bool) (M : BitVec 64) :
    desBits K type M = desBits K' type M := by
  unfold desBits
  rw [turnsBits_congr h]

/-- The block that eight bytes hold. -/
def blockOf (In : ℕ → Byte) : BitVec 64 := fillBits 0 64 (fun i => (In (i / 8)).getLsbD (i % 8)) 0

def blockByte (M : BitVec 64) (b : ℕ) : Byte := M.extractLsb' (8 * b) 8

theorem byteToBit_eq (Out : BitVec 64) (In : ℕ → Byte) : byteToBit Out In 64 = blockOf In := fillBits_all _ _ _

theorem getLsbD_blockOf (In : ℕ → Byte) {j : ℕ} (hj : j < 64) :
    (blockOf In).getLsbD j = (In (j / 8)).getLsbD (j % 8) := by
  have hin : 0 ≤ j ∧ j < 0 + 64 := by omega
  unfold blockOf
  rw [getLsbD_fillBits _ _ _ _ hj, if_pos hin, Nat.sub_zero]

theorem blockByte_blockOf (In : ℕ → Byte) {b : ℕ} (hb : b < 8) : blockByte (blockOf In) b = In b := by
  apply BitVec.eq_of_getLsbD_eq
  intro j hj
  have hdiv : (8 * b + j) / 8 = b := by omega
  have hmod : (8 * b + j) % 8 = j := by omega
  unfold blockByte
  rw [BitVec.getLsbD_extractLsb', getLsbD_blockOf _ (by omega), hdiv, hmod]
  simp [hj]

theorem blockOf_blockByte (M : BitVec 64) : blockOf (blockByte M) = M := by
  apply BitVec.eq_of_getLsbD_eq
  intro j hj
  have hindex : 8 * (j / 8) + j % 8 = j := by omega
  have hmod : j % 8 < 8 := by omega
  unfold blockByte
  rw [getLsbD_blockOf _ hj, BitVec.getLsbD_extractLsb', hindex]
  simp [hmod]

theorem blockOf_congr {a b : ℕ → Byte} (h : ∀ i < 8, a i = b i) : blockOf a = blockOf b := by
  apply BitVec.eq_of_getLsbD_eq
  intro j hj
  rw [getLsbD_blockOf _ hj, getLsbD_blockOf _ hj, h (j / 8) (by omega)]

/-- The turns for one byte gather its bits. -/
theorem bitToByte_apply (Out : ℕ → Byte) (M : BitVec 64) {b : ℕ} (hb : b < 8) :
    bitToByte Out M 64 b = blockByte M b := by
  unfold bitToByte
  rw [fill_apply_of_lt (by omega)]
  apply BitVec.eq_of_getLsbD_eq
  intro j hj
  have h := forRange_inv (f := fun t byte => byte ||| ((BitVec.ofBool (M.getLsbD (8 * b + t))).setWidth 8 <<< t))
    (s := (0 : Byte)) (P := fun i (c : Byte) => ∀ j < 8, c.getLsbD j = if j < i then M.getLsbD (8 * b + j) else false)
    (Nat.zero_le 8) ?_ ?_ j hj
  · rw [if_pos hj] at h
    unfold blockByte
    rw [BitVec.getLsbD_extractLsb', h]
    simp [hj]
  · intro j _
    simp
  · intro t c _ ht hc j hj
    rw [BitVec.getLsbD_or, hc j hj, BitVec.getLsbD_shiftLeft]
    rcases Nat.lt_trichotomy j t with hlt | heq | hgt
    · have hnext : j < t + 1 := by omega
      simp [hlt, hnext]
    · subst heq
      simp [hj]
    · have hnext : ¬ j < t + 1 := by omega
      have hnot : ¬ j < t := by omega
      have hne : j - t ≠ 0 := by omega
      simp [hnext, hnot, hne]

/-! ## `DES` -/

theorem desTurn_frame (which i a b : ℕ) (s : Statics) :
    (desTurn which i a b s).SubKey = s.SubKey ∧ (desTurn which i a b s).Is3DES = s.Is3DES := ⟨rfl, rfl⟩

/-- A loop of `DES`, over the sub-keys in the order `k`. -/
theorem desLoop_spec (which a b : ℕ) (k : ℕ → ℕ) (s : Statics) :
    let s' := forRange 0 16 (fun i => desTurn which (k i) a b) s
    s'.M = forRange 0 16 (fun i => roundBits a b (s.SubKey which (k i))) s.M ∧
      s'.SubKey = s.SubKey ∧ s'.Is3DES = s.Is3DES := by
  refine forRange_rel (fun _ (s' : Statics) M => s'.M = M ∧ s'.SubKey = s.SubKey ∧ s'.Is3DES = s.Is3DES)
    (Nat.zero_le 16) ⟨rfl, rfl, rfl⟩ ?_
  intro i s' M _ _ h
  obtain ⟨hM, hkeys, hflag⟩ := h
  obtain ⟨hkeys', hflag'⟩ := desTurn_frame which (k i) a b s'
  rw [desTurn_M, hM, hkeys', hflag', hkeys]
  exact ⟨rfl, rfl, hflag⟩

theorem desLoops_spec (which : ℕ) (type : Bool) (s : Statics) :
    let s' := if type = ENCRYPT then forRange 0 16 (fun i => desTurn which i 32 0) s
      else forRange 0 16 (fun i => desTurn which (15 - i) 0 32) s
    s'.M = turnsBits (s.SubKey which) type s.M ∧ s'.SubKey = s.SubKey ∧ s'.Is3DES = s.Is3DES := by
  unfold turnsBits
  by_cases htype : type = ENCRYPT
  · simp only [if_pos htype]
    exact desLoop_spec which 32 0 (fun i => i) s
  · simp only [if_neg htype]
    exact desLoop_spec which 0 32 (fun i => 15 - i) s

/-- The bytes that `DES` writes, and what it leaves of the static objects. -/
theorem des_spec (s : Statics) (Out In : ℕ → Byte) (which : ℕ) (type : Bool) :
    (∀ b < 8, (des s Out In which type).2 b = blockByte (desBits (s.SubKey which) type (blockOf In)) b) ∧
      (des s Out In which type).1.SubKey = s.SubKey ∧ (des s Out In which type).1.Is3DES = s.Is3DES := by
  obtain ⟨hM, hkeys, hflag⟩ := desLoops_spec which type
    { s with
      M := (transform s.Tmp (byteToBit s.M In 64) (byteToBit s.M In 64) IP_Table 64).2
      Tmp := (transform s.Tmp (byteToBit s.M In 64) (byteToBit s.M In 64) IP_Table 64).1 }
  refine ⟨fun b hb => ?_, hkeys, hflag⟩
  unfold des
  dsimp only at hM ⊢
  rw [bitToByte_apply _ _ hb, transform_snd _ _ _ _ (by omega), hM, transform_snd _ _ _ _ (by omega), byteToBit_eq]
  rfl

end StarLib.Des
