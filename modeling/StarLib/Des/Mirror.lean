import StarLib.Des.Restore
import StarLib.DesAgreement

/-! # `Des_Go` beside the DES of LicenseLib

`Des.cpp` counts the bits of a byte from the lowest one, also those of the key and of an entry of the substitution
boxes, and does not exchange the halves after the last round. So it is the block function of LicenseLib with three
changes: every byte is read and written backwards, the result of the round function is shuffled, and the last exchange
is left out.
-/

namespace StarLib.Des
open Foundations LicenseLib DesAgreement
set_option autoImplicit false
set_option maxHeartbeats 250000
set_option maxRecDepth 120000

/-! ## Bits from the other end -/

theorem getLsbD_reverse_of_lt {w : ℕ} (x : BitVec w) {i : ℕ} (hi : i < w) : x.reverse.getLsbD i = x.getLsbD (w - 1 - i) := by
  rw [BitVec.getLsbD_reverse, BitVec.getMsbD_eq_getLsbD, decide_eq_true hi, Bool.true_and]

/-- `n` bytes, each from its lowest bit on. -/
def mirrored (p : ℕ → Byte) (n : ℕ) : List Byte := (List.range n).map fun i => (p i).reverse

theorem mirrored_getD (p : ℕ → Byte) {n i : ℕ} (hi : i < n) : (mirrored p n).getD i 0 = (p i).reverse := by
  simp [mirrored, List.getD_eq_getElem?_getD, hi]

theorem readBlock_mirrored (In : ℕ → Byte) : readBlock (mirrored In 8) 0 = (blockOf In).reverse := by
  refine readBlock_eq fun i hi => ?_
  rw [Nat.zero_add, mirrored_getD _ hi]
  apply BitVec.eq_of_getLsbD_eq
  intro t ht
  have hplace : 64 - 1 - (56 - 8 * i + t) = 8 * i + (7 - t) := by omega
  have hdiv : (8 * i + (7 - t)) / 8 = i := by omega
  have hmod : (8 * i + (7 - t)) % 8 = 8 - 1 - t := by omega
  rw [getLsbD_reverse_of_lt _ ht, LicenseLib.blockByte, BitVec.getLsbD_setWidth, BitVec.getLsbD_ushiftRight,
    getLsbD_reverse_of_lt _ (by omega), hplace, getLsbD_blockOf _ (by omega), hdiv, hmod, decide_eq_true ht, Bool.true_and]

/-! ## The round function -/

/-- The bit of the result that bit `t` of an entry of box `i` is, when the highest bit of the entry comes first. -/
def boxTarget (i t : ℕ) : ℕ := 31 - P_Table.idxOf (4 * i + 4 - t)

/-- The entry for six bits, the first and the last of which select the row. -/
def boxEntry (i v : ℕ) : Byte := ((S_Box.getD i []).getD (2 * (v / 32) + v % 2) []).getD (v / 2 % 16) 0

/-- An entry in its places. -/
def boxWord (i : ℕ) (s : Byte) : DWord :=
  forRange 0 4 (fun t w => w ||| if s.getLsbD t then BitVec.twoPow 32 (boxTarget i t) else 0) 0

/-- The combined tables of LicenseLib are the boxes and the permutation of `Des.cpp`. -/
theorem combined_eq : S_boxes_P_shuffle = (List.range 8).map fun i => (List.range 64).map fun v => boxWord i (boxEntry i v) := by
  decide

theorem combined_entry {i v : ℕ} (hi : i < 8) (hv : v < 64) :
    (S_boxes_P_shuffle.getD i []).getD v 0 = boxWord i (boxEntry i v) := by
  rw [combined_eq]
  simp [List.getD_eq_getElem?_getD, hi, hv]

/-- A loop that gathers words by their bits. -/
theorem getLsbD_gather (g : ℕ → DWord) (n q : ℕ) :
    (forRange 0 n (fun i w => w ||| g i) 0).getLsbD q = true ↔ ∃ i < n, (g i).getLsbD q = true := by
  refine forRange_inv (P := fun n (w : DWord) => w.getLsbD q = true ↔ ∃ i < n, (g i).getLsbD q = true) (Nat.zero_le n) ?_ ?_
  · rw [show (0 : DWord).getLsbD q = false from BitVec.getLsbD_zero]
    exact ⟨fun h => absurd h Bool.false_ne_true, fun ⟨i, hi, _⟩ => absurd hi (Nat.not_lt_zero i)⟩
  · intro n w _ _ h
    rw [BitVec.getLsbD_or, Bool.or_eq_true, h]
    constructor
    · rintro (⟨i, hi, hbit⟩ | hbit)
      · exact ⟨i, Nat.lt_succ_of_lt hi, hbit⟩
      · exact ⟨n, Nat.lt_succ_self n, hbit⟩
    · rintro ⟨i, hi, hbit⟩
      rcases Nat.lt_succ_iff_lt_or_eq.1 hi with hlt | rfl
      · exact Or.inl ⟨i, hlt, hbit⟩
      · exact Or.inr hbit

theorem boxTarget_lt (i t : ℕ) : boxTarget i t < 32 := Nat.lt_succ_of_le (Nat.sub_le 31 _)

/-- Every bit of the result comes from one place. -/
theorem boxTarget_inj {i t i' t' : ℕ} (hi : i < 8) (ht : t < 4) (hi' : i' < 8) (ht' : t' < 4) (h : boxTarget i' t' = boxTarget i t) :
    i' = i ∧ t' = t := by
  have hall : ∀ m < 32, ∀ m' < 32, boxTarget (m' / 4) (m' % 4) = boxTarget (m / 4) (m % 4) → m' = m := by decide
  have hdiv : (4 * i + t) / 4 = i ∧ (4 * i + t) % 4 = t := by omega
  have hdiv' : (4 * i' + t') / 4 = i' ∧ (4 * i' + t') % 4 = t' := by omega
  have heq := hall (4 * i + t) (by omega) (4 * i' + t') (by omega)
  rw [hdiv.1, hdiv.2, hdiv'.1, hdiv'.2] at heq
  have hplace := heq h
  omega

theorem getLsbD_boxWord (i : ℕ) (s : Byte) (q : ℕ) : (boxWord i s).getLsbD q = true ↔ ∃ t < 4, s.getLsbD t = true ∧ boxTarget i t = q := by
  refine (getLsbD_gather _ 4 q).trans (exists_congr fun t => and_congr_right fun _ => ?_)
  cases s.getLsbD t with
  | false => simp
  | true =>
    rw [if_pos rfl, BitVec.getLsbD_twoPow, decide_eq_true (boxTarget_lt i t), Bool.true_and, decide_eq_true_iff]
    exact ⟨fun h => ⟨rfl, h⟩, fun h => h.2⟩

/-- The number of the entry that `f_func` looks up in table `i`. -/
def selected (r : DWord) (k : QWord) (i : ℕ) : ℕ := (boxIndex (rotl r 1) k (7 - i)).toNat

theorem fFunc_target (r : DWord) (k : QWord) {i t : ℕ} (hi : i < 8) (ht : t < 4) :
    (LicenseLib.fFunc r k).getLsbD (boxTarget i t) = (boxEntry i (selected r k i)).getLsbD t := by
  have hlookup : ∀ m < 8, (S_boxes_P_shuffle.getD (7 - m) []).getD (boxIndex (rotl r 1) k m).toNat 0 =
      boxWord (7 - m) (boxEntry (7 - m) (selected r k (7 - m))) := by
    intro m hm
    have hback : 7 - (7 - m) = m := by omega
    rw [combined_entry (by omega) (boxIndex_lt _ _ _), selected, hback]
  rw [fFunc_eq, Bool.eq_iff_iff]
  refine (getLsbD_gather _ 8 _).trans ⟨?_, fun hbit => ?_⟩
  · rintro ⟨m, hm, hbit⟩
    rw [hlookup m hm, getLsbD_boxWord] at hbit
    obtain ⟨t', ht', hentry, htarget⟩ := hbit
    obtain ⟨hbox, rfl⟩ := boxTarget_inj hi ht (by omega : 7 - m < 8) ht' htarget
    rw [hbox] at hentry
    exact hentry
  · have hback : 7 - (7 - i) = i := by omega
    refine ⟨7 - i, by omega, ?_⟩
    rw [hlookup (7 - i) (by omega), hback, getLsbD_boxWord]
    exact ⟨t, ht, hbit, rfl⟩

theorem getLsbD_sFunc (Out : BitVec 32) (In : BitVec 48) {i t : ℕ} (hi : i < 8) (ht : t < 4) :
    (sFunc Out In).getLsbD (4 * i + t) = (sEntry In i).getLsbD t := by
  refine forRange_inv (P := fun n (Out : BitVec 32) => ∀ i < n, i < 8 → ∀ t < 4, Out.getLsbD (4 * i + t) = (sEntry In i).getLsbD t)
    (Nat.zero_le 8) (fun i hi => absurd hi (Nat.not_lt_zero i)) ?_ i hi hi t ht
  intro n Out _ _ h i hi hi8 t ht
  rw [getLsbD_fillBits _ _ _ _ (by omega)]
  by_cases hlast : i = n
  · have hin : 4 * n ≤ 4 * i + t ∧ 4 * i + t < 4 * n + 4 := by omega
    have hbit : 4 * i + t - 4 * n = t := by omega
    rw [if_pos hin, hbit, hlast]
  · have hout : ¬ (4 * n ≤ 4 * i + t ∧ 4 * i + t < 4 * n + 4) := by omega
    rw [if_neg hout, h i (by omega) hi8 t ht]

/-- Row and column by the single bits. -/
theorem rowColumn : ∀ y : Byte, y.toNat < 64 →
    2 * (y.toNat / 32) + y.toNat % 2 = 2 * (y.getLsbD 5).toNat + (y.getLsbD 0).toNat ∧
    y.toNat / 2 % 16 = 8 * (y.getLsbD 4).toNat + 4 * (y.getLsbD 3).toNat + 2 * (y.getLsbD 2).toNat + (y.getLsbD 1).toNat := by
  decide

theorem sEntry_eq {In : BitVec 48} {i : ℕ} {y : Byte} (hy : y.toNat < 64)
    (h : ∀ u < 6, In.getLsbD (6 * i + u) = y.getLsbD (5 - u)) : sEntry In i = boxEntry i y.toNat := by
  obtain ⟨hrow, hcolumn⟩ := rowColumn y hy
  unfold sEntry boxEntry
  simp only
  rw [hrow, hcolumn, h 0 (by decide), h 1 (by decide), h 2 (by decide), h 3 (by decide), h 4 (by decide), h 5 (by decide)]

/-- The places of the bits that `Des.cpp` takes from an entry, for `shuffle`. -/
def turnedP : List ℕ := P_Table.map fun p => boxTarget ((p - 1) / 4) ((p - 1) % 4)

theorem rotl_bit (r : DWord) {i : ℕ} (hi : i < 32) : (rotl r 1).getLsbD i = r.getLsbD ((i + 31) % 32) := by
  unfold rotl
  rw [BitVec.getLsbD_or, BitVec.getLsbD_shiftLeft, BitVec.getLsbD_ushiftRight, decide_eq_true hi, Bool.true_and]
  by_cases hzero : i = 0
  · rw [hzero]
    simp
  · have hindex : (i + 31) % 32 = i - 1 := by omega
    have hout : r.getLsbD (32 - 1 + i) = false := BitVec.getLsbD_of_ge r _ (by omega)
    rw [hindex, hout]
    simp [hzero]

/-- A word and a sub-key in the other order of bits. -/
theorem fBits_reverse (r : DWord) (k : QWord) {Ki : BitVec 48} (hKi : ∀ j < 48, Ki.getLsbD j = k.getLsbD (47 - j)) :
    fBits r.reverse Ki = (shuffle (LicenseLib.fFunc r k) turnedP).reverse := by
  have hE : ∀ i < 8, ∀ u < 6, E_Table.getD (6 * i + u) 0 - 1 < 32 ∧
      31 - (E_Table.getD (6 * i + u) 0 - 1) = (4 * (7 - i) + (5 - u) + 31) % 32 := by decide
  have hP : ∀ j < 32, (P_Table.getD j 0 - 1) / 4 < 8 ∧
      turnedP.reverse.getD (31 - j) 0 = boxTarget ((P_Table.getD j 0 - 1) / 4) ((P_Table.getD j 0 - 1) % 4) := by decide
  have hentry : ∀ i < 8, sEntry (permuted 48 r.reverse E_Table ^^^ Ki) i = boxEntry i (selected r k i) := by
    intro i hi
    refine sEntry_eq (boxIndex_lt _ _ _) fun u hu => ?_
    obtain ⟨hlt, hindex⟩ := hE i hi u hu
    have hkey : 47 - (6 * i + u) = 6 * (7 - i) + (5 - u) := by omega
    have hmask : (0x3f : Byte).getLsbD (5 - u) = true := by
      have hall : ∀ j < 6, (0x3f : Byte).getLsbD j = true := by decide
      exact hall _ (by omega)
    have hlast : 32 - 1 - (E_Table.getD (6 * i + u) 0 - 1) = 31 - (E_Table.getD (6 * i + u) 0 - 1) := rfl
    have hbit := boxIndex_bit (rotl r 1) k (7 - i) (show 5 - u < 6 by omega)
    unfold boxIndex
    rw [BitVec.getLsbD_and, hmask, Bool.and_true, hbit, BitVec.getLsbD_xor, getLsbD_permuted _ _ (by omega),
      getLsbD_reverse_of_lt _ hlt, hlast, hindex, hKi _ (by omega), hkey, rotl_bit _ (Nat.mod_lt _ (by decide)),
      Nat.mod_add_mod]
  apply BitVec.eq_of_getLsbD_eq
  intro j hj
  obtain ⟨hbox, hplace⟩ := hP j hj
  have hj31 : 32 - 1 - j = 31 - j := rfl
  have hsplit : 4 * ((P_Table.getD j 0 - 1) / 4) + (P_Table.getD j 0 - 1) % 4 = P_Table.getD j 0 - 1 := Nat.div_add_mod _ 4
  have hlen : turnedP.length = 32 := rfl
  unfold fBits
  rw [getLsbD_permuted _ _ hj, ← hsplit, getLsbD_sFunc _ _ hbox (Nat.mod_lt _ (by decide)), hentry _ hbox,
    getLsbD_reverse_of_lt _ hj, hj31, getLsbD_shuffle _ _ (by omega) (by omega), hplace,
    fFunc_target r k hbox (Nat.mod_lt _ (by decide))]

/-! ## Sub-keys -/

/-- The place that a cell of the two rotating halves has come from after `n` rotations. -/
def rotatedFrom (n t : ℕ) : ℕ := if t < 28 then (t + n) % 28 else 28 + (t - 28 + n) % 28

theorem rotatedFrom_lt (n t : ℕ) : rotatedFrom n t < 56 := by
  unfold rotatedFrom
  split <;> omega

theorem rotatedFrom_add (n l : ℕ) (t : ℕ) : rotatedFrom n (rotatedFrom l t) = rotatedFrom (n + l) t := by
  unfold rotatedFrom
  split <;> split <;> omega

theorem getLsbD_rotateL_mod (Tmp : BitVec 256) (In : BitVec 64) (off : ℕ) {loop j : ℕ} (hloop : loop ≤ 28) (hj : j < 64) :
    (rotateL Tmp In off 28 loop).2.getLsbD j =
      if off ≤ j ∧ j < off + 28 then In.getLsbD (off + (j - off + loop) % 28) else In.getLsbD j := by
  rw [getLsbD_rotateL _ _ _ _ (by omega) hj]
  by_cases hlast : off + 28 - loop ≤ j ∧ j < off + 28 - loop + loop
  · have hin : off ≤ j ∧ j < off + 28 := by omega
    have hindex : off + (j - (off + 28 - loop)) = off + (j - off + loop) % 28 := by omega
    rw [if_pos hlast, if_pos hin, hindex]
  · rw [if_neg hlast]
    by_cases hfirst : off ≤ j ∧ j < off + (28 - loop)
    · have hin : off ≤ j ∧ j < off + 28 := by omega
      have hindex : off + loop + (j - off) = off + (j - off + loop) % 28 := by omega
      rw [if_pos hfirst, if_pos hin, hindex]
    · have hout : ¬ (off ≤ j ∧ j < off + 28) := by omega
      rw [if_neg hfirst, if_neg hout]

/-- The two rotations of a turn. -/
theorem subKeyTurn_K (which i : ℕ) (s : Statics) (hloop : LOOP_Table.getD i 0 ≤ 28) {t : ℕ} (ht : t < 56) :
    (subKeyTurn which i s).K.getLsbD t = s.K.getLsbD (rotatedFrom (LOOP_Table.getD i 0) t) := by
  show (rotateL _ (rotateL s.Tmp s.K 0 28 _).2 28 28 _).2.getLsbD t = _
  unfold rotatedFrom
  rw [getLsbD_rotateL_mod _ _ _ hloop (by omega)]
  by_cases hleft : t < 28
  · have hout : ¬ (28 ≤ t ∧ t < 28 + 28) := by omega
    have hin : 0 ≤ t ∧ t < 0 + 28 := by omega
    rw [if_neg hout, if_pos hleft, getLsbD_rotateL_mod _ _ _ hloop (by omega), if_pos hin, Nat.zero_add, Nat.sub_zero]
  · have hin : 28 ≤ t ∧ t < 28 + 28 := by omega
    rw [if_pos hin, if_neg hleft, getLsbD_rotateL_mod _ _ _ hloop (by omega), if_neg (by omega)]

theorem subKeyTurn_key (which i : ℕ) (s : Statics) :
    (subKeyTurn which i s).SubKey which = Function.update (s.SubKey which) i (permuted 48 (subKeyTurn which i s).K PC2_Table) := by
  show Function.update s.SubKey which _ which = _
  rw [Function.update_self, transform_snd _ _ _ _ (by omega)]
  rfl

/-- The bit of the key that a bit of a sub-key is. -/
theorem getLsbD_keysOf (Key : ℕ → Byte) {i j : ℕ} (hi : i < 16) (hj : j < 48) : (keysOf Key i).getLsbD j =
    (blockOf Key).getLsbD (PC1_Table.getD (rotatedFrom (DesAgreement.rotation (i + 1)) (PC2_Table.getD j 0 - 1)) 0 - 1) := by
  have hPC2 : ∀ j < 48, PC2_Table.getD j 0 - 1 < 56 := by decide
  have hrotation : ∀ n < 16, LOOP_Table.getD n 0 ≤ 28 ∧ DesAgreement.rotation n + LOOP_Table.getD n 0 = DesAgreement.rotation (n + 1) := by decide
  have hrun := forRange_inv (f := subKeyTurn 0)
    (s := { blank with
      K := (transform blank.Tmp (byteToBit blank.K Key 64) (byteToBit blank.K Key 64) PC1_Table 56).2
      Tmp := (transform blank.Tmp (byteToBit blank.K Key 64) (byteToBit blank.K Key 64) PC1_Table 56).1 })
    (P := fun n (s : Statics) =>
      (∀ t < 56, s.K.getLsbD t = (blockOf Key).getLsbD (PC1_Table.getD (rotatedFrom (DesAgreement.rotation n) t) 0 - 1)) ∧
      ∀ i < n, ∀ j < 48, (s.SubKey 0 i).getLsbD j =
        (blockOf Key).getLsbD (PC1_Table.getD (rotatedFrom (DesAgreement.rotation (i + 1)) (PC2_Table.getD j 0 - 1)) 0 - 1))
    (Nat.zero_le 16) ?_ ?_
  · exact hrun.2 i hi j hj
  · refine ⟨fun t ht => ?_, fun i hi => absurd hi (Nat.not_lt_zero i)⟩
    have hstart : rotatedFrom (DesAgreement.rotation 0) t = t := by
      show rotatedFrom 0 t = t
      unfold rotatedFrom
      split <;> omega
    show (transform _ _ _ PC1_Table 56).2.getLsbD t = _
    rw [getLsbD_transform _ _ _ _ (by omega) (by omega), if_pos ht, hstart, byteToBit_eq]
  · rintro n s _ hn ⟨hK, hkeys⟩
    obtain ⟨hloop, hnext⟩ := hrotation n hn
    have hK' : ∀ t < 56, (subKeyTurn 0 n s).K.getLsbD t =
        (blockOf Key).getLsbD (PC1_Table.getD (rotatedFrom (DesAgreement.rotation (n + 1)) t) 0 - 1) := by
      intro t ht
      rw [subKeyTurn_K 0 n s hloop ht, hK _ (rotatedFrom_lt _ _), rotatedFrom_add, hnext]
    refine ⟨hK', fun i hi j hj => ?_⟩
    rw [subKeyTurn_key]
    by_cases hlast : i = n
    · rw [hlast, Function.update_self, getLsbD_permuted _ _ hj, hK' _ (hPC2 j hj)]
    · rw [Function.update_of_ne hlast, hkeys i (by omega) j hj]

/-- The sub-keys are the round keys of the mirrored key, in the other order of bits. -/
theorem keysOf_mirrored (Key : ℕ → Byte) {i j : ℕ} (hi : i < 16) (hj : j < 48) :
    (keysOf Key i).getLsbD j = ((genRoundkeys (readBlock (mirrored Key 8) 0)).getD i 0).getLsbD (47 - j) := by
  have hindices : ∀ i < 16, ∀ j < 48, roundKeyIndex i (47 - j) < 64 ∧
      64 - 1 - roundKeyIndex i (47 - j) = PC1_Table.getD (rotatedFrom (DesAgreement.rotation (i + 1)) (PC2_Table.getD j 0 - 1)) 0 - 1 := by
    decide
  obtain ⟨hlt, hindex⟩ := hindices i hi j hj
  rw [getLsbD_keysOf Key hi hj, roundKey_bit _ hi (by omega), readBlock_mirrored, getLsbD_reverse_of_lt _ hlt, hindex]

/-! ## The block function -/

/-- A round of LicenseLib with the result of the round function shuffled. -/
def mirroredRound (k x : QWord) : QWord := swapHalves x ^^^ (shuffle (LicenseLib.fFunc (low x) k) turnedP).setWidth 64

/-- `des_encdec` with these rounds, and without the last exchange. -/
def mirroredEncdec (x : QWord) (K : List QWord) : QWord :=
  shuffleInv (forRange 0 16 (fun i x => mirroredRound (K.getD i 0) x) (shuffle x IP_shuffle)) IP_shuffle

theorem half_high (x : QWord) : half x.reverse 0 = (high x).reverse := by
  apply BitVec.eq_of_getLsbD_eq
  intro j hj
  have hindex : 64 - 1 - (0 + j) = 32 + (32 - 1 - j) := by omega
  rw [getLsbD_half _ _ hj, getLsbD_reverse_of_lt _ (by omega), getLsbD_reverse_of_lt _ hj, high, BitVec.getLsbD_setWidth,
    BitVec.getLsbD_ushiftRight, hindex, decide_eq_true (by omega), Bool.true_and]

theorem half_low (x : QWord) : half x.reverse 32 = (low x).reverse := by
  apply BitVec.eq_of_getLsbD_eq
  intro j hj
  have hindex : 64 - 1 - (32 + j) = 32 - 1 - j := by omega
  rw [getLsbD_half _ _ hj, getLsbD_reverse_of_lt _ (by omega), getLsbD_reverse_of_lt _ hj, low, BitVec.getLsbD_setWidth,
    hindex, decide_eq_true (by omega), Bool.true_and]

theorem reverse_xor {w : ℕ} (x y : BitVec w) : (x ^^^ y).reverse = x.reverse ^^^ y.reverse := by
  apply BitVec.eq_of_getLsbD_eq
  intro i hi
  rw [BitVec.getLsbD_xor, getLsbD_reverse_of_lt _ hi, getLsbD_reverse_of_lt _ hi, getLsbD_reverse_of_lt _ hi, BitVec.getLsbD_xor]

theorem roundBits_mirrored (k x : QWord) {Ki : BitVec 48} (hKi : ∀ j < 48, Ki.getLsbD j = k.getLsbD (47 - j)) :
    roundBits 32 0 Ki x.reverse = (mirroredRound k x).reverse := by
  obtain ⟨h32, h0⟩ := half_roundBits (Or.inl ⟨rfl, rfl⟩) Ki x.reverse
  refine eq_of_halves ?_ ?_
  · rw [h0, half_low, half_high, mirroredRound, high_exchanged]
  · rw [h32, half_low, half_low, half_high, fBits_reverse _ k hKi, mirroredRound, low_exchanged, reverse_xor, BitVec.xor_comm]

theorem permuted_IP (x : QWord) : permuted 64 x.reverse IP_Table = (shuffle x IP_shuffle).reverse := by
  have hindices : ∀ j < 64, IP_Table.getD j 0 - 1 < 64 ∧
      64 - 1 - (IP_Table.getD j 0 - 1) = IP_shuffle.reverse.getD (64 - 1 - j) 0 := by decide
  have hlen : IP_shuffle.length = 64 := rfl
  apply BitVec.eq_of_getLsbD_eq
  intro j hj
  obtain ⟨hlt, hindex⟩ := hindices j hj
  rw [getLsbD_permuted _ _ hj, getLsbD_reverse_of_lt _ hlt, getLsbD_reverse_of_lt _ hj,
    getLsbD_shuffle _ _ (by omega) (by omega), hindex]

theorem permuted_IPR (x : QWord) : permuted 64 x.reverse IPR_Table = (shuffleInv x IP_shuffle).reverse := by
  have hback : x.reverse = permuted 64 (shuffleInv x IP_shuffle).reverse IP_Table := by
    rw [permuted_IP, shuffle_shuffleInv IP_isShuffle]
  rw [hback, permuted_permuted IPR_inverse]

/-- `DES` with the sub-keys of a key is `mirroredEncdec` with the round keys of the mirrored key. -/
theorem desBits_mirrored (Key : ℕ → Byte) (x : QWord) :
    desBits (keysOf Key) ENCRYPT x.reverse = (mirroredEncdec x (genRoundkeys (readBlock (mirrored Key 8) 0))).reverse := by
  have hturns := forRange_rel (f := fun i => roundBits 32 0 (keysOf Key i))
    (g := fun i x => mirroredRound ((genRoundkeys (readBlock (mirrored Key 8) 0)).getD i 0) x)
    (s := (shuffle x IP_shuffle).reverse) (t := shuffle x IP_shuffle) (fun _ M x => M = x.reverse) (Nat.zero_le 16) rfl
    fun i M x _ hi hM => by rw [hM, roundBits_mirrored _ x fun j hj => keysOf_mirrored Key hi hj]
  unfold desBits mirroredEncdec
  rw [permuted_IP, show ENCRYPT = false from rfl, turnsBits_false, hturns, permuted_IPR]

theorem blockByte_reverse (x : QWord) {b : ℕ} (hb : b < 8) : blockByte x.reverse b = (LicenseLib.blockByte x b).reverse := by
  apply BitVec.eq_of_getLsbD_eq
  intro t ht
  have hindex : 64 - 1 - (8 * b + t) = 56 - 8 * b + (8 - 1 - t) := by omega
  rw [getLsbD_reverse_of_lt _ ht, blockByte, LicenseLib.blockByte, BitVec.getLsbD_extractLsb', BitVec.getLsbD_setWidth,
    BitVec.getLsbD_ushiftRight, getLsbD_reverse_of_lt _ (by omega), hindex, decide_eq_true ht, decide_eq_true (by omega)]

end StarLib.Des
