import StarLib.Foundations.XorLinear
import StarLib.LicenseLib.Des
import StarLib.SerialManager.DesRounds

/-! # The two implementations of DES

The DES variant of `CSerialManager` without its slips is the DES of LicenseLib, for every key and block: the
networks of exchanges are the initial and the final permutation with each half rotated by one bit, the
combined tables are each other's rotations, and the cooked words hold the bits of the round key. So the two
libraries agree wherever the slips change no value.
-/

namespace StarLib.DesAgreement
open Foundations LicenseLib SerialManager
set_option autoImplicit false
set_option maxHeartbeats 250000
set_option maxRecDepth 120000

/-! ## The halves of a block -/

def high (x : QWord) : DWord := (x >>> 32).setWidth 32

def low (x : QWord) : DWord := x.setWidth 32

/-- The halves as `CSerialManager` keeps them through the rounds. -/
def rotatedHalves (x : QWord) : DWord × DWord := (rotl (high x) 1, rotl (low x) 1)

theorem high_linear : XorLinear high := (XorLinear.setWidth 32).comp (XorLinear.ushiftRight 32)

theorem low_linear : XorLinear low := XorLinear.setWidth 32

theorem rotl_linear : XorLinear fun x => rotl x 1 := by
  refine (XorLinear.shiftLeft 1).or (XorLinear.ushiftRight (32 - 1)) fun x => ?_
  apply BitVec.eq_of_getLsbD_eq
  intro i hi
  rw [BitVec.getLsbD_and, BitVec.getLsbD_shiftLeft, BitVec.getLsbD_ushiftRight]
  by_cases hzero : i = 0
  · simp [hzero]
  · have hout : x.getLsbD (31 + i) = false := BitVec.getLsbD_of_ge x _ (by omega)
    simp [hout]

theorem rotr_linear : XorLinear fun x : DWord => (x <<< 31) ||| (x >>> 1) := by
  refine (XorLinear.shiftLeft 31).or (XorLinear.ushiftRight 1) fun x => ?_
  apply BitVec.eq_of_getLsbD_eq
  intro i hi
  rw [BitVec.getLsbD_and, BitVec.getLsbD_shiftLeft, BitVec.getLsbD_ushiftRight]
  by_cases htop : i = 31
  · subst htop
    simp
  · have hlow : i < 31 := by omega
    simp [hlow]

theorem exchange_linear {w : ℕ} {a b : BitVec w → DWord} (ha : XorLinear a) (hb : XorLinear b) (n : ℕ) (mask : DWord) :
    XorLinear (fun x => (exchange n mask (a x) (b x)).1) ∧ XorLinear fun x => (exchange n mask (a x) (b x)).2 := by
  have hwork : XorLinear fun x => ((a x >>> n) ^^^ b x) &&& mask :=
    (XorLinear.and mask).comp (((XorLinear.ushiftRight n).comp ha).xor hb)
  exact ⟨ha.xor ((XorLinear.shiftLeft n).comp hwork), hb.xor hwork⟩

theorem rotl_one (x : DWord) : (x <<< 1) ||| ((x >>> 31) &&& 1) = rotl x 1 := by
  apply BitVec.eq_of_getLsbD_eq
  intro i hi
  unfold rotl
  rw [BitVec.getLsbD_or, BitVec.getLsbD_or, getLsbD_and_one, BitVec.getLsbD_ushiftRight, BitVec.getLsbD_ushiftRight]
  by_cases hzero : i = 0
  · simp [hzero]
  · have hout : x.getLsbD (31 + i) = false := BitVec.getLsbD_of_ge x _ (by omega)
    simp [hzero, hout]

/-! ## The permutations -/

theorem initialNet_linear {w : ℕ} {a b : BitVec w → DWord} (ha : XorLinear a) (hb : XorLinear b) :
    XorLinear (fun x => (initialNet (a x, b x)).1) ∧ XorLinear fun x => (initialNet (a x, b x)).2 := by
  obtain ⟨h1, h1'⟩ := exchange_linear ha hb 4 0x0f0f0f0f
  obtain ⟨h2, h2'⟩ := exchange_linear h1 h1' 16 0x0000ffff
  obtain ⟨h3, h3'⟩ := exchange_linear h2' h2 2 0x33333333
  obtain ⟨h4, h4'⟩ := exchange_linear h3 h3' 8 0x00ff00ff
  obtain ⟨h5, h5'⟩ := exchange_linear h4' (rotl_linear.comp h4) 0 0xaaaaaaaa
  unfold initialNet
  simp only [rotl_one]
  exact ⟨rotl_linear.comp h5, h5'⟩

theorem initialNet_eq (x : QWord) : initialNet (high x, low x) = rotatedHalves (shuffle x IP_shuffle) := by
  obtain ⟨h, h'⟩ := initialNet_linear high_linear low_linear
  have hshuffle : XorLinear fun x => shuffle x IP_shuffle := XorLinear.shuffle rfl
  have hbits : ∀ i < 64, initialNet (high (BitVec.twoPow 64 i), low (BitVec.twoPow 64 i)) =
      rotatedHalves (shuffle (BitVec.twoPow 64 i) IP_shuffle) := by
    decide
  refine Prod.ext ?_ ?_
  · exact h.ext (rotl_linear.comp (high_linear.comp hshuffle)) (fun i hi => congrArg Prod.fst (hbits i hi)) x
  · exact h'.ext (rotl_linear.comp (low_linear.comp hshuffle)) (fun i hi => congrArg Prod.snd (hbits i hi)) x

theorem finalNet_linear {w : ℕ} {a b : BitVec w → DWord} (ha : XorLinear a) (hb : XorLinear b) :
    XorLinear (fun x => (finalNet (a x, b x)).1) ∧ XorLinear fun x => (finalNet (a x, b x)).2 := by
  obtain ⟨h1, h1'⟩ := exchange_linear ha (rotr_linear.comp hb) 0 0xaaaaaaaa
  obtain ⟨h2, h2'⟩ := exchange_linear (rotr_linear.comp h1) h1' 8 0x00ff00ff
  obtain ⟨h3, h3'⟩ := exchange_linear h2 h2' 2 0x33333333
  obtain ⟨h4, h4'⟩ := exchange_linear h3' h3 16 0x0000ffff
  exact exchange_linear h4 h4' 4 0x0f0f0f0f

/-- On what the rounds leave, exchanged, the final network undoes the initial permutation. -/
theorem finalNet_swapped (y : QWord) :
    finalNet (rotatedHalves (swapHalves (shuffle y IP_shuffle))) = (high y, low y) := by
  have hswapped : XorLinear fun x => swapHalves (shuffle x IP_shuffle) :=
    XorLinear.comp swapHalves_xor (XorLinear.shuffle rfl)
  obtain ⟨h, h'⟩ := finalNet_linear (rotl_linear.comp (high_linear.comp hswapped))
    (rotl_linear.comp (low_linear.comp hswapped))
  have hbits : ∀ i < 64, finalNet (rotatedHalves (swapHalves (shuffle (BitVec.twoPow 64 i) IP_shuffle))) =
      (high (BitVec.twoPow 64 i), low (BitVec.twoPow 64 i)) := by
    decide
  refine Prod.ext ?_ ?_
  · exact h.ext high_linear (fun i hi => congrArg Prod.fst (hbits i hi)) y
  · exact h'.ext low_linear (fun i hi => congrArg Prod.snd (hbits i hi)) y

theorem finalNet_eq (x : QWord) :
    finalNet (rotatedHalves x) = (high (shuffleInv (swapHalves x) IP_shuffle), low (shuffleInv (swapHalves x) IP_shuffle)) := by
  rw [← finalNet_swapped, shuffle_shuffleInv IP_isShuffle, swapHalves_swapHalves]

/-! ## The round function -/

/-- The six bits that select the entry of table `7 - i`, from the rotated half. -/
def boxIndex (r : DWord) (k : QWord) (i : ℕ) : Byte :=
  ((r.rotateRight (4 * i)).setWidth 64 ^^^ (k >>> (6 * i))).setWidth 8 &&& 0x3f

theorem rotateRight_bit (r : DWord) (n : ℕ) {i : ℕ} (hi : i < 32) :
    (r.rotateRight n).getLsbD i = r.getLsbD ((n + i) % 32) := by
  rw [BitVec.getLsbD_rotateRight, Bool.cond_decide]
  split
  · have hindex : (n + i) % 32 = n % 32 + i := by omega
    rw [hindex]
  · have hindex : (n + i) % 32 = i - (32 - n % 32) := by omega
    rw [hindex, decide_eq_true hi, Bool.true_and]

theorem rotateRight_four (r : DWord) (n : ℕ) :
    (r.rotateRight n >>> 4) ||| (r.rotateRight n <<< 28) = r.rotateRight (n + 4) := by
  apply BitVec.eq_of_getLsbD_eq
  intro i hi
  rw [BitVec.getLsbD_or, BitVec.getLsbD_ushiftRight, BitVec.getLsbD_shiftLeft, rotateRight_bit r _ hi]
  by_cases hlow : i < 28
  · have hindex : n + 4 + i = n + (4 + i) := by omega
    rw [rotateRight_bit r n (by omega), hindex]
    simp [hlow]
  · have hout : (r.rotateRight n).getLsbD (4 + i) = false := BitVec.getLsbD_of_ge _ _ (by omega)
    have hindex : (n + 4 + i) % 32 = (n + (i - 28)) % 32 := by omega
    rw [hout, rotateRight_bit r n (by omega), hindex]
    simp [hlow, hi]

theorem fFunc_eq (r : DWord) (k : QWord) :
    fFunc r k = forRange 0 8
      (fun i out => out ||| (S_boxes_P_shuffle.getD (7 - i) []).getD (boxIndex (rotl r 1) k i).toNat 0) 0 := by
  have hstart : (rotl r 1).rotateRight (4 * 0) = rotl r 1 := by
    apply BitVec.eq_of_getLsbD_eq
    intro i hi
    rw [rotateRight_bit _ _ hi, Nat.mul_zero, Nat.zero_add, Nat.mod_eq_of_lt hi]
  have hloop := forRange_rel (f := fun i s => fStep (7 - i) s)
    (g := fun i out => out ||| (S_boxes_P_shuffle.getD (7 - i) []).getD (boxIndex (rotl r 1) k i).toNat 0)
    (s := ⟨0, rotl r 1, k⟩) (t := 0)
    (fun i (s : FWork) out => s.out = out ∧ s.r = (rotl r 1).rotateRight (4 * i) ∧ s.k = k >>> (6 * i))
    (Nat.zero_le 8) ⟨rfl, hstart.symm, (BitVec.ushiftRight_zero k).symm⟩ ?_
  · exact hloop.1
  · rintro i s out _ _ ⟨hout, hr, hk⟩
    refine ⟨?_, ?_, ?_⟩
    · unfold fStep boxIndex
      simp only [hout, hr, hk]
    · unfold fStep
      simp only [hr]
      exact rotateRight_four _ _
    · unfold fStep
      simp only [hk]
      rw [← BitVec.shiftRight_add, Nat.mul_succ]

/-- The round key that two raw words make up. -/
structure RawWords (raw0 raw1 : DWord) (k : QWord) : Prop where
  upper : ∀ j < 24, raw0.getLsbD j = k.getLsbD (24 + j)
  lower : ∀ j < 24, raw1.getLsbD j = k.getLsbD j

theorem cook0_bit {raw0 raw1 : DWord} {k : QWord} (h : RawWords raw0 raw1 k) {m j : ℕ} (hm : m < 4) (hj : j < 6) :
    (cook0 raw0 raw1).getLsbD (8 * m + j) = k.getLsbD (12 * m + 6 + j) := by
  have hfields : ∀ m < 4, ∀ j < 6, (cook0 raw0 raw1).getLsbD (8 * m + j) =
      if m < 2 then raw1.getLsbD (12 * m + 6 + j) else raw0.getLsbD (12 * (m - 2) + 6 + j) := by
    intro m hm j hj
    unfold cook0
    interval_cases m <;> interval_cases j <;> simp
  rw [hfields m hm j hj]
  split
  · exact h.lower _ (by omega)
  · have hindex : 24 + (12 * (m - 2) + 6 + j) = 12 * m + 6 + j := by omega
    rw [h.upper _ (by omega), hindex]

theorem cook1_bit {raw0 raw1 : DWord} {k : QWord} (h : RawWords raw0 raw1 k) {m j : ℕ} (hm : m < 4) (hj : j < 6) :
    (cook1 raw0 raw1).getLsbD (8 * m + j) = k.getLsbD (12 * m + j) := by
  have hfields : ∀ m < 4, ∀ j < 6, (cook1 raw0 raw1).getLsbD (8 * m + j) =
      if m < 2 then raw1.getLsbD (12 * m + j) else raw0.getLsbD (12 * (m - 2) + j) := by
    intro m hm j hj
    unfold cook1
    interval_cases m <;> interval_cases j <;> simp
  rw [hfields m hm j hj]
  split
  · exact h.lower _ (by omega)
  · have hindex : 24 + (12 * (m - 2) + j) = 12 * m + j := by omega
    rw [h.upper _ (by omega), hindex]

/-- Two six-bit selectors with the same bits. -/
theorem selector_toNat {x : DWord} {y : Byte} (h : ∀ j < 6, x.getLsbD j = y.getLsbD j) :
    (x &&& 0x3f).toNat = (y &&& 0x3f).toNat := by
  have hsix : x.setWidth 6 = y.setWidth 6 := by
    apply BitVec.eq_of_getLsbD_eq
    intro j hj
    rw [BitVec.getLsbD_setWidth, BitVec.getLsbD_setWidth, h j hj]
  have hval := congrArg BitVec.toNat hsix
  rw [BitVec.toNat_setWidth, BitVec.toNat_setWidth] at hval
  have hx : (x &&& 0x3f).toNat = x.toNat % 2 ^ 6 := by
    rw [BitVec.toNat_and]
    exact Nat.and_two_pow_sub_one_eq_mod x.toNat 6
  have hy : (y &&& 0x3f).toNat = y.toNat % 2 ^ 6 := by
    rw [BitVec.toNat_and]
    exact Nat.and_two_pow_sub_one_eq_mod y.toNat 6
  rw [hx, hy, hval]

/-- The tables of `CSerialManager`, in the order of the boxes. -/
def combinedTables : List (List DWord) := [SP1, SP2, SP3, SP4, SP5, standardSP6, SP7, SP8]

/-- The tables of the two libraries hold the same words, rotated by one bit. -/
theorem tables_eq : ∀ j < 8, ∀ n < 64,
    (combinedTables.getD j []).getD n 0 = rotl ((S_boxes_P_shuffle.getD j []).getD n 0) 1 := by
  have hlists : combinedTables = S_boxes_P_shuffle.map fun t => t.map fun x => rotl x 1 := by decide
  have hzero : rotl (0 : DWord) 1 = 0 := by decide
  intro j _ n _
  have htable : combinedTables.getD j [] = (S_boxes_P_shuffle.getD j []).map fun x => rotl x 1 := by
    rw [hlists]
    exact List.getD_map S_boxes_P_shuffle [] fun t => t.map fun x => rotl x 1
  have hentry := List.getD_map (S_boxes_P_shuffle.getD j []) 0 (n := n) fun x => rotl x 1
  rw [hzero] at hentry
  rw [htable, hentry]

theorem rotl_or (x y : DWord) : rotl (x ||| y) 1 = rotl x 1 ||| rotl y 1 := by
  apply BitVec.eq_of_getLsbD_eq
  intro i hi
  unfold rotl
  simp only [BitVec.getLsbD_or, BitVec.getLsbD_shiftLeft, BitVec.getLsbD_ushiftRight]
  grind

theorem boxIndex_lt (r : DWord) (k : QWord) (i : ℕ) : (boxIndex r k i).toNat < 64 := by
  have hle : (boxIndex r k i).toNat ≤ 0x3f := by
    unfold boxIndex
    rw [BitVec.toNat_and]
    exact Nat.and_le_right
  omega

/-- The bits of a selector are bits of the rotated half and of the round key. -/
theorem boxIndex_bit (r : DWord) (k : QWord) (i : ℕ) {j : ℕ} (hj : j < 6) :
    (((r.rotateRight (4 * i)).setWidth 64 ^^^ (k >>> (6 * i))).setWidth 8).getLsbD j =
      (r.getLsbD ((4 * i + j) % 32) ^^ k.getLsbD (6 * i + j)) := by
  have h8 : j < 8 := by omega
  have h64 : j < 64 := by omega
  rw [BitVec.getLsbD_setWidth, BitVec.getLsbD_xor, BitVec.getLsbD_setWidth, rotateRight_bit r _ (by omega),
    BitVec.getLsbD_ushiftRight, decide_eq_true h8, decide_eq_true h64, Bool.true_and, Bool.true_and]

theorem evenIndex {raw0 raw1 : DWord} {k : QWord} (h : RawWords raw0 raw1 k) (r : DWord) {m : ℕ} (hm : m < 4) :
    (((r ^^^ cook1 raw0 raw1) >>> (8 * m)) &&& 0x3f).toNat = (boxIndex r k (2 * m)).toNat := by
  refine selector_toNat fun j hj => ?_
  have hr : (4 * (2 * m) + j) % 32 = 8 * m + j := by omega
  have hk : 6 * (2 * m) + j = 12 * m + j := by omega
  rw [boxIndex_bit r k _ hj, BitVec.getLsbD_ushiftRight, BitVec.getLsbD_xor, cook1_bit h hm hj, hr, hk]

theorem oddIndex {raw0 raw1 : DWord} {k : QWord} (h : RawWords raw0 raw1 k) (r : DWord) {m : ℕ} (hm : m < 4) :
    (((((r <<< 28) ||| (r >>> 4)) ^^^ cook0 raw0 raw1) >>> (8 * m)) &&& 0x3f).toNat =
      (boxIndex r k (2 * m + 1)).toNat := by
  refine selector_toNat fun j hj => ?_
  have hrot : (r <<< 28) ||| (r >>> 4) = r.rotateRight 4 := by
    rw [BitVec.or_comm]
    rfl
  have hr : (4 + (8 * m + j)) % 32 = (4 * (2 * m + 1) + j) % 32 := by omega
  have hk : 6 * (2 * m + 1) + j = 12 * m + 6 + j := by omega
  rw [boxIndex_bit r k _ hj, BitVec.getLsbD_ushiftRight, BitVec.getLsbD_xor, cook0_bit h hm hj, hrot,
    rotateRight_bit r 4 (by omega), hr, hk]

/-- The round function without the slips is the other one, on the rotated half. -/
theorem standardFval_eq {raw0 raw1 : DWord} {k : QWord} (h : RawWords raw0 raw1 k) (r : DWord) :
    standardFval (((rotl r 1 <<< 28) ||| (rotl r 1 >>> 4)) ^^^ cook0 raw0 raw1) (rotl r 1 ^^^ cook1 raw0 raw1) =
      rotl (fFunc r k) 1 := by
  have hlt := boxIndex_lt (rotl r 1) k
  have h0 := evenIndex h (rotl r 1) (show 0 < 4 by decide)
  have h1 := evenIndex h (rotl r 1) (show 1 < 4 by decide)
  have h2 := evenIndex h (rotl r 1) (show 2 < 4 by decide)
  have h3 := evenIndex h (rotl r 1) (show 3 < 4 by decide)
  have g0 := oddIndex h (rotl r 1) (show 0 < 4 by decide)
  have g1 := oddIndex h (rotl r 1) (show 1 < 4 by decide)
  have g2 := oddIndex h (rotl r 1) (show 2 < 4 by decide)
  have g3 := oddIndex h (rotl r 1) (show 3 < 4 by decide)
  simp only [Nat.reduceMul, Nat.reduceAdd, BitVec.ushiftRight_zero] at h0 h1 h2 h3 g0 g1 g2 g3
  have t0 : SP8.getD _ 0 = _ := tables_eq 7 (by decide) _ (hlt 0)
  have t1 : SP7.getD _ 0 = _ := tables_eq 6 (by decide) _ (hlt 1)
  have t2 : standardSP6.getD _ 0 = _ := tables_eq 5 (by decide) _ (hlt 2)
  have t3 : SP5.getD _ 0 = _ := tables_eq 4 (by decide) _ (hlt 3)
  have t4 : SP4.getD _ 0 = _ := tables_eq 3 (by decide) _ (hlt 4)
  have t5 : SP3.getD _ 0 = _ := tables_eq 2 (by decide) _ (hlt 5)
  have t6 : SP2.getD _ 0 = _ := tables_eq 1 (by decide) _ (hlt 6)
  have t7 : SP1.getD _ 0 = _ := tables_eq 0 (by decide) _ (hlt 7)
  rw [fFunc_eq]
  simp only [forRange, List.range', List.foldl, Nat.reduceSub, Nat.reduceAdd, rotl_or]
  unfold standardFval entrySP
  rw [h0, h1, h2, h3, g0, g1, g2, g3, t0, t1, t2, t3, t4, t5, t6, t7]
  have hzero : rotl 0 1 = 0#32 := by decide
  rw [hzero, BitVec.zero_or]
  ac_rfl

/-! ## The key schedule -/

/-- Bit `l` of a key, the first one on top. -/
theorem keyBit_iff (key : List Byte) {j : ℕ} (hj : j < 56) :
    keyBit key j ≠ 0 ↔ (readBlock key 0).getLsbD (63 - pc1.getD j 0) = true := by
  have hlt : ∀ j < 56, pc1.getD j 0 < 64 := by decide
  have hmask : ∀ m < 8, bytebit.getD m 0 = BitVec.twoPow 8 (7 - m) := by decide
  have hl := hlt j hj
  have hbyte := blockByte_readBlock key 0 (show pc1.getD j 0 / 8 < 8 by omega)
  unfold keyBit
  simp only
  generalize pc1.getD j 0 = l at hl hbyte ⊢
  have hindex : 56 - 8 * (l / 8) + (7 - l % 8) = 63 - l := by omega
  have hbit : (key.getD (l / 8) 0).getLsbD (7 - l % 8) = (readBlock key 0).getLsbD (63 - l) := by
    have h8 : 7 - l % 8 < 8 := by omega
    rw [Nat.zero_add] at hbyte
    rw [← hbyte, blockByte, BitVec.getLsbD_setWidth, BitVec.getLsbD_ushiftRight, hindex, decide_eq_true h8, Bool.true_and]
  rw [hmask _ (by omega), BitVec.and_twoPow, hbit]
  cases (readBlock key 0).getLsbD (63 - l) with
  | false => simp
  | true =>
    have hne : BitVec.twoPow 8 (7 - l % 8) ≠ 0#8 := by
      have hall : ∀ m < 8, BitVec.twoPow 8 m ≠ 0#8 := by decide
      exact hall _ (by omega)
    simp [hne]

theorem bigbytes_bit (b : ℕ → Prop) [DecidablePred b] {p : ℕ} (hp : p < 24) :
    (forRange 0 24 (fun j k => if b j then k ||| bigbyte.getD j 0 else k) 0).getLsbD p = decide (b (23 - p)) := by
  have hmask : ∀ j < 24, bigbyte.getD j 0 = BitVec.twoPow 32 (23 - j) := by decide
  have hrun := forRange_inv (f := fun j k => if b j then k ||| bigbyte.getD j 0 else k) (s := 0)
    (P := fun n (k : DWord) => n ≤ 24 → k.getLsbD p = (decide (23 - p < n) && decide (b (23 - p))))
    (Nat.zero_le 24) (fun _ => by simp) ?_ (Nat.le_refl 24)
  · rw [hrun, decide_eq_true (show 23 - p < 24 by omega), Bool.true_and]
  · intro n k _ hn ih _
    have hk := ih (by omega)
    by_cases hlast : n = 23 - p
    · have hbit : (BitVec.twoPow 32 (23 - n)).getLsbD p = true := by
        rw [BitVec.getLsbD_twoPow, decide_eq_true (by omega), decide_eq_true (by omega)]
        rfl
      have hno : ¬ 23 - p < n := by omega
      have hyes : 23 - p < n + 1 := by omega
      rw [hmask n hn]
      by_cases hb : b n
      · rw [if_pos hb, BitVec.getLsbD_or, hbit, ← hlast]
        simp [hb]
      · rw [if_neg hb, hk, ← hlast]
        simp [hb]
    · have hbit : (BitVec.twoPow 32 (23 - n)).getLsbD p = false := by
        rw [BitVec.getLsbD_twoPow, decide_eq_false (show ¬ 23 - n = p by omega), Bool.and_false]
      have hiff : 23 - p < n + 1 ↔ 23 - p < n := by omega
      rw [hmask n hn]
      simp only [hiff]
      split
      · rw [BitVec.getLsbD_or, hbit, Bool.or_false, hk]
      · exact hk

/-- Where a half of 28 bits, rotated to the left by `n`, has bit `t` from. -/
def rotIndex (n t : ℕ) : ℕ := if t < 28 then (t + 28 - n) % 28 else 28 + (t - n) % 28

theorem keyShiftLeft_bit (x : QWord) {t : ℕ} (ht : t < 56) : (keyShiftLeft x).getLsbD t = x.getLsbD (rotIndex 1 t) := by
  have hcarry : ∀ t < 56, (0x10000001#64).getLsbD t = decide (t = 0 ∨ t = 28) := by decide
  have hkeep : ∀ t < 56, (0xffffffffeffffffe#64).getLsbD t = decide (¬ (t = 0 ∨ t = 28)) := by decide
  unfold keyShiftLeft rotIndex
  simp only
  rw [BitVec.getLsbD_or, BitVec.getLsbD_and, BitVec.getLsbD_and, BitVec.getLsbD_shiftLeft, BitVec.getLsbD_ushiftRight]
  rw [show (0x10000001 : QWord).getLsbD t = _ from hcarry t ht, show (0xffffffffeffffffe : QWord).getLsbD t = _ from hkeep t ht]
  by_cases h0 : t = 0
  · subst h0
    simp
  · by_cases h28 : t = 28
    · subst h28
      simp
    · have h64 : t < 64 := by omega
      have hpos : ¬ t < 1 := by omega
      have hindex : (if t < 28 then (t + 28 - 1) % 28 else 28 + (t - 1) % 28) = t - 1 := by
        split <;> omega
      rw [hindex]
      simp [h0, h28, h64]
theorem rotIndex_rotIndex {n : ℕ} (hn : n < 28) (t : ℕ) : rotIndex n (rotIndex 1 t) = rotIndex (n + 1) t := by
  unfold rotIndex
  by_cases hhalf : t < 28
  · have hin : (t + 28 - 1) % 28 < 28 := by omega
    rw [if_pos hhalf, if_pos hhalf, if_pos hin]
    omega
  · have hout : ¬ 28 + (t - 1) % 28 < 28 := by omega
    rw [if_neg hhalf, if_neg hhalf, if_neg hout]
    omega

theorem rotIndex_lt (n t : ℕ) : rotIndex n t < 56 := by
  unfold rotIndex
  split <;> omega

/-- A key word whose halves are those of `x` rotated by `n`. -/
def Rotated (x : QWord) (n : ℕ) (CDn : QWord) : Prop := ∀ t < 56, CDn.getLsbD t = x.getLsbD (rotIndex n t)

theorem Rotated.shift {x CDn : QWord} {n : ℕ} (h : Rotated x n CDn) (hn : n < 28) : Rotated x (n + 1) (keyShiftLeft CDn) := by
  intro t ht
  rw [keyShiftLeft_bit CDn ht, h _ (rotIndex_lt 1 t), rotIndex_rotIndex hn]

/-- The rotation of the key before round `n`. -/
def rotation (n : ℕ) : ℕ := (0 :: totrot).getD n 0

/-- A turn of `gen_roundkeys`. -/
def keyTurn (i : ℕ) (s : KeyGen) : KeyGen :=
  let CDn := keyShiftLeft s.CDn
  let CDn := if 1 < i ∧ i ≠ 8 ∧ i ≠ 15 then keyShiftLeft CDn else CDn
  ⟨CDn, s.K ++ [shuffle CDn PC2_shuffle]⟩

theorem keyTurn_rotated {x : QWord} {n : ℕ} (hn : n < 16) {s : KeyGen} (h : Rotated x (rotation n) s.CDn) :
    Rotated x (rotation (n + 1)) (keyTurn n s).CDn := by
  have hstep : ∀ n < 16, rotation n < 28 ∧ (1 < n ∧ n ≠ 8 ∧ n ≠ 15 → rotation n + 1 < 28) ∧
      rotation (n + 1) = if 1 < n ∧ n ≠ 8 ∧ n ≠ 15 then rotation n + 1 + 1 else rotation n + 1 := by decide
  obtain ⟨hlt, hlt', hnext⟩ := hstep n hn
  have hone := h.shift hlt
  unfold keyTurn
  simp only
  rw [hnext]
  by_cases htwice : 1 < n ∧ n ≠ 8 ∧ n ≠ 15
  · rw [if_pos htwice, if_pos htwice]
    exact hone.shift (hlt' htwice)
  · rw [if_neg htwice, if_neg htwice]
    exact hone

theorem genRoundkeys_rotated (key : QWord) : ∀ i < 16, ∃ CDn, Rotated (shuffle key PC1_shuffle) (rotation (i + 1)) CDn ∧
    (genRoundkeys key).getD i 0 = shuffle CDn PC2_shuffle := by
  have hstart : Rotated (shuffle key PC1_shuffle) (rotation 0) (shuffle key PC1_shuffle) := by
    intro t ht
    have hindex : rotIndex (rotation 0) t = t := by
      show rotIndex 0 t = t
      unfold rotIndex
      split <;> omega
    rw [hindex]
  have hrun := forRange_inv (f := keyTurn) (s := ⟨shuffle key PC1_shuffle, []⟩)
    (P := fun n (s : KeyGen) => Rotated (shuffle key PC1_shuffle) (rotation n) s.CDn ∧ s.K.length = n ∧
      ∀ i < n, ∃ CDn, Rotated (shuffle key PC1_shuffle) (rotation (i + 1)) CDn ∧ s.K.getD i 0 = shuffle CDn PC2_shuffle)
    (Nat.zero_le 16) ⟨hstart, rfl, fun i hi => absurd hi (Nat.not_lt_zero i)⟩ ?_
  · exact hrun.2.2
  · rintro n s _ hn ⟨hrot, hlen, hkeys⟩
    have hnext := keyTurn_rotated hn hrot
    have hK : (keyTurn n s).K = s.K ++ [shuffle (keyTurn n s).CDn PC2_shuffle] := rfl
    refine ⟨hnext, ?_, fun i hi => ?_⟩
    · rw [hK, List.length_append, hlen, List.length_singleton]
    · by_cases hlast : i = n
      · refine ⟨(keyTurn n s).CDn, ?_, ?_⟩
        · rw [hlast]
          exact hnext
        · rw [hK, List.getD_append_right _ _ _ _ (by omega), hlast, hlen, Nat.sub_self, List.getD_cons_zero]
      · obtain ⟨CDn, hCDn, hget⟩ := hkeys i (by omega)
        refine ⟨CDn, hCDn, ?_⟩
        rw [hK, List.getD_append _ _ _ _ (by omega), hget]

/-- The bit of the key that a bit of a round key is. -/
def roundKeyIndex (i q : ℕ) : ℕ :=
  PC1_shuffle.reverse.getD (rotIndex (rotation (i + 1)) (PC2_shuffle.reverse.getD q 0)) 0

theorem roundKey_bit (key : QWord) {i q : ℕ} (hi : i < 16) (hq : q < 48) :
    ((genRoundkeys key).getD i 0).getLsbD q = key.getLsbD (roundKeyIndex i q) := by
  have hlen1 : PC1_shuffle.length = 56 := by decide
  have hlen2 : PC2_shuffle.length = 48 := by decide
  have htable : ∀ q < 48, PC2_shuffle.reverse.getD q 0 < 56 := by decide
  obtain ⟨CDn, hCDn, hkey⟩ := genRoundkeys_rotated key i hi
  have hlt := rotIndex_lt (rotation (i + 1)) (PC2_shuffle.reverse.getD q 0)
  rw [hkey, getLsbD_shuffle CDn PC2_shuffle (by omega) (by omega), hCDn _ (htable q hq),
    getLsbD_shuffle key PC1_shuffle (by omega) (by omega)]
  rfl

theorem rawWord_bit (key : List Byte) (i off : ℕ) {p : ℕ} (hp : p < 24)
    (hplace : rotatedBit i (pc2.getD (23 - p + off) 0) < 56) :
    (rawWord key i off).getLsbD p =
      (readBlock key 0).getLsbD (63 - pc1.getD (rotatedBit i (pc2.getD (23 - p + off) 0)) 0) := by
  unfold rawWord
  rw [bigbytes_bit (fun j => keyBit key (rotatedBit i (pc2.getD (j + off) 0)) ≠ 0) hp, Bool.eq_iff_iff, decide_eq_true_iff]
  exact keyBit_iff key hplace

/-- The raw words of a round hold the bits of its round key. -/
theorem rawWords_roundKey (key : List Byte) {i : ℕ} (hi : i < 16) :
    RawWords (rawKey key (2 * i)) (rawKey key (2 * i + 1)) ((genRoundkeys (readBlock key 0)).getD i 0) := by
  -- the raw word from `off` holds the bits from `24 - off` of the round key
  have hindices : ∀ off ∈ [0, 24], ∀ i < 16, ∀ p < 24, rotatedBit i (pc2.getD (23 - p + off) 0) < 56 ∧
      63 - pc1.getD (rotatedBit i (pc2.getD (23 - p + off) 0)) 0 = roundKeyIndex i (24 - off + p) := by
    decide
  have hmod : ¬ (2 * i + 1) % 2 = 0 := by omega
  have hdiv : (2 * i + 1) / 2 = i := by omega
  have heven : rawKey key (2 * i) = rawWord key i 0 := by
    rw [rawKey, if_pos (Nat.mul_mod_right 2 i), Nat.mul_div_cancel_left i (by decide)]
  have hodd : rawKey key (2 * i + 1) = rawWord key i 24 := by rw [rawKey, if_neg hmod, hdiv]
  rw [heven, hodd]
  refine ⟨fun p hp => ?_, fun p hp => ?_⟩
  · obtain ⟨hplace, hindex⟩ := hindices 0 (by decide) i hi p hp
    rw [rawWord_bit key i 0 hp hplace, hindex, roundKey_bit _ hi (by omega)]
  · obtain ⟨hplace, hindex⟩ := hindices 24 (by decide) i hi p hp
    rw [Nat.sub_self, Nat.zero_add] at hindex
    rw [rawWord_bit key i 24 hp hplace, hindex, roundKey_bit _ hi (by omega)]

/-! ## Whole blocks -/

/-- The halves exchanged, and something added to the lower one. -/
theorem high_exchanged (x : QWord) (f : DWord) : high (swapHalves x ^^^ f.setWidth 64) = low x := by
  apply BitVec.eq_of_getLsbD_eq
  intro i hi
  have hout : f.getLsbD (32 + i) = false := BitVec.getLsbD_of_ge _ _ (by omega)
  have hno : ¬ 32 + i < 32 := by omega
  unfold high low
  rw [BitVec.getLsbD_setWidth, BitVec.getLsbD_ushiftRight, BitVec.getLsbD_xor, getLsbD_swapHalves _ (by omega),
    if_neg hno, Nat.add_sub_cancel_left, BitVec.getLsbD_setWidth, hout, BitVec.getLsbD_setWidth]
  simp

theorem low_exchanged (x : QWord) (f : DWord) : low (swapHalves x ^^^ f.setWidth 64) = high x ^^^ f := by
  apply BitVec.eq_of_getLsbD_eq
  intro i hi
  have h64 : i < 64 := by omega
  unfold high low
  rw [BitVec.getLsbD_setWidth, BitVec.getLsbD_xor, getLsbD_swapHalves _ h64, if_pos hi, BitVec.getLsbD_setWidth,
    BitVec.getLsbD_xor, BitVec.getLsbD_setWidth, BitVec.getLsbD_ushiftRight, Nat.add_comm 32 i]
  simp [hi, h64]

theorem high_desRound (k x : QWord) : high (LicenseLib.desRound k x) = low x := high_exchanged ..

theorem low_desRound (k x : QWord) : low (LicenseLib.desRound k x) = high x ^^^ fFunc (low x) k := low_exchanged ..

theorem halfRound_eq (key : List Byte) {i : ℕ} (hi : i < 16) (x : QWord) :
    halfRound (standardRound key i) (rotatedHalves x) =
      rotatedHalves (LicenseLib.desRound ((genRoundkeys (readBlock key 0)).getD i 0) x) := by
  have hround := standardFval_eq (rawWords_roundKey key hi) (low x)
  have hxor := rotl_linear (high x) (fFunc (low x) ((genRoundkeys (readBlock key 0)).getD i 0))
  unfold halfRound rotatedHalves standardRound
  simp only
  rw [hround, high_desRound, low_desRound]
  exact congrArg (Prod.mk _) hxor.symm

/-- The block function without the slips is that of LicenseLib. -/
theorem standardDesfunc_eq (key : List Byte) (x : QWord) :
    standardDesfunc key (high x, low x) =
      (high (desEncdec x (genRoundkeys (readBlock key 0)) false), low (desEncdec x (genRoundkeys (readBlock key 0)) false)) := by
  have hrounds := forRange_rel (f := fun i => halfRound (standardRound key i))
    (g := fun i x => LicenseLib.desRound ((genRoundkeys (readBlock key 0)).getD (0 ^^^ i) 0) x)
    (s := initialNet (high x, low x)) (t := shuffle x IP_shuffle)
    (fun _ s y => s = rotatedHalves y) (Nat.zero_le 16) (initialNet_eq x) fun i s y _ hi hs => by
      rw [hs, halfRound_eq key hi, Nat.zero_xor]
  unfold standardDesfunc standardHalves
  rw [hrounds, finalNet_eq]
  rfl

theorem high_blockByte (x : QWord) {k : ℕ} (hk : k < 4) : (high x >>> (24 - 8 * k)).setWidth 8 = blockByte x k := by
  apply BitVec.eq_of_getLsbD_eq
  intro j hj
  have hlt : 24 - 8 * k + j < 32 := by omega
  have hindex : 32 + (24 - 8 * k + j) = 56 - 8 * k + j := by omega
  unfold high blockByte
  rw [BitVec.getLsbD_setWidth, BitVec.getLsbD_setWidth, BitVec.getLsbD_ushiftRight, BitVec.getLsbD_ushiftRight,
    BitVec.getLsbD_setWidth, BitVec.getLsbD_ushiftRight, decide_eq_true hlt, Bool.true_and, hindex]

theorem low_blockByte (x : QWord) {k : ℕ} (hk : k < 4) : (low x >>> (24 - 8 * k)).setWidth 8 = blockByte x (k + 4) := by
  apply BitVec.eq_of_getLsbD_eq
  intro j hj
  have hlt : 24 - 8 * k + j < 32 := by omega
  have hindex : 24 - 8 * k + j = 56 - 8 * (k + 4) + j := by omega
  unfold low blockByte
  rw [BitVec.getLsbD_setWidth, BitVec.getLsbD_setWidth, BitVec.getLsbD_ushiftRight, BitVec.getLsbD_ushiftRight,
    BitVec.getLsbD_setWidth, decide_eq_true hlt, Bool.true_and, hindex]

theorem desUnscrun_eq (x : QWord) {k : ℕ} (hk : k < 8) : desUnscrun (high x, low x) k = blockByte x k := by
  unfold desUnscrun
  split
  · exact high_blockByte x (by omega)
  · have hback : k - 4 + 4 = k := by omega
    rw [low_blockByte x (by omega), hback]

/-- Four bytes, the first one on top, are determined by these bytes. -/
theorem word_eq {x : DWord} {b : ℕ → Byte} (h : ∀ k < 4, (x >>> (24 - 8 * k)).setWidth 8 = b k) :
    ((b 0).setWidth 32 <<< 24) ||| ((b 1).setWidth 32 <<< 16) ||| ((b 2).setWidth 32 <<< 8) ||| (b 3).setWidth 32 = x := by
  have h0 : byteAt x 3 = b 0 := by rw [← h 0 (by decide), ← setWidth_three_byte]
  have h1 : byteAt x 2 = b 1 := by rw [← h 1 (by decide), ← setWidth_two_byte]
  have h2 : byteAt x 1 = b 2 := by rw [← h 2 (by decide), ← setWidth_one_byte]
  have h3 : byteAt x 0 = b 3 := by rw [← h 3 (by decide), ← setWidth_shiftRight]
  rw [pack_or, ← h0, ← h1, ← h2, ← h3, ofBytes_byteAt]

theorem desScrunch_eq (block : List Byte) :
    desScrunch (fun i => block.getD i 0) 0 = (high (readBlock block 0), low (readBlock block 0)) := by
  have hbyte : ∀ k < 8, blockByte (readBlock block 0) k = block.getD k 0 := by
    intro k hk
    rw [blockByte_readBlock block 0 hk, Nat.zero_add]
  refine Prod.ext ?_ ?_
  · exact word_eq (b := fun k => block.getD (0 + 0 + k) 0) fun k hk => by
      rw [high_blockByte _ hk, hbyte k (by omega), Nat.zero_add]
  · exact word_eq (b := fun k => block.getD (0 + 4 + k) 0) fun k hk => by
      rw [low_blockByte _ hk, hbyte (k + 4) (by omega), Nat.zero_add, Nat.add_comm]

/-- What `des_key` and `des_enc` make of a block. -/
theorem desEnc_block (mem : DesMemory) (dc : DesCtx) (key block : List Byte) {p : ℕ} (hp : p < 8) :
    desEnc (desKey mem dc key) 1 (fun i => block.getD i 0) p =
      desUnscrun (desDesfunc (desScrunch (fun i => block.getD i 0) 0) (scheduleWord key)) p := by
  have hkeys : AgreeBelow 32 (desKey mem dc key).ek (scheduleWord key) := fun m hm => desKey_ek mem dc key hm
  have hdiv : 8 * (p / 8) = 0 := by omega
  rw [desEnc_apply _ (by omega), hdiv, Nat.mod_eq_of_lt hp, desDesfunc_congr hkeys]

/-- The two libraries encrypt a block alike when the slips change no round of it. -/
theorem des_agree (mem : DesMemory) (dc : DesCtx) (key block : List Byte)
    (hrounds : Unaffected key (desScrunch (fun i => block.getD i 0) 0)) :
    (avDesInit key 64).map (fun d => avDesCrypt d block 1 false) =
      some ((List.range 8).map (desEnc (desKey mem dc key) 1 fun i => block.getD i 0)) := by
  have hblock : ∀ p < 8, desEnc (desKey mem dc key) 1 (fun i => block.getD i 0) p =
      blockByte (desEncdec (readBlock block 0) (genRoundkeys (readBlock key 0)) false) p := by
    intro p hp
    rw [desEnc_block mem dc key block hp, desDesfunc_of_unaffected hrounds, desScrunch_eq, standardDesfunc_eq,
      desUnscrun_eq _ hp]
  have hlist : (List.range 8).map (desEnc (desKey mem dc key) 1 fun i => block.getD i 0) =
      blockBytes (desEncdec (readBlock block 0) (genRoundkeys (readBlock key 0)) false) :=
    List.map_congr_left fun p hp => hblock p (List.mem_range.mp hp)
  rw [hlist]
  rfl

/-! ## One key of zeros -/

theorem keyBit_zeros (j : ℕ) : keyBit (List.replicate 8 0) j = 0 := by
  have hbyte : ∀ l, (List.replicate 8 (0 : Byte)).getD l 0 = 0 := by
    intro l
    rw [List.getD_eq_getElem?_getD, List.getElem?_getD_replicate_default_eq]
  unfold keyBit
  simp only [hbyte]
  simp

theorem rawKey_zeros (m : ℕ) : rawKey (List.replicate 8 0) m = 0 := by
  have hword : ∀ i off, rawWord (List.replicate 8 0) i off = 0 := by
    intro i off
    unfold rawWord
    simp only [keyBit_zeros]
    decide
  unfold rawKey
  rw [hword, hword, ite_self]

theorem scheduleWord_zeros (m : ℕ) : scheduleWord (List.replicate 8 0) m = 0#32 := by
  unfold scheduleWord
  rw [rawKey_zeros, rawKey_zeros]
  exact ite_self 0

/-- Without a key a round of the standard is the tables alone. -/
theorem standardRound_zeros (i : ℕ) :
    standardRound (List.replicate 8 0) i = fun r : DWord => standardFval ((r <<< 28) ||| (r >>> 4)) r := by
  funext r
  have h0 : cook0 0 0 = 0#32 := rfl
  have h1 : cook1 0 0 = 0#32 := rfl
  rw [standardRound, rawKey_zeros, rawKey_zeros, h0, h1, BitVec.xor_zero, BitVec.xor_zero]

theorem codeRound_zeros (i : ℕ) (r : DWord) :
    codeRound (scheduleWord (List.replicate 8 0)) i r = fval ((r <<< 28) ||| (r >>> 4)) r := by
  rw [codeRound, scheduleWord_zeros, scheduleWord_zeros, BitVec.xor_zero, BitVec.xor_zero]

/-- Memory of zeros. -/
def zeroMemory : DesMemory := ⟨fun _ => 0, fun _ => 0, fun _ => 0, fun _ => 0, fun _ => 0⟩

theorem des_agree_sample :
    (avDesInit (List.replicate 8 0) 64).map (fun d => avDesCrypt d (List.replicate 8 0) 1 false) =
      some ((List.range 8).map (desEnc (desKey zeroMemory ⟨fun _ => 0, fun _ => 0⟩ (List.replicate 8 0)) 1
        fun i => (List.replicate 8 0).getD i 0)) := by
  have hrounds : Unaffected (List.replicate 8 0) (0, 0) := by
    unfold Unaffected standardHalves
    simp only [codeRound_zeros, standardRound_zeros]
    decide
  exact des_agree zeroMemory ⟨fun _ => 0, fun _ => 0⟩ (List.replicate 8 0) (List.replicate 8 0) hrounds

def vectorKey : List Byte := [0x01, 0x23, 0x45, 0x67, 0x89, 0xab, 0xcd, 0xef]

/-- The characters `Now is t`. -/
def vectorBlock : List Byte := [0x4e, 0x6f, 0x77, 0x20, 0x69, 0x73, 0x20, 0x74]

/-- The first byte of the ciphertext is 0x3f by one library and 0x16 by the other. -/
theorem vector_differs :
    (avDesInit vectorKey 64).map (fun d => avDesCrypt d vectorBlock 1 false) ≠
      some ((List.range 8).map (desEnc (desKey zeroMemory ⟨fun _ => 0, fun _ => 0⟩ vectorKey) 1
        fun i => vectorBlock.getD i 0)) := by
  obtain ⟨hcode, hlicense⟩ : desUnscrun (desDesfunc (0x4e6f7720, 0x69732074) (scheduleWord vectorKey)) 0 = 0x16 ∧
      blockByte (desEncdec (readBlock vectorBlock 0) (genRoundkeys (readBlock vectorKey 0)) false) 0 = 0x3f := by
    decide
  have hscrunch : desScrunch (fun i => vectorBlock.getD i 0) 0 = (0x4e6f7720, 0x69732074) := by decide
  intro h
  have hlists : blockBytes (desEncdec (readBlock vectorBlock 0) (genRoundkeys (readBlock vectorKey 0)) false) =
      (List.range 8).map (desEnc (desKey zeroMemory ⟨fun _ => 0, fun _ => 0⟩ vectorKey) 1 fun i => vectorBlock.getD i 0) :=
    Option.some.inj h
  have hfirst := congrArg (fun l => l.getD 0 0) hlists
  simp only [blockBytes_getD _ (show 0 < 8 by decide), hlicense] at hfirst
  have hother : desEnc (desKey zeroMemory ⟨fun _ => 0, fun _ => 0⟩ vectorKey) 1 (fun i => vectorBlock.getD i 0) 0 = 0x16 := by
    rw [desEnc_block _ _ _ _ (by decide), hscrunch, hcode]
  exact absurd (hfirst.trans hother) (by decide)

end StarLib.DesAgreement
