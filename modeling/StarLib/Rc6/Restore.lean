import StarLib.Rc6.Cipher

/-! # RC6 undone

The rounds of `rc6_block_decrypt` undo those of `rc6_block_encrypt` with whatever is in `S`, and `SetKey` puts
into `S` a function of the key alone: what was in `L` is shifted out of every word but the last, which starts from 0.
-/

namespace StarLib.Rc6
open Foundations
set_option autoImplicit false
set_option maxHeartbeats 250000
set_option maxRecDepth 120000

/-! ## Blocks -/

theorem ROTR_ROTL (x y : DWord) : ROTR (ROTL x y) y = x := by
  have hlt : (y &&& 31).toNat < 32 := by
    rw [BitVec.toNat_and]
    exact Nat.lt_of_le_of_lt Nat.and_le_right (by decide)
  exact rotl_back x hlt

theorem decryptTurn_undo (S : ℕ → DWord) (i : ℕ) (q : Quad) : decryptTurn S i (encryptTurn S i q) = q := by
  unfold decryptTurn encryptTurn
  simp only [BitVec.add_sub_cancel, ROTR_ROTL, BitVec.xor_assoc, BitVec.xor_self, BitVec.xor_zero]

theorem decryptWords_undo (S : ℕ → DWord) (q : Quad) : decryptWords S (encryptWords S q) = q := by
  have hturns : ∀ q : Quad, forRange 0 r (fun k => decryptTurn S (2 * r - 2 * k))
      (forRange 0 r (fun k => encryptTurn S (2 * k + 2)) q) = q := by
    intro q
    refine Eq.trans (forRange_congr _ fun k s _ hk => ?_)
      (forRange_undo (g := fun k => decryptTurn S (2 * k + 2)) (fun k _ => decryptTurn_undo S (2 * k + 2)) q)
    have hindex : 2 * r - 2 * k = 2 * (r - 1 - k) + 2 := by omega
    rw [hindex]
  unfold decryptWords encryptWords
  simp only [BitVec.add_sub_cancel, hturns]

/-- The four words in memory. -/
def quad : Layout Quad :=
  (Layout.word.pair (Layout.word.pair (Layout.word.pair Layout.word))).along
    { toFun := fun q => (q.A, q.B, q.C, q.D)
      invFun := fun w => ⟨w.1, w.2.1, w.2.2.1, w.2.2.2⟩
      left_inv := fun _ => rfl
      right_inv := fun _ => rfl }

theorem readQuad_eq (mem : Ram) (p : ℕ) : readQuad mem p = quad.load mem p := rfl

theorem writeQuad_eq (p : ℕ) (q : Quad) (mem : Ram) : writeQuad p q mem = quad.store p q mem := by
  have hquad : quad.store p q mem =
      (Layout.word.pair (Layout.word.pair (Layout.word.pair Layout.word))).store p (q.A, q.B, q.C, q.D) mem := rfl
  rw [hquad, Layout.pair_store, Layout.pair_store, Layout.pair_store]
  rfl

/-! ## The key -/

/-- The number of bytes of word `q` among the last `n` of `b` bytes. -/
def taken (b q n : ℕ) : ℕ := min (4 * q + 4) b - max (4 * q) (b - n)

/-- The key bytes with zeros behind them. -/
def padded (K : ℕ → Byte) (b p : ℕ) : Byte := if p < b then K p else 0

/-- Every byte that is shifted in moves what was there up by one byte. -/
theorem keyWords_byte (L : ℕ → DWord) (K : ℕ → Byte) (b : ℕ) {q k : ℕ} (hq : q < (b + 3) / 4) (hk : k < 4) :
    byteAt (keyWords L K b q) k = if k < taken b q b then K (max (4 * q) (b - b) + k)
      else byteAt (Function.update L ((b + 3) / 4 - 1) 0 q) (k - taken b q b) := by
  refine forRange_inv (P := fun n (now : ℕ → DWord) => ∀ q < (b + 3) / 4, ∀ k < 4, byteAt (now q) k =
      if k < taken b q n then K (max (4 * q) (b - n) + k)
        else byteAt (Function.update L ((b + 3) / 4 - 1) 0 q) (k - taken b q n)) (Nat.zero_le b) ?_ ?_ q hq k hk
  · intro q _ k _
    have hnone : taken b q 0 = 0 := by
      unfold taken
      omega
    rw [hnone, if_neg (Nat.not_lt_zero k), Nat.sub_zero]
  · intro n now _ hn ih q hq k hk
    by_cases hword : q = (b - 1 - n) / 4
    · have hmore : taken b q (n + 1) = taken b q n + 1 := by
        unfold taken
        omega
      have hplace : max (4 * q) (b - (n + 1)) = b - 1 - n := by omega
      rw [← hword, Function.update_self, byteAt_shiftLeft_add _ _ hk, hmore, hplace]
      by_cases hfirst : k = 0
      · rw [hfirst, if_pos rfl, if_pos (Nat.succ_pos _), Nat.add_zero]
      · have hold : max (4 * q) (b - n) + (k - 1) = b - 1 - n + k := by omega
        have hrest : k - 1 - taken b q n = k - (taken b q n + 1) := by omega
        have hiff : k - 1 < taken b q n ↔ k < taken b q n + 1 := by omega
        rw [if_neg hfirst, ih q hq (k - 1) (by omega), hold, hrest]
        simp only [hiff]
    · rw [Function.update_of_ne hword, ih q hq k hk]
      by_cases hlater : q < (b - 1 - n) / 4
      · have hnone : taken b q n = 0 ∧ taken b q (n + 1) = 0 := by
          unfold taken
          omega
        rw [hnone.1, hnone.2, if_neg (Nat.not_lt_zero k), if_neg (Nat.not_lt_zero k)]
      · have hsame : taken b q (n + 1) = taken b q n := by
          unfold taken
          omega
        have hplace : max (4 * q) (b - (n + 1)) = max (4 * q) (b - n) := by omega
        rw [hsame, hplace]

/-- Before the mixing `L` holds the words of the key. -/
theorem keyWords_eq (L : ℕ → DWord) (K : ℕ → Byte) (b : ℕ) :
    AgreeBelow ((b + 3) / 4) (keyWords L K b) (wordAt (padded K b)) := by
  intro q hq
  refine eq_wordAt fun k hk => ?_
  have hplace : max (4 * q) (b - b) + k = 4 * q + k := by omega
  rw [keyWords_byte L K b hq hk, hplace, padded]
  by_cases hin : 4 * q + k < b
  · have htaken : k < taken b q b := by
      unfold taken
      omega
    rw [if_pos htaken, if_pos hin]
  · have htaken : ¬ k < taken b q b := by
      unfold taken
      omega
    have hlast : q = (b + 3) / 4 - 1 := by omega
    rw [if_neg htaken, if_neg hin, ← hlast, Function.update_self]
    simp [byteAt]

theorem keyWords_agree {K K' : ℕ → Byte} {b : ℕ} (hK : AgreeBelow b K K') (L L' : ℕ → DWord) :
    AgreeBelow ((b + 3) / 4) (keyWords L K b) (keyWords L' K' b) := by
  have hpadded : padded K b = padded K' b := by
    funext p
    unfold padded
    split
    · next hp => exact hK p hp
    · rfl
  intro q hq
  rw [keyWords_eq L K b q hq, keyWords_eq L' K' b q hq, hpadded]

theorem initialS_agree (S S' : ℕ → DWord) : AgreeBelow R24 (initialS S) (initialS S') := by
  refine AgreeBelow.forRange_push ((AgreeBelow.zero S S').push P32) (by decide) fun i a b h1 _ hab => ?_
  rw [hab (i - 1) (by omega)]

/-- Two runs of the mixing loop that differ past the words in use at most. -/
structure SameMix (c : ℕ) (s t : Mix) : Prop where
  A : s.A = t.A
  B : s.B = t.B
  i : s.i = t.i
  j : s.j = t.j
  i_lt : s.i < R24
  j_lt : s.j < c
  L : AgreeBelow c s.L t.L
  S : AgreeBelow R24 s.S t.S

theorem SameMix.turn {c : ℕ} (hc : 0 < c) {s t : Mix} (h : SameMix c s t) : SameMix c (mixTurn c s) (mixTurn c t) := by
  have hS := h.S s.i h.i_lt
  have hL := h.L s.j h.j_lt
  unfold mixTurn
  rw [← h.i, ← h.j, ← h.A, ← h.B, ← hS, ← hL]
  exact ⟨rfl, rfl, rfl, rfl, Nat.mod_lt _ (by decide), Nat.mod_lt _ hc, h.L.update _ _, h.S.update _ _⟩

/-- `SetKey` puts a function of the key bytes into `S`, whatever was on the stack and in `S`. -/
theorem rc6KeySetup_agree (S S' L L' : ℕ → DWord) {K K' : ℕ → Byte} {b : ℕ} (hb : 1 ≤ b) (hK : AgreeBelow b K K') :
    AgreeBelow R24 (rc6KeySetup S L K b) (rc6KeySetup S' L' K' b) := by
  have hc : 0 < (b + 3) / 4 := by omega
  have hstart : SameMix ((b + 3) / 4) ⟨0, 0, 0, 0, initialS S, keyWords L K b⟩ ⟨0, 0, 0, 0, initialS S', keyWords L' K' b⟩ :=
    ⟨rfl, rfl, rfl, rfl, (by decide : 0 < R24), hc, keyWords_agree hK L L', initialS_agree S S'⟩
  unfold rc6KeySetup
  exact (forRange_rel (fun _ => SameMix ((b + 3) / 4)) (Nat.zero_le _) hstart fun _ _ _ _ _ h => h.turn hc).S

/-- Keys with the same bytes give one schedule whatever `L` held, which holds the words of the key when the mixing starts. -/
theorem rc6KeySetup_determined (S S' L L' : ℕ → DWord) {K K' : ℕ → Byte} {b : ℕ} (hb : 1 ≤ b) (hK : AgreeBelow b K K') :
    AgreeBelow R24 (rc6KeySetup S L K b) (rc6KeySetup S' L' K' b) ∧
      AgreeBelow ((b + 3) / 4) (keyWords L K b) (wordAt (padded K b)) :=
  ⟨rc6KeySetup_agree S S' L L' hb hK, keyWords_eq L K b⟩

/-- Seven bytes, with other bytes behind them. -/
theorem rc6KeySetup_determined_sample :
    AgreeBelow R24 (rc6KeySetup (fun _ => 0) (fun _ => 0) (fun _ => 7) 7)
        (rc6KeySetup (fun _ => 1) (fun _ => 2) (fun p => if p < 7 then 7 else 9) 7) ∧
      AgreeBelow ((7 + 3) / 4) (keyWords (fun _ => 0) (fun _ => 7) 7) (wordAt (padded (fun _ => 7) 7)) :=
  rc6KeySetup_determined (fun _ => 0) (fun _ => 1) (fun _ => 0) (fun _ => 2) (by decide) fun _ hp => (if_pos hp).symm

/-- The rounds read no word of `S` past the last one. -/
theorem decryptWords_congr {S S' : ℕ → DWord} (h : AgreeBelow R24 S S') (q : Quad) :
    decryptWords S q = decryptWords S' q := by
  have hR24 : R24 = 44 := rfl
  have hr : r = 20 := rfl
  rw [hR24] at h
  have hturns : ∀ q : Quad, forRange 0 r (fun k => decryptTurn S (2 * r - 2 * k)) q =
      forRange 0 r (fun k => decryptTurn S' (2 * r - 2 * k)) q := by
    intro q
    refine forRange_congr q fun k s _ hk => ?_
    unfold decryptTurn
    rw [h (2 * r - 2 * k) (by omega), h (2 * r - 2 * k + 1) (by omega)]
  unfold decryptWords
  simp only [hturns]
  rw [h 0 (by omega), h 1 (by omega), h (2 * r + 2) (by omega), h (2 * r + 3) (by omega)]

/-! ## Buffers -/

theorem maskRest_eq (pIn pOut n : ℕ) (mem : Ram) :
    maskRest pIn pOut n mem = Layout.ofByte.mapBlocks (· ^^^ 0x9e) pOut pIn n mem :=
  Layout.mapBytes_eq (· ^^^ 0x9e) pOut pIn n mem

theorem encode_eq (S : ℕ → DWord) (pIn pOut nSize : ℕ) (mem : Ram) :
    encode S pIn pOut nSize mem = quad.mapBuffer (encryptWords S) (· ^^^ 0x9e) pOut pIn nSize mem := by
  have hsize : quad.size = 16 := rfl
  unfold encode Layout.mapBuffer Layout.mapBlocks rc6BlockEncrypt
  simp only [maskRest_eq, readQuad_eq, writeQuad_eq, hsize, Nat.mul_comm _ 16]
  rfl

theorem decode_eq (S : ℕ → DWord) (pIn pOut nSize : ℕ) (mem : Ram) :
    decode S pIn pOut nSize mem = quad.mapBuffer (decryptWords S) (· ^^^ 0x9e) pOut pIn nSize mem := by
  have hsize : quad.size = 16 := rfl
  unfold decode Layout.mapBuffer Layout.mapBlocks rc6BlockDecrypt
  simp only [maskRest_eq, readQuad_eq, writeQuad_eq, hsize, Nat.mul_comm _ 16]
  rfl

/-- A ciphertext decoded after `SetKey` with the same key, wherever it lies and whatever `S` and the stack held. -/
theorem decode_restores {b : ℕ} (hb : b ∈ [16, 24, 32]) (K : ℕ → Byte) (S S' L L' : ℕ → DWord) {nSize pIn pOut pIn' pOut' : ℕ}
    (h : Layout.SameOrApart pOut pIn nSize) (h' : Layout.SameOrApart pOut' pIn' nSize) {mem mem' : Ram}
    (hcopy : ∀ p < nSize, mem' (pIn' + p) = encode (rc6KeySetup S L K b) pIn pOut nSize mem (pOut + p)) {p : ℕ}
    (hp : p < nSize) : decode (rc6KeySetup S' L' K b) pIn' pOut' nSize mem' (pOut' + p) = mem (pIn + p) := by
  have hpos : 1 ≤ b := by
    simp only [List.mem_cons, List.not_mem_nil, or_false] at hb
    omega
  have hundo : ∀ q, decryptWords (rc6KeySetup S' L' K b) (encryptWords (rc6KeySetup S L K b) q) = q := by
    intro q
    rw [decryptWords_congr (rc6KeySetup_agree S' S L' L hpos (AgreeBelow.refl b K)), decryptWords_undo]
  have hmask : ∀ x : Byte, x ^^^ 0x9e ^^^ 0x9e = x := by
    intro x
    rw [BitVec.xor_assoc, BitVec.xor_self, BitVec.xor_zero]
  simp only [encode_eq] at hcopy
  rw [decode_eq]
  exact quad.mapBuffer_restore hundo hmask h h' hcopy hp

/-- The address of every byte, and seven times it. -/
def places : Ram := fun p => BitVec.ofNat 8 p

def sevens : ℕ → Byte := fun i => BitVec.ofNat 8 (7 * i)

/-- 37 bytes, encoded in place and decoded into a buffer behind them, with other words on the stack. -/
theorem decode_restores_sample :
    decode (rc6KeySetup (fun _ => 1) (fun _ => 2) sevens 24) 100 200 37
      (encode (rc6KeySetup (fun _ => 0) (fun _ => 0) sevens 24) 100 100 37 places) (200 + 36) = places (100 + 36) :=
  decode_restores (b := 24) (by decide) sevens (fun _ => 0) (fun _ => 1) (fun _ => 0) (fun _ => 2)
    (Or.inl rfl) (Or.inr (Or.inr (by decide))) (fun _ _ => rfl) (by decide)

end StarLib.Rc6
