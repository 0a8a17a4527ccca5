import StarLib.Des.Block

/-! # `Des_Go` undone by `Des_Go`

The sub-keys that `SetKey` writes depend on the key alone. With them `Des_Go` puts `goBlock` of every block of
the input in its place in the output, whether the output is the input or apart from it, and the run in the
other direction takes it back. What earlier calls left in the static objects has no part in it.
-/

namespace StarLib.Des
open Foundations
set_option autoImplicit false
set_option maxHeartbeats 250000
set_option maxRecDepth 120000

variable {n : ℕ}

/-! ## Sub-keys -/

/-- Static objects with nothing in them. -/
def blank : Statics :=
  { SubKey := fun _ _ => 0, Is3DES := false, Tmp := 0, deskey := fun _ => 0, M := 0, tmp := 0, K := 0, MR := 0 }

/-- The sub-keys of an eight byte key. -/
def keysOf (Key : ℕ → Byte) : ℕ → BitVec 48 := (setSubKey blank 0 Key).SubKey 0

theorem getLsbD_rotateL (Tmp : BitVec 256) (In : BitVec n) (off len : ℕ) {loop j : ℕ} (hloop : loop ≤ 256) (hj : j < n) :
    (rotateL Tmp In off len loop).2.getLsbD j =
      if off + len - loop ≤ j ∧ j < off + len - loop + loop then In.getLsbD (off + (j - (off + len - loop)))
      else if off ≤ j ∧ j < off + (len - loop) then In.getLsbD (off + loop + (j - off)) else In.getLsbD j := by
  show (fillBits _ _ _ _).getLsbD j = _
  rw [getLsbD_fillBits _ _ _ _ hj, getLsbD_fillBits _ _ _ _ hj]
  by_cases hlast : off + len - loop ≤ j ∧ j < off + len - loop + loop
  · rw [if_pos hlast, if_pos hlast, getLsbD_fillBits _ _ _ _ (by omega), if_pos (by omega), Nat.sub_zero]
  · rw [if_neg hlast, if_neg hlast]

theorem rotateL_snd (Tmp Tmp' : BitVec 256) (In : BitVec n) (off len : ℕ) {loop : ℕ} (hloop : loop ≤ 256) :
    (rotateL Tmp In off len loop).2 = (rotateL Tmp' In off len loop).2 := by
  apply BitVec.eq_of_getLsbD_eq
  intro j hj
  rw [getLsbD_rotateL _ _ _ _ hloop hj, getLsbD_rotateL _ _ _ _ hloop hj]

theorem LOOP_le (i : ℕ) (hi : i < 16) : LOOP_Table.getD i 0 ≤ 256 := by
  have h : ∀ i < 16, LOOP_Table.getD i 0 ≤ 256 := by decide
  exact h i hi

theorem transform_PC1 (Tmp Tmp' : BitVec 256) (K : BitVec 64) :
    (transform Tmp K K PC1_Table 56).2 = (transform Tmp' K K PC1_Table 56).2 := by
  apply BitVec.eq_of_getLsbD_eq
  intro j hj
  rw [getLsbD_transform _ _ _ _ (by omega) hj, getLsbD_transform _ _ _ _ (by omega) hj]

/-- Runs of `SetSubKey` for one key, whatever was in the static objects. -/
theorem setSubKey_rel (s t : Statics) (which which' : ℕ) {Key Key' : ℕ → Byte} (hkey : ∀ i < 8, Key i = Key' i) :
    ∀ i < 16, (setSubKey s which Key).SubKey which i = (setSubKey t which' Key').SubKey which' i := by
  have hK : byteToBit s.K Key 64 = byteToBit t.K Key' 64 := by
    rw [byteToBit_eq, byteToBit_eq, blockOf_congr hkey]
  refine (forRange_rel
    (fun i (s t : Statics) => s.K = t.K ∧ ∀ j < i, s.SubKey which j = t.SubKey which' j) (Nat.zero_le 16) ?_ ?_).2
  · refine ⟨?_, fun j hj => absurd hj (Nat.not_lt_zero j)⟩
    show (transform s.Tmp _ _ PC1_Table 56).2 = (transform t.Tmp _ _ PC1_Table 56).2
    rw [hK, transform_PC1]
  · intro i s t _ hi hst
    obtain ⟨hK, hkeys⟩ := hst
    have hK' : (subKeyTurn which i s).K = (subKeyTurn which' i t).K := by
      show (rotateL _ (rotateL s.Tmp s.K 0 28 _).2 28 28 _).2 = (rotateL _ (rotateL t.Tmp t.K 0 28 _).2 28 28 _).2
      rw [hK, rotateL_snd s.Tmp t.Tmp _ _ _ (LOOP_le i hi), rotateL_snd _ _ _ _ _ (LOOP_le i hi)]
    refine ⟨hK', fun j hj => ?_⟩
    show Function.update s.SubKey which _ which j = Function.update t.SubKey which' _ which' j
    rw [Function.update_self, Function.update_self]
    by_cases hji : j = i
    · rw [hji, Function.update_self, Function.update_self, transform_snd _ _ _ _ (by omega),
        transform_snd _ _ _ _ (by omega)]
      exact congrArg (fun K => permuted 48 K PC2_Table) hK'
    · rw [Function.update_of_ne hji, Function.update_of_ne hji, hkeys j (by omega)]

theorem setSubKey_keys (s : Statics) (which : ℕ) {Key Key' : ℕ → Byte} (hkey : ∀ i < 8, Key i = Key' i) {i : ℕ}
    (hi : i < 16) : (setSubKey s which Key).SubKey which i = keysOf Key' i :=
  setSubKey_rel s blank which 0 hkey i hi

theorem setSubKey_other (s : Statics) {which which' : ℕ} (hne : which' ≠ which) (Key : ℕ → Byte) :
    (setSubKey s which Key).SubKey which' = s.SubKey which' := by
  refine forRange_inv (P := fun _ (t : Statics) => t.SubKey which' = s.SubKey which') (Nat.zero_le 16) rfl ?_
  intro i t _ _ ht
  show Function.update t.SubKey which _ which' = _
  rw [Function.update_of_ne hne, ht]

/-- The sixteen bytes that `SetKey` takes its keys from. -/
def deskeyOf (Key : ℕ → Byte) (len : ℕ) (i : ℕ) : Byte := if i < len then Key i else 0

theorem deskey_eq (Key old : ℕ → Byte) (len : ℕ) {i : ℕ} (hi : i < 16) :
    fill (if 16 < len then 16 else len) Key (fill 16 (fun _ => 0) old) i = deskeyOf Key len i := by
  have hiff : i < (if 16 < len then 16 else len) ↔ i < len := by
    split <;> omega
  unfold deskeyOf
  rw [fill_apply, fill_apply_of_lt hi]
  simp only [hiff]

/-- The static objects after `SetKey`, whatever they were. -/
structure KeySet (s : Statics) (Key : ℕ → Byte) (len : ℕ) : Prop where
  triple : s.Is3DES = decide (8 < len)
  first : ∀ i < 16, s.SubKey 0 i = keysOf (deskeyOf Key len) i
  second : 8 < len → ∀ i < 16, s.SubKey 1 i = keysOf (fun i => deskeyOf Key len (8 + i)) i

theorem setKey_spec (s : Statics) (Key : ℕ → Byte) (len : ℕ) : KeySet (setKey s Key len) Key len := by
  unfold setKey
  dsimp only
  generalize hdeskey : fill (if 16 < len then 16 else len) Key (fill 16 (fun _ => 0) s.deskey) = deskey
  have hbytes : ∀ i < 16, deskey i = deskeyOf Key len i := by
    intro i hi
    rw [← hdeskey, deskey_eq _ _ _ hi]
  generalize hfirst : setSubKey { s with deskey := deskey } 0 deskey = s₀
  have hkeys : ∀ i < 16, s₀.SubKey 0 i = keysOf (deskeyOf Key len) i := by
    intro i hi
    rw [← hfirst, setSubKey_keys _ 0 (fun i hi => hbytes i (by omega)) hi]
  by_cases hlen : 8 < len
  · generalize hsecond : setSubKey s₀ 1 (fun i => deskey (8 + i)) = s₁
    rw [if_pos hlen]
    refine ⟨(decide_eq_true hlen).symm, fun i hi => ?_, fun _ i hi => ?_⟩
    · show s₁.SubKey 0 i = _
      rw [← hsecond, setSubKey_other _ (by decide), hkeys i hi]
    · show s₁.SubKey 1 i = _
      rw [← hsecond, setSubKey_keys _ 1 (fun i hi => hbytes (8 + i) (by omega)) hi]
  · rw [if_neg hlen]
    exact ⟨(decide_eq_false hlen).symm, hkeys, fun h => absurd h hlen⟩

/-! ## What becomes of a block -/

/-- What `Des_Go` makes of a block. -/
def goBlock (Key : ℕ → Byte) (len : ℕ) (type : Bool) (M : BitVec 64) : BitVec 64 :=
  if 8 < len then
    desBits (keysOf (deskeyOf Key len)) type (desBits (keysOf fun i => deskeyOf Key len (8 + i)) (!type)
      (desBits (keysOf (deskeyOf Key len)) type M))
  else desBits (keysOf (deskeyOf Key len)) type M

theorem goBlock_undo (Key : ℕ → Byte) (len : ℕ) (type : Bool) (M : BitVec 64) :
    goBlock Key len (!type) (goBlock Key len type M) = M := by
  unfold goBlock
  by_cases hlen : 8 < len
  · rw [if_pos hlen, if_pos hlen, desBits_undo, desBits_undo, desBits_undo]
  · rw [if_neg hlen, if_neg hlen, desBits_undo]

/-! ## Blocks of memory -/

def blockAt (mem : Memory) (a : ℕ) : BitVec 64 := blockOf fun i => mem (a + i)

def writeBlock (a : ℕ) (M : BitVec 64) (mem : Memory) : Memory := fillAt a 8 (blockByte M) mem

theorem writeBlock_at (a : ℕ) (M : BitVec 64) (mem : Memory) : blockAt (writeBlock a M mem) a = M := by
  unfold blockAt writeBlock
  refine Eq.trans (blockOf_congr fun i hi => ?_) (blockOf_blockByte M)
  have hin : a ≤ a + i ∧ a + i < a + 8 := by omega
  rw [fillAt_apply, if_pos hin, Nat.add_sub_cancel_left]

theorem writeBlock_apart {a b : ℕ} (h : a + 8 ≤ b ∨ b + 8 ≤ a) (M : BitVec 64) (mem : Memory) :
    blockAt (writeBlock a M mem) b = blockAt mem b := by
  refine blockOf_congr fun i hi => ?_
  have hout : ¬ (a ≤ b + i ∧ b + i < a + 8) := by omega
  unfold writeBlock
  rw [fillAt_apply, if_neg hout]

theorem writeBlock_writeBlock (a : ℕ) (M N : BitVec 64) (mem : Memory) :
    writeBlock a M (writeBlock a N mem) = writeBlock a M mem := by
  funext p
  unfold writeBlock
  rw [fillAt_apply, fillAt_apply, fillAt_apply]
  split <;> rfl

theorem blockByte_blockAt (mem : Memory) (a : ℕ) {b : ℕ} (hb : b < 8) : blockByte (blockAt mem a) b = mem (a + b) :=
  blockByte_blockOf _ hb

/-- `DES` on memory. -/
theorem desAt_spec (r : DesRun) (Out In which : ℕ) (type : Bool) :
    (desAt r Out In which type).mem = writeBlock Out (desBits (r.s.SubKey which) type (blockAt r.mem In)) r.mem ∧
      (desAt r Out In which type).s.SubKey = r.s.SubKey := by
  obtain ⟨hbytes, hkeys, -⟩ := des_spec r.s (fun i => r.mem (Out + i)) (fun i => r.mem (In + i)) which type
  refine ⟨?_, hkeys⟩
  funext p
  show fillAt Out 8 _ r.mem p = fillAt Out 8 _ r.mem p
  rw [fillAt_apply, fillAt_apply]
  by_cases hp : Out ≤ p ∧ p < Out + 8
  · rw [if_pos hp, if_pos hp, hbytes (p - Out) (by omega)]
    rfl
  · rw [if_neg hp, if_neg hp]

/-! ## The loop over the blocks -/

/-- `f` of every block, put in its place in the output. -/
def mapBlocks (f : BitVec 64 → BitVec 64) (Out In n : ℕ) (mem : Memory) : Memory :=
  forRange 0 n (fun i mem => writeBlock (Out + 8 * i) (f (blockAt mem (In + 8 * i))) mem) mem

/-- The output of `n` blocks is the input, or apart from it. -/
def SameOrApart (Out In n : ℕ) : Prop := Out = In ∨ Out + 8 * n ≤ In ∨ In + 8 * n ≤ Out

theorem mapBlocks_at (f : BitVec 64 → BitVec 64) {Out In n : ℕ} (h : SameOrApart Out In n) (mem : Memory) {i : ℕ}
    (hi : i < n) : blockAt (mapBlocks f Out In n mem) (Out + 8 * i) = f (blockAt mem (In + 8 * i)) := by
  unfold SameOrApart at h
  refine (forRange_inv (P := fun k (now : Memory) =>
      (∀ i < k, blockAt now (Out + 8 * i) = f (blockAt mem (In + 8 * i))) ∧
      ∀ i < n, k ≤ i → blockAt now (In + 8 * i) = blockAt mem (In + 8 * i)) (Nat.zero_le n) ?_ ?_).1 i hi
  · exact ⟨fun i hi => absurd hi (Nat.not_lt_zero i), fun _ _ _ => rfl⟩
  · intro k now _ hk hnow
    obtain ⟨hdone, htodo⟩ := hnow
    refine ⟨fun i hi => ?_, fun i hi hki => ?_⟩
    · by_cases hik : i = k
      · rw [hik, writeBlock_at, htodo k hk (Nat.le_refl k)]
      · rw [writeBlock_apart (by omega), hdone i (by omega)]
    · rw [writeBlock_apart (by omega), htodo i hi (by omega)]

theorem single_turn (r : DesRun) (Out In : ℕ) {Key : ℕ → Byte} {len : ℕ} (type : Bool) (hkeys : KeySet r.s Key len)
    (hlen : ¬ 8 < len) :
    (desAt r Out In 0 type).mem = writeBlock Out (goBlock Key len type (blockAt r.mem In)) r.mem := by
  unfold goBlock
  rw [if_neg hlen, (desAt_spec r Out In 0 type).1, desBits_congr hkeys.first]

/-- The three calls of a turn, the last two of which work on the output. -/
theorem triple_turn (r : DesRun) (Out In : ℕ) {Key : ℕ → Byte} {len : ℕ} (type : Bool) (hkeys : KeySet r.s Key len)
    (hlen : 8 < len) :
    let r' := desAt (desAt (desAt r Out In 0 type) Out Out 1 !type) Out Out 0 type
    r'.mem = writeBlock Out (goBlock Key len type (blockAt r.mem In)) r.mem ∧ r'.s.SubKey = r.s.SubKey := by
  obtain ⟨hmem1, hkeys1⟩ := desAt_spec r Out In 0 type
  obtain ⟨hmem2, hkeys2⟩ := desAt_spec (desAt r Out In 0 type) Out Out 1 !type
  obtain ⟨hmem3, hkeys3⟩ := desAt_spec (desAt (desAt r Out In 0 type) Out Out 1 !type) Out Out 0 type
  rw [hkeys1] at hmem2 hkeys2
  rw [hkeys2] at hmem3 hkeys3
  refine ⟨?_, hkeys3⟩
  unfold goBlock
  rw [if_pos hlen, hmem3, hmem2, hmem1, writeBlock_at, writeBlock_at, writeBlock_writeBlock, writeBlock_writeBlock,
    desBits_congr hkeys.first, desBits_congr (hkeys.second hlen), desBits_congr hkeys.first]

theorem desAt_keySet {r : DesRun} {Key : ℕ → Byte} {len : ℕ} (h : KeySet r.s Key len) (Out In which : ℕ) (type : Bool) :
    KeySet (desAt r Out In which type).s Key len := by
  obtain ⟨-, hkeys, hflag⟩ := des_spec r.s (fun i => r.mem (Out + i)) (fun i => r.mem (In + i)) which type
  refine ⟨hflag.trans h.triple, fun i hi => ?_, fun hlen i hi => ?_⟩
  · exact (congrFun (congrFun hkeys 0) i).trans (h.first i hi)
  · exact (congrFun (congrFun hkeys 1) i).trans (h.second hlen i hi)

/-! ## The whole buffer -/

/-- Clearing the low three bits rounds down to whole blocks. -/
theorem toNat_and_mask (x : BitVec 32) : (x &&& 0xfffffff8#32).toNat = 8 * (x.toNat / 8) := by
  have hmask : ∀ j < 32, (0xfffffff8#32).getLsbD j = decide (3 ≤ j) := by decide
  have hshift : x &&& 0xfffffff8#32 = (x >>> 3) <<< 3 := by
    apply BitVec.eq_of_getLsbD_eq
    intro j hj
    rw [BitVec.getLsbD_and, hmask j hj, BitVec.getLsbD_shiftLeft, BitVec.getLsbD_ushiftRight]
    by_cases hlow : 3 ≤ j
    · have hnot : ¬ j < 3 := by omega
      have hindex : 3 + (j - 3) = j := by omega
      simp [hlow, hnot, hj, hindex]
    · have hlt : j < 3 := by omega
      simp [hlow, hlt]
  have hx := x.isLt
  rw [hshift, BitVec.toNat_shiftLeft, BitVec.toNat_ushiftRight, Nat.shiftLeft_eq, Nat.shiftRight_eq_div_pow]
  omega

/-- The number of blocks of `datalen` bytes. -/
def blocksOf (datalen : BitVec 32) : ℕ := (datalen.toNat + 7) / 8

theorem toNat_rounded {datalen : BitVec 32} (hmax : datalen.toNat ≤ 2 ^ 31 - 8) :
    ((datalen + 7) &&& 0xfffffff8).toNat = 8 * blocksOf datalen := by
  have hadd : (datalen + 7).toNat = datalen.toNat + 7 := by
    have h7 : (7 : BitVec 32).toNat = 7 := rfl
    rw [BitVec.toNat_add, h7]
    exact Nat.mod_eq_of_lt (by omega)
  have hmask := toNat_and_mask (datalen + 7)
  rw [hadd] at hmask
  exact hmask

theorem blockCount_eq {datalen : BitVec 32} (hmax : datalen.toNat ≤ 2 ^ 31 - 8) :
    (((datalen + 7) &&& 0xfffffff8).sshiftRight 3).toInt.toNat = blocksOf datalen := by
  have hnat := toNat_rounded hmax
  have hbound : blocksOf datalen < 2 ^ 28 := by
    unfold blocksOf
    omega
  generalize (datalen + 7) &&& 0xfffffff8 = rounded at hnat ⊢
  rw [BitVec.toInt_sshiftRight, BitVec.toInt_eq_toNat_of_lt (by omega), hnat, Int.shiftRight_eq_div_pow]
  omega

/-- `Des_Go` puts `goBlock` of every block in its place. -/
theorem desGo_mem (r : DesRun) {Out In : ℕ} (hOut : Out ≠ 0) (hIn : In ≠ 0) {datalen : BitVec 32}
    (hmin : 1 ≤ datalen.toNat) (hmax : datalen.toNat ≤ 2 ^ 31 - 8) (Key : ℕ → Byte) (keylen : ℕ) (type : Bool) :
    (desGo r Out In datalen Key keylen type).2.mem =
      mapBlocks (goBlock Key keylen type) Out In (blocksOf datalen) r.mem := by
  have hnat := toNat_rounded hmax
  have hne : ¬ (Out = 0 ∨ In = 0 ∨ (datalen + 7) &&& 0xfffffff8 = 0) := by
    rintro (h | h | h)
    · exact hOut h
    · exact hIn h
    · have h0 : (0 : BitVec 32).toNat = 0 := rfl
      rw [h, h0] at hnat
      unfold blocksOf at hnat
      omega
  have hset := setKey_spec r.s Key keylen
  unfold desGo mapBlocks
  simp only [if_neg hne, blockCount_eq hmax, hset.triple]
  by_cases hlen : 8 < keylen
  · rw [if_neg (by simp [hlen])]
    refine (forRange_rel (fun _ (r : DesRun) mem => r.mem = mem ∧ KeySet r.s Key keylen)
      (Nat.zero_le _) ⟨rfl, hset⟩ ?_).1
    intro i r mem _ _ hr
    obtain ⟨hmem, hkeys⟩ := hr
    refine ⟨?_, desAt_keySet (desAt_keySet (desAt_keySet hkeys _ _ _ _) _ _ _ _) _ _ _ _⟩
    rw [← hmem, (triple_turn r _ _ type hkeys hlen).1]
  · rw [if_pos (by simp [hlen])]
    refine (forRange_rel (fun _ (r : DesRun) mem => r.mem = mem ∧ KeySet r.s Key keylen)
      (Nat.zero_le _) ⟨rfl, hset⟩ ?_).1
    intro i r mem _ _ hr
    obtain ⟨hmem, hkeys⟩ := hr
    refine ⟨?_, desAt_keySet hkeys _ _ _ _⟩
    rw [← hmem, single_turn r _ _ type hkeys hlen]

/-- Decrypting, in whatever state earlier calls left the static objects, what encrypting with the same key has
written restores every byte of the rounded length. -/
theorem decrypt_restores (r r' : DesRun) {Out In Out' In' : ℕ} (datalen : BitVec 32) (Key : ℕ → Byte) (keylen : ℕ)
    (hOut : Out ≠ 0) (hIn : In ≠ 0) (hOut' : Out' ≠ 0) (hIn' : In' ≠ 0)
    (hmin : 1 ≤ datalen.toNat) (hmax : datalen.toNat ≤ 2 ^ 31 - 8)
    (hplace : SameOrApart Out In (blocksOf datalen)) (hplace' : SameOrApart Out' In' (blocksOf datalen))
    (hinput : ∀ i < 8 * blocksOf datalen,
      r'.mem (In' + i) = (desGo r Out In datalen Key keylen ENCRYPT).2.mem (Out + i)) :
    ∀ i < 8 * blocksOf datalen,
      (desGo r' Out' In' datalen Key keylen DECRYPT).2.mem (Out' + i) = r.mem (In + i) := by
  intro i hi
  rw [desGo_mem r hOut hIn hmin hmax] at hinput
  rw [desGo_mem r' hOut' hIn' hmin hmax]
  have hblock : i / 8 < blocksOf datalen := by omega
  have hbyte : i % 8 < 8 := by omega
  have hread : blockAt r'.mem (In' + 8 * (i / 8)) =
      goBlock Key keylen ENCRYPT (blockAt r.mem (In + 8 * (i / 8))) := by
    rw [← mapBlocks_at (goBlock Key keylen ENCRYPT) hplace r.mem hblock]
    refine blockOf_congr fun b hb => ?_
    rw [Nat.add_assoc, hinput (8 * (i / 8) + b) (by omega), Nat.add_assoc]
  have hout := mapBlocks_at (goBlock Key keylen DECRYPT) hplace' r'.mem hblock
  rw [hread, show DECRYPT = !ENCRYPT from rfl, goBlock_undo] at hout
  have hlhs := blockByte_blockAt (mapBlocks (goBlock Key keylen (!ENCRYPT)) Out' In' (blocksOf datalen) r'.mem)
    (Out' + 8 * (i / 8)) hbyte
  have hrhs := blockByte_blockAt r.mem (In + 8 * (i / 8)) hbyte
  have hindex : 8 * (i / 8) + i % 8 = i := by omega
  rw [hout, Nat.add_assoc, hindex] at hlhs
  rw [Nat.add_assoc, hindex] at hrhs
  rw [show DECRYPT = !ENCRYPT from rfl, ← hlhs, hrhs]

/-- A sixteen byte key and 13 bytes, encrypted in place and decrypted into a buffer after them. -/
theorem decrypt_restores_sample :
    (desGo ⟨{ blank with Tmp := 5, Is3DES := true },
        (desGo ⟨blank, fun p => BitVec.ofNat 8 p⟩ 32 32 13 (fun i => BitVec.ofNat 8 (i * i)) 16 ENCRYPT).2.mem⟩
      64 32 13 (fun i => BitVec.ofNat 8 (i * i)) 16 DECRYPT).2.mem (64 + 9) = 41 :=
  decrypt_restores ⟨blank, fun p => BitVec.ofNat 8 p⟩
    ⟨{ blank with Tmp := 5, Is3DES := true },
      (desGo ⟨blank, fun p => BitVec.ofNat 8 p⟩ 32 32 13 (fun i => BitVec.ofNat 8 (i * i)) 16 ENCRYPT).2.mem⟩
    13 (fun i => BitVec.ofNat 8 (i * i)) 16 (by decide : 32 ≠ 0) (by decide : 32 ≠ 0) (by decide : 64 ≠ 0)
    (by decide : 32 ≠ 0) (by decide) (by decide) (Or.inl rfl) (Or.inr (Or.inr (by decide))) (fun _ _ => rfl) 9
    (by decide)

end StarLib.Des
