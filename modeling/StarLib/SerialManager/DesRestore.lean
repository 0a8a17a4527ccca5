import StarLib.Foundations.Feistel
import StarLib.SerialManager.DesRounds

/-! # Decryption in the DES variant

`des_dec` is `des_enc` with the words of `dk`, and with a schedule in reverse order there it would restore.
In `des_key` the two calls that fill `dk` are commented out: it holds what the context held before, and some
contents of it do not restore.
-/

namespace StarLib.SerialManager
open Foundations
set_option autoImplicit false
set_option maxHeartbeats 250000
set_option maxRecDepth 120000

/-- `des_dec`. -/
def desDec (dc : DesCtx) (blocks : ℕ) (data : ℕ → Byte) : ℕ → Byte :=
  forRange 0 blocks (fun i data =>
    fillAt (8 * i) 8 (desUnscrun (desDesfunc (desScrunch data (8 * i)) dc.dk)) data) data

theorem desDec_apply (dc : DesCtx) {blocks p : ℕ} (hp : p < 8 * blocks) (data : ℕ → Byte) :
    desDec dc blocks data p = desUnscrun (desDesfunc (desScrunch data (8 * (p / 8))) dc.dk) (p % 8) :=
  desEnc_apply ⟨dc.dk, dc.dk⟩ hp data

theorem desKey_dk (mem : DesMemory) (dc : DesCtx) (key : List Byte) : (desKey mem dc key).dk = dc.dk := rfl

/-! ## The two networks -/

/-- The same exchange once more, for a mask whose shift loses no bit. -/
theorem exchange_undo {n : ℕ} {mask : DWord} (hmask : (mask <<< n) >>> n = mask) (a b : DWord) :
    exchange n mask (exchange n mask a b).1 (exchange n mask a b).2 = (a, b) := by
  unfold exchange
  simp only
  generalize hwork : ((a >>> n) ^^^ b) &&& mask = work
  have hback : (work <<< n) >>> n = work := by
    rw [← hwork]
    apply BitVec.eq_of_getLsbD_eq
    intro i hi
    have hbit := congrArg (fun m : DWord => m.getLsbD i) hmask
    simp only [BitVec.getLsbD_ushiftRight, BitVec.getLsbD_shiftLeft, BitVec.getLsbD_and] at hbit ⊢
    grind
  have hagain : ((a ^^^ work <<< n) >>> n ^^^ (b ^^^ work)) &&& mask = work := by
    calc ((a ^^^ work <<< n) >>> n ^^^ (b ^^^ work)) &&& mask
        = ((a >>> n ^^^ work) ^^^ (b ^^^ work)) &&& mask := by rw [BitVec.ushiftRight_xor_distrib, hback]
      _ = ((a >>> n) ^^^ b) &&& mask := by
        rw [BitVec.xor_comm b work, BitVec.xor_assoc, ← BitVec.xor_assoc work work b, BitVec.xor_self, BitVec.zero_xor]
      _ = work := hwork
  rw [hagain, BitVec.xor_assoc, BitVec.xor_assoc, BitVec.xor_self, BitVec.xor_self, BitVec.xor_zero, BitVec.xor_zero]

theorem rotate_back (x : DWord) :
    ((((x <<< 1) ||| ((x >>> 31) &&& 1)) <<< 31) ||| (((x <<< 1) ||| ((x >>> 31) &&& 1)) >>> 1)) = x := by
  apply BitVec.eq_of_getLsbD_eq
  intro i hi
  simp
  grind

theorem rotate_forth (x : DWord) :
    ((((x <<< 31) ||| (x >>> 1)) <<< 1) ||| ((((x <<< 31) ||| (x >>> 1)) >>> 31) &&& 1)) = x := by
  apply BitVec.eq_of_getLsbD_eq
  intro i hi
  simp
  grind

theorem exchange_zero_undo (mask a b : DWord) :
    exchange 0 mask (exchange 0 mask a b).2 (exchange 0 mask a b).1 = (b, a) := by
  have hswap : ∀ x y, exchange 0 mask x y = (exchange 0 mask y x).swap := by
    intro x y
    simp [exchange, BitVec.xor_comm x y]
  rw [hswap, exchange_undo (by simp)]
  rfl

/-- The last network behind an exchange of the halves. -/
def swappedNet (s : DWord × DWord) : DWord × DWord := finalNet s.swap

theorem swappedNet_initialNet (block : DWord × DWord) : swappedNet (initialNet block) = block := by
  unfold swappedNet finalNet initialNet
  simp only [Prod.swap_prod_mk, rotate_back, exchange_zero_undo,
    exchange_undo (by decide : ((0x00ff00ff : DWord) <<< 8) >>> 8 = 0x00ff00ff),
    exchange_undo (by decide : ((0x33333333 : DWord) <<< 2) >>> 2 = 0x33333333),
    exchange_undo (by decide : ((0x0000ffff : DWord) <<< 16) >>> 16 = 0x0000ffff),
    exchange_undo (by decide : ((0x0f0f0f0f : DWord) <<< 4) >>> 4 = 0x0f0f0f0f)]

theorem initialNet_finalNet (s : DWord × DWord) : initialNet (finalNet s) = s.swap := by
  unfold finalNet initialNet
  simp only [rotate_forth, exchange_zero_undo,
    exchange_undo (by decide : ((0x00ff00ff : DWord) <<< 8) >>> 8 = 0x00ff00ff),
    exchange_undo (by decide : ((0x33333333 : DWord) <<< 2) >>> 2 = 0x33333333),
    exchange_undo (by decide : ((0x0000ffff : DWord) <<< 16) >>> 16 = 0x0000ffff),
    exchange_undo (by decide : ((0x0f0f0f0f : DWord) <<< 4) >>> 4 = 0x0f0f0f0f)]
  rfl

/-! ## A reversed schedule -/

theorem halfRound_undo (f : DWord → DWord) (s : DWord × DWord) : halfRound f (halfRound f s).swap = s.swap := by
  obtain ⟨l, r⟩ := s
  have hundo : l ^^^ f r ^^^ f r = l := by rw [BitVec.xor_assoc, BitVec.xor_self, BitVec.xor_zero]
  simp [halfRound, hundo]

theorem desDesfunc_cipher (block : DWord × DWord) (keys : ℕ → DWord) :
    desDesfunc block keys = Feistel.cipher Prod.swap halfRound initialNet swappedNet 16 (codeRound keys) block := by
  rw [desDesfunc_rounds, Feistel.cipher, swappedNet, Prod.swap_swap]

/-- The pairs of words of a schedule in reverse order. -/
def Reversed (dk ek : ℕ → DWord) : Prop := ∀ i < 16, dk (2 * i) = ek (2 * (15 - i)) ∧ dk (2 * i + 1) = ek (2 * (15 - i) + 1)

theorem desDesfunc_reversed {dk ek : ℕ → DWord} (h : Reversed dk ek) (block : DWord × DWord) :
    desDesfunc (desDesfunc block ek) dk = block := by
  have hrounds : ∀ i < 16, codeRound dk i = codeRound ek (16 - 1 - i) := by
    intro i hi
    funext r
    unfold codeRound
    rw [(h i hi).1, (h i hi).2]
  have hright : ∀ s, initialNet (swappedNet s) = s := by
    intro s
    rw [swappedNet, initialNet_finalNet, Prod.swap_swap]
  rw [desDesfunc_cipher, desDesfunc_cipher, Feistel.cipher_congr hrounds]
  exact Feistel.cipher_reverse halfRound_undo Prod.swap_swap swappedNet_initialNet hright 16 (codeRound ek) block

/-! ## Bytes -/

theorem desUnscrun_byteAt (block : DWord × DWord) {k : ℕ} (hk : k < 8) :
    desUnscrun block k = if k < 4 then byteAt block.1 (3 - k) else byteAt block.2 (7 - k) := by
  unfold desUnscrun
  split
  · have hshift : 24 - 8 * k = 8 * (3 - k) := by omega
    rw [hshift, setWidth_shiftRight]
  · have hshift : 24 - 8 * (k - 4) = 8 * (7 - k) := by omega
    rw [hshift, setWidth_shiftRight]

theorem desScrunch_ofBytes (data : ℕ → Byte) (off : ℕ) : desScrunch data off =
    (ofBytes (data (off + 3)) (data (off + 2)) (data (off + 1)) (data off),
      ofBytes (data (off + 7)) (data (off + 6)) (data (off + 5)) (data (off + 4))) := by
  unfold desScrunch
  simp only [pack_or]
  rfl

theorem desUnscrun_desScrunch (data : ℕ → Byte) (off : ℕ) {k : ℕ} (hk : k < 8) :
    desUnscrun (desScrunch data off) k = data (off + k) := by
  rw [desUnscrun_byteAt _ hk, desScrunch_ofBytes]
  interval_cases k <;> simp

theorem desScrunch_desUnscrun {block : DWord × DWord} {data : ℕ → Byte} {off : ℕ}
    (h : ∀ k < 8, data (off + k) = desUnscrun block k) : desScrunch data off = block := by
  have hbyte : ∀ k < 8, data (off + k) = if k < 4 then byteAt block.1 (3 - k) else byteAt block.2 (7 - k) := by
    intro k hk
    rw [h k hk, desUnscrun_byteAt block hk]
  have h0 : data off = byteAt block.1 3 := hbyte 0 (by decide)
  rw [desScrunch_ofBytes, h0, hbyte 1 (by decide), hbyte 2 (by decide), hbyte 3 (by decide), hbyte 4 (by decide),
    hbyte 5 (by decide), hbyte 6 (by decide), hbyte 7 (by decide)]
  exact Prod.ext (ofBytes_byteAt block.1) (ofBytes_byteAt block.2)

theorem desUnscrun_inj {a b : DWord × DWord} (h : ∀ k < 8, desUnscrun a k = desUnscrun b k) : a = b := by
  have ha : desScrunch (desUnscrun a) 0 = a := desScrunch_desUnscrun fun k _ => by rw [Nat.zero_add]
  have hb : desScrunch (desUnscrun a) 0 = b := desScrunch_desUnscrun fun k hk => by rw [Nat.zero_add, h k hk]
  rw [← ha, hb]

/-! ## Restoring -/

/-- Byte by byte, with any memory before `des_key` and any data. -/
def DesRestores (key : List Byte) (blocks : ℕ) : Prop :=
  ∀ (mem : DesMemory) (dc : DesCtx) (data : ℕ → Byte), ∀ p < 8 * blocks,
    desDec (desKey mem dc key) blocks (desEnc (desKey mem dc key) blocks data) p = data p

theorem desDec_desEnc (dc : DesCtx) {blocks p : ℕ} (hp : p < 8 * blocks) (data : ℕ → Byte) :
    desDec dc blocks (desEnc dc blocks data) p =
      desUnscrun (desDesfunc (desDesfunc (desScrunch data (8 * (p / 8))) dc.ek) dc.dk) (p % 8) := by
  have hblock : desScrunch (desEnc dc blocks data) (8 * (p / 8)) = desDesfunc (desScrunch data (8 * (p / 8))) dc.ek := by
    refine desScrunch_desUnscrun fun k hk => ?_
    have hdiv : (8 * (p / 8) + k) / 8 = p / 8 := by omega
    have hmod : (8 * (p / 8) + k) % 8 = k := by omega
    rw [desEnc_apply dc (by omega), hdiv, hmod]
  rw [desDec_apply dc hp, hblock]

/-- With the reversed schedule in `dk` the data would come back. -/
theorem desDec_reversed {dc : DesCtx} (h : Reversed dc.dk dc.ek) {blocks p : ℕ} (hp : p < 8 * blocks)
    (data : ℕ → Byte) : desDec dc blocks (desEnc dc blocks data) p = data p := by
  have hplace : 8 * (p / 8) + p % 8 = p := Nat.div_add_mod p 8
  rw [desDec_desEnc dc hp, desDesfunc_reversed h, desUnscrun_desScrunch _ _ (Nat.mod_lt p (by decide)), hplace]

/-- The halves before the last round with a schedule of zeros. -/
def zeroHalves (block : DWord × DWord) : DWord × DWord :=
  forRange 0 15 (fun i => halfRound (codeRound (fun _ => 0) i)) (initialNet block)

/-- Zeros, and for the last round words that let `x` and 0 reach the tables. -/
def lastKeys (block : DWord × DWord) (x : DWord) : ℕ → DWord :=
  let r := (zeroHalves block).2
  fun i => if i = 30 then ((r <<< 28) ||| (r >>> 4)) ^^^ x else if i = 31 then r else 0

theorem codeRound_lastKeys (block : DWord × DWord) (x : DWord) :
    codeRound (lastKeys block x) 15 (zeroHalves block).2 = fval x 0 := by
  unfold codeRound lastKeys
  have hundo : ∀ y : DWord, y ^^^ (y ^^^ x) = x := by
    intro y
    rw [← BitVec.xor_assoc, BitVec.xor_self, BitVec.zero_xor]
  simp [hundo]

theorem desDesfunc_lastKeys (block : DWord × DWord) (x : DWord) :
    desDesfunc block (lastKeys block x) = finalNet (halfRound (fun _ => fval x 0) (zeroHalves block)) := by
  have hrounds : forRange 0 15 (fun i => halfRound (codeRound (lastKeys block x) i)) (initialNet block) =
      zeroHalves block := by
    refine forRange_congr _ fun i s _ hi => ?_
    have hword : ∀ j < 30, lastKeys block x j = 0 := by
      intro j hj
      unfold lastKeys
      rw [if_neg (by omega), if_neg (by omega)]
    unfold codeRound
    rw [hword (2 * i) (by omega), hword (2 * i + 1) (by omega)]
  rw [desDesfunc_rounds, forRange_succ (by decide), hrounds, halfRound, codeRound_lastKeys]
  rfl

/-- Any block is decrypted to different ones with two contents of `dk`. -/
theorem lastKeys_differ (block : DWord × DWord) :
    desDesfunc block (lastKeys block 0) ≠ desDesfunc block (lastKeys block 1) := by
  have htables : fval 0 0 ≠ fval 1 0 := by decide
  intro h
  rw [desDesfunc_lastKeys, desDesfunc_lastKeys] at h
  have hhalves := congrArg initialNet h
  rw [initialNet_finalNet, initialNet_finalNet] at hhalves
  have hright := congrArg Prod.fst hhalves
  simp only [halfRound, Prod.fst_swap, BitVec.xor_right_inj] at hright
  exact htables hright

theorem desRestores_not (key : List Byte) {blocks : ℕ} (hblocks : 0 < blocks) : ¬ DesRestores key blocks := by
  intro h
  let mem : DesMemory := ⟨fun _ => 0, fun _ => 0, fun _ => 0, fun _ => 0, fun _ => 0⟩
  let y := desDesfunc (desScrunch (fun _ => 0) 0) (desKey mem ⟨fun _ => 0, fun _ => 0⟩ key).ek
  have hzero : ∀ dk : ℕ → DWord, ∀ k < 8, desUnscrun (desDesfunc y dk) k = 0 := by
    intro dk k hk
    have hbyte := h mem ⟨fun _ => 0, dk⟩ (fun _ => 0) k (by omega)
    have hdiv : 8 * (k / 8) = 0 := by omega
    rw [desDec_desEnc _ (by omega), hdiv, Nat.mod_eq_of_lt hk] at hbyte
    exact hbyte
  refine lastKeys_differ y (desUnscrun_inj fun k hk => ?_)
  rw [hzero _ k hk, hzero _ k hk]

/-- Nothing is restored for sure but no data. -/
theorem desRestores_iff (key : List Byte) (blocks : ℕ) : DesRestores key blocks ↔ blocks = 0 := by
  constructor
  · intro h
    by_contra hblocks
    exact desRestores_not key (by omega) h
  · rintro rfl mem dc data p hp
    omega

theorem zeros_through : desUnscrun (desDesfunc (desDesfunc (0, 0) (scheduleWord (List.replicate 8 0))) fun _ => 1) 0 ≠ 0 := by
  decide

/-- Zeros in the arrays of the key schedule, and a context in which every word of `dk` is 1. -/
def onesKey : DesCtx :=
  desKey ⟨fun _ => 0, fun _ => 0, fun _ => 0, fun _ => 0, fun _ => 0⟩ ⟨fun _ => 0, fun _ => 1⟩ (List.replicate 8 0)

/-- A block of zeros under the key of eight zeros. -/
theorem desRestores_fails : ¬ ∀ p < 8 * 1, desDec onesKey 1 (desEnc onesKey 1 fun _ => 0) p = 0 := by
  intro h
  have hek : AgreeBelow 32 onesKey.ek (scheduleWord (List.replicate 8 0)) := fun m hm => desKey_ek _ _ _ hm
  have hbyte := h 0 (by decide)
  rw [desDec_desEnc _ (by decide), desDesfunc_congr hek] at hbyte
  exact zeros_through hbyte

end StarLib.SerialManager
