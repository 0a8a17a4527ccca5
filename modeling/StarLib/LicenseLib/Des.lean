import StarLib.Foundations.Feistel
import StarLib.Foundations.Shuffle
import StarLib.Foundations.Words

/-! # The DES of LicenseLib

`des.c`: key schedule, block function, and single and triple DES in ECB mode, on blocks of eight bytes
with the first byte on top. Decryption is the block function with the round keys in reverse order.
-/

namespace StarLib.LicenseLib
open Foundations
set_option autoImplicit false
set_option maxHeartbeats 250000
set_option maxRecDepth 120000

abbrev QWord := BitVec 64

/-! ## Tables -/

/-- Written `64 - n` in the source, as are the next two tables. -/
def IP_shuffle : List ℕ :=
  [6, 14, 22, 30, 38, 46, 54, 62, 4, 12, 20, 28, 36, 44, 52, 60,
   2, 10, 18, 26, 34, 42, 50, 58, 0, 8, 16, 24, 32, 40, 48, 56,
   7, 15, 23, 31, 39, 47, 55, 63, 5, 13, 21, 29, 37, 45, 53, 61,
   3, 11, 19, 27, 35, 43, 51, 59, 1, 9, 17, 25, 33, 41, 49, 57]

def PC1_shuffle : List ℕ :=
  [7, 15, 23, 31, 39, 47, 55, 63, 6, 14, 22, 30, 38, 46,
   54, 62, 5, 13, 21, 29, 37, 45, 53, 61, 4, 12, 20, 28,
   1, 9, 17, 25, 33, 41, 49, 57, 2, 10, 18, 26, 34, 42,
   50, 58, 3, 11, 19, 27, 35, 43, 51, 59, 36, 44, 52, 60]

def PC2_shuffle : List ℕ :=
  [42, 39, 45, 32, 55, 51, 53, 28, 41, 50, 35, 46,
   33, 37, 44, 52, 30, 48, 40, 49, 29, 36, 43, 54,
   15, 4, 25, 19, 9, 1, 26, 16, 5, 11, 23, 8,
   12, 7, 17, 0, 22, 3, 10, 14, 6, 20, 27, 24]

def S_boxes_P_shuffle : List (List DWord) :=
  [[0x00808200, 0x00000000, 0x00008000, 0x00808202, 0x00808002, 0x00008202, 0x00000002, 0x00008000,
    0x00000200, 0x00808200, 0x00808202, 0x00000200, 0x00800202, 0x00808002, 0x00800000, 0x00000002,
    0x00000202, 0x00800200, 0x00800200, 0x00008200, 0x00008200, 0x00808000, 0x00808000, 0x00800202,
    0x00008002, 0x00800002, 0x00800002, 0x00008002, 0x00000000, 0x00000202, 0x00008202, 0x00800000,
    0x00008000, 0x00808202, 0x00000002, 0x00808000, 0x00808200, 0x00800000, 0x00800000, 0x00000200,
    0x00808002, 0x00008000, 0x00008200, 0x00800002, 0x00000200, 0x00000002, 0x00800202, 0x00008202,
    0x00808202, 0x00008002, 0x00808000, 0x00800202, 0x00800002, 0x00000202, 0x00008202, 0x00808200,
    0x00000202, 0x00800200, 0x00800200, 0x00000000, 0x00008002, 0x00008200, 0x00000000, 0x00808002],
   [0x40084010, 0x40004000, 0x00004000, 0x00084010, 0x00080000, 0x00000010, 0x40080010, 0x40004010,
    0x40000010, 0x40084010, 0x40084000, 0x40000000, 0x40004000, 0x00080000, 0x00000010, 0x40080010,
    0x00084000, 0x00080010, 0x40004010, 0x00000000, 0x40000000, 0x00004000, 0x00084010, 0x40080000,
    0x00080010, 0x40000010, 0x00000000, 0x00084000, 0x00004010, 0x40084000, 0x40080000, 0x00004010,
    0x00000000, 0x00084010, 0x40080010, 0x00080000, 0x40004010, 0x40080000, 0x40084000, 0x00004000,
    0x40080000, 0x40004000, 0x00000010, 0x40084010, 0x00084010, 0x00000010, 0x00004000, 0x40000000,
    0x00004010, 0x40084000, 0x00080000, 0x40000010, 0x00080010, 0x40004010, 0x40000010, 0x00080010,
    0x00084000, 0x00000000, 0x40004000, 0x00004010, 0x40000000, 0x40080010, 0x40084010, 0x00084000],
   [0x00000104, 0x04010100, 0x00000000, 0x04010004, 0x04000100, 0x00000000, 0x00010104, 0x04000100,
    0x00010004, 0x04000004, 0x04000004, 0x00010000, 0x04010104, 0x00010004, 0x04010000, 0x00000104,
    0x04000000, 0x00000004, 0x04010100, 0x00000100, 0x00010100, 0x04010000, 0x04010004, 0x00010104,
    0x04000104, 0x00010100, 0x00010000, 0x04000104, 0x00000004, 0x04010104, 0x00000100, 0x04000000,
    0x04010100, 0x04000000, 0x00010004, 0x00000104, 0x00010000, 0x04010100, 0x04000100, 0x00000000,
    0x00000100, 0x00010004, 0x04010104, 0x04000100, 0x04000004, 0x00000100, 0x00000000, 0x04010004,
    0x04000104, 0x00010000, 0x04000000, 0x04010104, 0x00000004, 0x00010104, 0x00010100, 0x04000004,
    0x04010000, 0x04000104, 0x00000104, 0x04010000, 0x00010104, 0x00000004, 0x04010004, 0x00010100],
   [0x80401000, 0x80001040, 0x80001040, 0x00000040, 0x00401040, 0x80400040, 0x80400000, 0x80001000,
    0x00000000, 0x00401000, 0x00401000, 0x80401040, 0x80000040, 0x00000000, 0x00400040, 0x80400000,
    0x80000000, 0x00001000, 0x00400000, 0x80401000, 0x00000040, 0x00400000, 0x80001000, 0x00001040,
    0x80400040, 0x80000000, 0x00001040, 0x00400040, 0x00001000, 0x00401040, 0x80401040, 0x80000040,
    0x00400040, 0x80400000, 0x00401000, 0x80401040, 0x80000040, 0x00000000, 0x00000000, 0x00401000,
    0x00001040, 0x00400040, 0x80400040, 0x80000000, 0x80401000, 0x80001040, 0x80001040, 0x00000040,
    0x80401040, 0x80000040, 0x80000000, 0x00001000, 0x80400000, 0x80001000, 0x00401040, 0x80400040,
    0x80001000, 0x00001040, 0x00400000, 0x80401000, 0x00000040, 0x00400000, 0x00001000, 0x00401040],
   [0x00000080, 0x01040080, 0x01040000, 0x21000080, 0x00040000, 0x00000080, 0x20000000, 0x01040000,
    0x20040080, 0x00040000, 0x01000080, 0x20040080, 0x21000080, 0x21040000, 0x00040080, 0x20000000,
    0x01000000, 0x20040000, 0x20040000, 0x00000000, 0x20000080, 0x21040080, 0x21040080, 0x01000080,
    0x21040000, 0x20000080, 0x00000000, 0x21000000, 0x01040080, 0x01000000, 0x21000000, 0x00040080,
    0x00040000, 0x21000080, 0x00000080, 0x01000000, 0x20000000, 0x01040000, 0x21000080, 0x20040080,
    0x01000080, 0x20000000, 0x21040000, 0x01040080, 0x20040080, 0x00000080, 0x01000000, 0x21040000,
    0x21040080, 0x00040080, 0x21000000, 0x21040080, 0x01040000, 0x00000000, 0x20040000, 0x21000000,
    0x00040080, 0x01000080, 0x20000080, 0x00040000, 0x00000000, 0x20040000, 0x01040080, 0x20000080],
   [0x10000008, 0x10200000, 0x00002000, 0x10202008, 0x10200000, 0x00000008, 0x10202008, 0x00200000,
    0x10002000, 0x00202008, 0x00200000, 0x10000008, 0x00200008, 0x10002000, 0x10000000, 0x00002008,
    0x00000000, 0x00200008, 0x10002008, 0x00002000, 0x00202000, 0x10002008, 0x00000008, 0x10200008,
    0x10200008, 0x00000000, 0x00202008, 0x10202000, 0x00002008, 0x00202000, 0x10202000, 0x10000000,
    0x10002000, 0x00000008, 0x10200008, 0x00202000, 0x10202008, 0x00200000, 0x00002008, 0x10000008,
    0x00200000, 0x10002000, 0x10000000, 0x00002008, 0x10000008, 0x10202008, 0x00202000, 0x10200000,
    0x00202008, 0x10202000, 0x00000000, 0x10200008, 0x00000008, 0x00002000, 0x10200000, 0x00202008,
    0x00002000, 0x00200008, 0x10002008, 0x00000000, 0x10202000, 0x10000000, 0x00200008, 0x10002008],
   [0x00100000, 0x02100001, 0x02000401, 0x00000000, 0x00000400, 0x02000401, 0x00100401, 0x02100400,
    0x02100401, 0x00100000, 0x00000000, 0x02000001, 0x00000001, 0x02000000, 0x02100001, 0x00000401,
    0x02000400, 0x00100401, 0x00100001, 0x02000400, 0x02000001, 0x02100000, 0x02100400, 0x00100001,
    0x02100000, 0x00000400, 0x00000401, 0x02100401, 0x00100400, 0x00000001, 0x02000000, 0x00100400,
    0x02000000, 0x00100400, 0x00100000, 0x02000401, 0x02000401, 0x02100001, 0x02100001, 0x00000001,
    0x00100001, 0x02000000, 0x02000400, 0x00100000, 0x02100400, 0x00000401, 0x00100401, 0x02100400,
    0x00000401, 0x02000001, 0x02100401, 0x02100000, 0x00100400, 0x00000000, 0x00000001, 0x02100401,
    0x00000000, 0x00100401, 0x02100000, 0x00000400, 0x02000001, 0x02000400, 0x00000400, 0x00100001],
   [0x08000820, 0x00000800, 0x00020000, 0x08020820, 0x08000000, 0x08000820, 0x00000020, 0x08000000,
    0x00020020, 0x08020000, 0x08020820, 0x00020800, 0x08020800, 0x00020820, 0x00000800, 0x00000020,
    0x08020000, 0x08000020, 0x08000800, 0x00000820, 0x00020800, 0x00020020, 0x08020020, 0x08020800,
    0x00000820, 0x00000000, 0x00000000, 0x08020020, 0x08000020, 0x08000800, 0x00020820, 0x00020000,
    0x00020820, 0x00020000, 0x08020800, 0x00000800, 0x00000020, 0x08020020, 0x00000800, 0x00020820,
    0x08000800, 0x00000020, 0x08000020, 0x08020000, 0x08020020, 0x08000000, 0x00020000, 0x08000820,
    0x00000000, 0x08020820, 0x00020020, 0x08000020, 0x08020000, 0x08000800, 0x08000820, 0x00000000,
    0x08020820, 0x00020800, 0x00020800, 0x00000820, 0x00000820, 0x00020020, 0x08000000, 0x08020800]]

/-! ## The block function -/

structure FWork where
  out : DWord
  r : DWord
  k : QWord

/-- A turn of the loop of `f_func`, for the table `i`. -/
def fStep (i : ℕ) (s : FWork) : FWork :=
  let tmp : Byte := (s.r.setWidth 64 ^^^ s.k).setWidth 8 &&& 0x3f
  let out := s.out ||| (S_boxes_P_shuffle.getD i []).getD tmp.toNat 0
  ⟨out, (s.r >>> 4) ||| (s.r <<< 28), s.k >>> 6⟩

/-- `f_func`. -/
def fFunc (r : DWord) (k : QWord) : DWord :=
  let r := (r <<< 1) ||| (r >>> 31)
  (forRange 0 8 (fun i s => fStep (7 - i) s) ⟨0, r, k⟩).out

/-- `key_shift_left`; the constant is an `int`, and its complement is extended with ones. -/
def keyShiftLeft (CDn : QWord) : QWord :=
  let carries := (CDn >>> 27) &&& 0x10000001
  let CDn := CDn <<< 1
  let CDn := CDn &&& 0xffffffffeffffffe
  CDn ||| carries

structure KeyGen where
  CDn : QWord
  K : List QWord

/-- `gen_roundkeys`. -/
def genRoundkeys (key : QWord) : List QWord :=
  (forRange 0 16 (fun i (s : KeyGen) =>
    let CDn := keyShiftLeft s.CDn
    let CDn := if 1 < i ∧ i ≠ 8 ∧ i ≠ 15 then keyShiftLeft CDn else CDn
    ⟨CDn, s.K ++ [shuffle CDn PC2_shuffle]⟩) ⟨shuffle key PC1_shuffle, []⟩).K

def swapHalves (x : QWord) : QWord := (x <<< 32) ||| (x >>> 32)

def desRound (k x : QWord) : QWord := swapHalves x ^^^ (fFunc (x.setWidth 32) k).setWidth 64

/-- `des_encdec`. -/
def desEncdec (x : QWord) (K : List QWord) (decrypt : Bool) : QWord :=
  let dec := if decrypt then 15 else 0
  let x := shuffle x IP_shuffle
  let x := forRange 0 16 (fun i x => desRound (K.getD (dec ^^^ i) 0) x) x
  shuffleInv (swapHalves x) IP_shuffle

/-! ## Contexts and buffers -/

/-- `AV_RB64`. -/
def readBlock (p : List Byte) (off : ℕ) : QWord :=
  forRange 0 8 (fun i x => (x <<< 8) ||| (p.getD (off + i) 0).setWidth 64) 0

/-- The eight bytes of a block in memory. -/
def blockBytes (x : QWord) : List Byte := (List.range 8).map fun i => (x >>> (56 - 8 * i)).setWidth 8

structure AVDES where
  round_keys : List (List QWord)
  triple_des : Bool

/-- `av_des_init`; nothing for a key of another length. -/
def avDesInit (key : List Byte) (keyBits : ℕ) : Option AVDES :=
  if keyBits ≠ 64 ∧ keyBits ≠ 192 then none
  else if keyBits = 192 then
    some ⟨[genRoundkeys (readBlock key 0), genRoundkeys (readBlock key 8), genRoundkeys (readBlock key 16)], true⟩
  else some ⟨[genRoundkeys (readBlock key 0)], false⟩

/-- A block of `av_des_crypt` without an initialisation vector. -/
def avDesBlock (d : AVDES) (src : QWord) (decrypt : Bool) : QWord :=
  let key := fun n => d.round_keys.getD n []
  if decrypt then
    let src := if d.triple_des then desEncdec (desEncdec src (key 2) true) (key 1) false else src
    desEncdec src (key 0) true
  else
    let dst := desEncdec src (key 0) false
    if d.triple_des then desEncdec (desEncdec dst (key 1) true) (key 2) false else dst

/-- `av_des_crypt` without an initialisation vector: what it writes to `dst`. -/
def avDesCrypt (d : AVDES) (src : List Byte) (count : ℕ) (decrypt : Bool) : List Byte :=
  (List.range count).flatMap fun n => blockBytes (avDesBlock d (readBlock src (8 * n)) decrypt)

/-! ## Decryption -/

theorem IP_isShuffle : IsShuffle 64 IP_shuffle := ⟨by decide, by decide, by decide, by decide⟩

theorem getLsbD_swapHalves (x : QWord) {i : ℕ} (hi : i < 64) :
    (swapHalves x).getLsbD i = if i < 32 then x.getLsbD (i + 32) else x.getLsbD (i - 32) := by
  unfold swapHalves
  rw [BitVec.getLsbD_or, BitVec.getLsbD_shiftLeft, BitVec.getLsbD_ushiftRight, Nat.add_comm 32 i]
  by_cases hhalf : i < 32
  · simp [hhalf]
  · have hout : x.getLsbD (i + 32) = false := BitVec.getLsbD_of_ge x _ (by omega)
    simp [hhalf, hi, hout]

theorem swapHalves_swapHalves (x : QWord) : swapHalves (swapHalves x) = x := by
  apply BitVec.eq_of_getLsbD_eq
  intro i hi
  rw [getLsbD_swapHalves _ hi]
  by_cases hhalf : i < 32
  · have hno : ¬ i + 32 < 32 := by omega
    rw [if_pos hhalf, getLsbD_swapHalves _ (by omega), if_neg hno, Nat.add_sub_cancel]
  · have hyes : i - 32 < 32 := by omega
    have hback : i - 32 + 32 = i := by omega
    rw [if_neg hhalf, getLsbD_swapHalves _ (by omega), if_pos hyes, hback]

theorem swapHalves_xor (x y : QWord) : swapHalves (x ^^^ y) = swapHalves x ^^^ swapHalves y := by
  apply BitVec.eq_of_getLsbD_eq
  intro i hi
  rw [BitVec.getLsbD_xor, getLsbD_swapHalves _ hi, getLsbD_swapHalves _ hi, getLsbD_swapHalves _ hi]
  split
  · rw [BitVec.getLsbD_xor]
  · rw [BitVec.getLsbD_xor]

/-- After a round and an exchange the low half is what the round function read. -/
theorem swapHalves_desRound_low (k x : QWord) : (swapHalves (desRound k x)).setWidth 32 = x.setWidth 32 := by
  have hzero : ∀ f : DWord, (swapHalves (f.setWidth 64)).setWidth 32 = 0#32 := by
    intro f
    apply BitVec.eq_of_getLsbD_eq
    intro i hi
    have hout : f.getLsbD (i + 32) = false := BitVec.getLsbD_of_ge f _ (by omega)
    rw [BitVec.getLsbD_setWidth, getLsbD_swapHalves _ (by omega), if_pos hi, BitVec.getLsbD_setWidth, hout]
    simp
  unfold desRound
  rw [swapHalves_xor, swapHalves_swapHalves, BitVec.setWidth_xor, hzero, BitVec.xor_zero]

/-- A round between two exchanges undoes itself. -/
theorem desRound_undo (k x : QWord) : desRound k (swapHalves (desRound k x)) = swapHalves x := by
  have hlow := swapHalves_desRound_low k x
  have hround : desRound k x = swapHalves x ^^^ (fFunc (x.setWidth 32) k).setWidth 64 := rfl
  have houter : desRound k (swapHalves (desRound k x)) =
      swapHalves (swapHalves (desRound k x)) ^^^ (fFunc ((swapHalves (desRound k x)).setWidth 32) k).setWidth 64 := rfl
  rw [houter, hlow, swapHalves_swapHalves, hround, BitVec.xor_assoc, BitVec.xor_self, BitVec.xor_zero]

/-- The round keys in the order of their use. -/
def keyOrder (K : List QWord) (decrypt : Bool) (i : ℕ) : QWord := K.getD ((if decrypt then 15 else 0) ^^^ i) 0

theorem keyOrder_not (K : List QWord) (decrypt : Bool) {i : ℕ} (hi : i < 16) :
    keyOrder K (!decrypt) i = keyOrder K decrypt (16 - 1 - i) := by
  have hflip : ∀ i < 16, 0 ^^^ i = 15 ^^^ (16 - 1 - i) ∧ 15 ^^^ i = 0 ^^^ (16 - 1 - i) := by decide
  obtain ⟨h0, h15⟩ := hflip i hi
  cases decrypt with
  | false =>
    show K.getD (15 ^^^ i) 0 = K.getD (0 ^^^ (16 - 1 - i)) 0
    rw [h15]
  | true =>
    show K.getD (0 ^^^ i) 0 = K.getD (15 ^^^ (16 - 1 - i)) 0
    rw [h0]

theorem desEncdec_cipher (x : QWord) (K : List QWord) (decrypt : Bool) :
    desEncdec x K decrypt = Feistel.cipher swapHalves desRound (fun x => shuffle x IP_shuffle)
      (fun x => shuffleInv x IP_shuffle) 16 (keyOrder K decrypt) x := rfl

/-- The other direction undoes the block function. -/
theorem desEncdec_restore (x : QWord) (K : List QWord) (decrypt : Bool) :
    desEncdec (desEncdec x K decrypt) K (!decrypt) = x := by
  rw [desEncdec_cipher (desEncdec x K decrypt), desEncdec_cipher x,
    Feistel.cipher_congr fun i hi => keyOrder_not K decrypt hi]
  exact Feistel.cipher_reverse desRound_undo swapHalves_swapHalves (shuffleInv_shuffle IP_isShuffle)
    (shuffle_shuffleInv IP_isShuffle) 16 _ x

theorem desEncdec_decrypt (x : QWord) (K : List QWord) : desEncdec (desEncdec x K false) K true = x :=
  desEncdec_restore x K false

theorem desEncdec_encrypt (x : QWord) (K : List QWord) : desEncdec (desEncdec x K true) K false = x :=
  desEncdec_restore x K true

theorem avDesBlock_decrypt (d : AVDES) (x : QWord) : avDesBlock d (avDesBlock d x false) true = x := by
  unfold avDesBlock
  cases d.triple_des with
  | false => exact desEncdec_decrypt ..
  | true =>
    simp only [if_true, Bool.false_eq_true, if_false]
    rw [desEncdec_decrypt, desEncdec_encrypt, desEncdec_decrypt]

theorem avDesBlock_encrypt (d : AVDES) (x : QWord) : avDesBlock d (avDesBlock d x true) false = x := by
  unfold avDesBlock
  cases d.triple_des with
  | false => exact desEncdec_encrypt ..
  | true =>
    simp only [if_true, Bool.false_eq_true, if_false]
    rw [desEncdec_encrypt, desEncdec_decrypt, desEncdec_encrypt]

/-! ## Blocks in memory -/

/-- Byte `i` of a block, the first one on top. -/
def blockByte (x : QWord) (i : ℕ) : Byte := (x >>> (56 - 8 * i)).setWidth 8

theorem blockBytes_length (x : QWord) : (blockBytes x).length = 8 := by simp [blockBytes]

theorem blockBytes_getD (x : QWord) {i : ℕ} (hi : i < 8) : (blockBytes x).getD i 0 = blockByte x i := by
  simp [blockBytes, blockByte, List.getD_eq_getElem?_getD, hi]

theorem eq_of_blockByte {x y : QWord} (h : ∀ i < 8, blockByte x i = blockByte y i) : x = y := by
  apply BitVec.eq_of_getLsbD_eq
  intro j hj
  have hbit : ∀ x : QWord, (blockByte x (7 - j / 8)).getLsbD (j % 8) = x.getLsbD j := by
    intro x
    have hindex : 56 - 8 * (7 - j / 8) + j % 8 = j := by omega
    have hmod : j % 8 < 8 := by omega
    simp [blockByte, hindex, hmod]
  rw [← hbit x, ← hbit y, h (7 - j / 8) (by omega)]

/-- Reading keeps the bytes in order. -/
theorem blockByte_readBlock (p : List Byte) (off : ℕ) {i : ℕ} (hi : i < 8) :
    blockByte (readBlock p off) i = p.getD (off + i) 0 := by
  have hbytes := forRange_inv (f := fun i (x : QWord) => (x <<< 8) ||| (p.getD (off + i) 0).setWidth 64)
    (s := 0) (P := fun m x => m ≤ 8 → ∀ j < m, (x >>> (8 * (m - 1 - j))).setWidth 8 = p.getD (off + j) 0)
    (Nat.zero_le 8) (fun _ j hj => absurd hj (Nat.not_lt_zero j)) ?_ (Nat.le_refl 8) i hi
  · have hshift : 56 - 8 * i = 8 * (8 - 1 - i) := by omega
    rw [blockByte, hshift]
    exact hbytes
  · intro m x _ hm ih _ j hj
    by_cases hjm : j = m
    · have hzero : m + 1 - 1 - j = 0 := by omega
      rw [hzero, hjm]
      apply BitVec.eq_of_getLsbD_eq
      intro k hk
      simp [hk]
    · rw [← ih (by omega) j (by omega)]
      apply BitVec.eq_of_getLsbD_eq
      intro k hk
      have hout : (p.getD (off + m) 0).getLsbD (8 * (m + 1 - 1 - j) + k) = false :=
        BitVec.getLsbD_of_ge _ _ (by omega)
      have hin : 8 * (m + 1 - 1 - j) + k < 64 := by omega
      have hhigh : ¬ 8 * (m + 1 - 1 - j) + k < 8 := by omega
      have hdown : 8 * (m + 1 - 1 - j) + k - 8 = 8 * (m - 1 - j) + k := by omega
      simp only [BitVec.getLsbD_setWidth, BitVec.getLsbD_ushiftRight, BitVec.getLsbD_or, BitVec.getLsbD_shiftLeft,
        hout, hin, hhigh, hdown, hk, decide_true, decide_false, Bool.not_false, Bool.true_and, Bool.and_false,
        Bool.or_false]

theorem readBlock_eq {p : List Byte} {off : ℕ} {x : QWord} (h : ∀ i < 8, p.getD (off + i) 0 = blockByte x i) :
    readBlock p off = x :=
  eq_of_blockByte fun i hi => by rw [blockByte_readBlock p off hi, h i hi]

theorem avDesCrypt_succ (d : AVDES) (src : List Byte) (count : ℕ) (decrypt : Bool) :
    avDesCrypt d src (count + 1) decrypt =
      avDesCrypt d src count decrypt ++ blockBytes (avDesBlock d (readBlock src (8 * count)) decrypt) := by
  unfold avDesCrypt
  rw [List.range_succ, List.flatMap_append, List.flatMap_singleton]

theorem avDesCrypt_length (d : AVDES) (src : List Byte) (count : ℕ) (decrypt : Bool) :
    (avDesCrypt d src count decrypt).length = 8 * count := by
  induction count with
  | zero => rfl
  | succ count ih => rw [avDesCrypt_succ, List.length_append, ih, blockBytes_length, Nat.mul_succ]

theorem avDesCrypt_getD (d : AVDES) (src : List Byte) (decrypt : Bool) {count n i : ℕ} (hn : n < count) (hi : i < 8) :
    (avDesCrypt d src count decrypt).getD (8 * n + i) 0 = blockByte (avDesBlock d (readBlock src (8 * n)) decrypt) i := by
  induction count with
  | zero => exact absurd hn (Nat.not_lt_zero n)
  | succ count ih =>
    have hlen := avDesCrypt_length d src count decrypt
    rw [avDesCrypt_succ]
    by_cases hlast : n = count
    · have hoff : 8 * n + i - (avDesCrypt d src count decrypt).length = i := by omega
      rw [List.getD_append_right _ _ _ _ (by omega), hoff, blockBytes_getD _ hi, hlast]
    · rw [List.getD_append _ _ _ _ (by omega), ih (by omega)]

/-- Block `n` of a buffer that begins with what `av_des_crypt` wrote. -/
theorem readBlock_avDesCrypt (d : AVDES) (src tail : List Byte) (decrypt : Bool) {count n : ℕ} (hn : n < count) :
    readBlock (avDesCrypt d src count decrypt ++ tail) (8 * n) = avDesBlock d (readBlock src (8 * n)) decrypt := by
  refine readBlock_eq fun i hi => ?_
  have hlen := avDesCrypt_length d src count decrypt
  rw [List.getD_append _ _ _ _ (by omega), avDesCrypt_getD d src decrypt hn hi]

theorem blockBytes_readBlock {src : List Byte} {off : ℕ} (hoff : off + 8 ≤ src.length) :
    blockBytes (readBlock src off) = (src.drop off).take 8 := by
  refine List.ext_getElem (by simp [blockBytes_length]; omega) fun i hi hi' => ?_
  have hi8 : i < 8 := by rwa [blockBytes_length] at hi
  rw [← List.getD_eq_getElem _ 0 hi, blockBytes_getD _ hi8, blockByte_readBlock _ _ hi8,
    List.getD_eq_getElem _ _ (by omega), List.getElem_take, List.getElem_drop]

/-- Decrypting a buffer that begins with a ciphertext gives back the plaintext. -/
theorem avDesCrypt_decrypt (d : AVDES) (src tail : List Byte) (count : ℕ) (hlen : 8 * count ≤ src.length) :
    avDesCrypt d (avDesCrypt d src count false ++ tail) count true = src.take (8 * count) := by
  have hblocks : ∀ m ≤ count, avDesCrypt d (avDesCrypt d src count false ++ tail) m true = src.take (8 * m) := by
    intro m hm
    induction m with
    | zero => rfl
    | succ m ih =>
      rw [avDesCrypt_succ, ih (by omega), readBlock_avDesCrypt d src tail false (by omega), avDesBlock_decrypt,
        blockBytes_readBlock (by omega), Nat.mul_succ, ← List.take_add]
  exact hblocks count (Nat.le_refl count)

/-- The later two keys of a name of at most eight characters are equal, and cancel. -/
theorem avDesBlock_equalKeys (K₀ K : List QWord) (x : QWord) (decrypt : Bool) :
    avDesBlock ⟨[K₀, K, K], true⟩ x decrypt = avDesBlock ⟨[K₀], false⟩ x decrypt := by
  cases decrypt with
  | false => exact desEncdec_encrypt (desEncdec x K₀ false) K
  | true => exact congrArg (desEncdec · K₀ true) (desEncdec_encrypt x K)

theorem avDesCrypt_equalKeys (K₀ K : List QWord) (src : List Byte) (count : ℕ) (decrypt : Bool) :
    avDesCrypt ⟨[K₀, K, K], true⟩ src count decrypt = avDesCrypt ⟨[K₀], false⟩ src count decrypt := by
  unfold avDesCrypt
  simp only [avDesBlock_equalKeys]

end StarLib.LicenseLib
