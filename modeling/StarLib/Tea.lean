import StarLib.Foundations.Layouts

/-! # TEA

`TEA.cpp` passes the destination of a block as the second parameter of `_Encode`, which takes its key from
there before it writes the result: every block is enciphered under what the destination held. `_Decode` does
the same, so that a second destination with the same content restores what was encoded into the first.
-/

namespace StarLib.Tea
open Foundations
set_option autoImplicit false
set_option maxHeartbeats 250000
set_option maxRecDepth 120000

def delta : DWord := 0x9e3779b9

/-- The variables of the loop of `_Encode`. -/
structure Cycle where
  y : DWord
  z : DWord
  sum : DWord

def cycle (a b : DWord) (s : Cycle) : Cycle :=
  let c := a
  let d := b
  let sum := s.sum + delta
  let y := s.y + (((s.z <<< 4) + a) ^^^ (s.z + sum) ^^^ ((s.z >>> 5) + b))
  let z := s.z + (((y <<< 4) + c) ^^^ (y + sum) ^^^ ((y >>> 5) + d))
  ⟨y, z, sum⟩

/-- What `_Encode` makes of the words at `v`, with the words at `k`. -/
def encodeWords (k v : DWord × DWord) : DWord × DWord :=
  let s := forRange 0 32 (fun _ => cycle k.1 k.2) ⟨v.1, v.2, 0⟩
  (s.y, s.z)

/-- `_Encode`. -/
def encodeBlock (v k : ℕ) (mem : Ram) : Ram :=
  let w := encodeWords (Layout.word.load mem k, Layout.word.load mem (k + 4))
    (Layout.word.load mem v, Layout.word.load mem (v + 4))
  Layout.word.store (k + 4) w.2 (Layout.word.store k w.1 mem)

/-- `Encode`, for `nSize` of zero or more. -/
def encode (pIn pOut nSize : ℕ) (mem : Ram) : Ram :=
  let nMulti := nSize / 8
  let nRest := nSize % 8
  let mem := forRange 0 nMulti (fun i mem => encodeBlock (pIn + 8 * i) (pOut + 8 * i) mem) mem
  forRange 0 nRest (fun i mem =>
    Function.update mem (pOut + 8 * nMulti + i) (mem (pIn + 8 * nMulti + i) ^^^ 0x9e)) mem

/-! ## What a ciphertext depends on -/

def block : Layout (DWord × DWord) := Layout.word.pair Layout.word

theorem encodeBlock_eq (v k : ℕ) (mem : Ram) :
    encodeBlock v k mem = block.store k (encodeWords (block.load mem k) (block.load mem v)) mem := by
  unfold encodeBlock block
  rw [Layout.pair_store, Layout.pair_load, Layout.pair_load]
  rfl

/-- The loop over the whole blocks. -/
def blocks (pIn pOut n : ℕ) (mem : Ram) : Ram :=
  forRange 0 n (fun i mem => encodeBlock (pIn + 8 * i) (pOut + 8 * i) mem) mem

def Apart (pIn pOut n : ℕ) : Prop := pOut + n ≤ pIn ∨ pIn + n ≤ pOut

theorem blocks_eq (pIn pOut n : ℕ) (mem : Ram) : blocks pIn pOut n mem = block.blendBlocks encodeWords pOut pIn n mem :=
  forRange_congr mem fun _ _ _ _ => encodeBlock_eq _ _ _

theorem encode_eq (pIn pOut n : ℕ) (mem : Ram) :
    encode pIn pOut n mem = block.blendBuffer encodeWords (· ^^^ 0x9e) pOut pIn n mem := by
  have hsize : block.size = 8 := rfl
  unfold Layout.blendBuffer
  rw [hsize, ← blocks_eq, ← Layout.mapBytes_eq (· ^^^ 0x9e)]
  rfl

theorem encode_block {pIn pOut n : ℕ} (h : Apart pIn pOut n) (mem : Ram) {i : ℕ} (hi : i < n / 8) :
    block.load (encode pIn pOut n mem) (pOut + 8 * i) =
      encodeWords (block.load mem (pOut + 8 * i)) (block.load mem (pIn + 8 * i)) := by
  rw [encode_eq]
  exact block.blendBuffer_block h hi

theorem encode_rest {pIn pOut n : ℕ} (h : Apart pIn pOut n) (mem : Ram) {i : ℕ} (hi : i < n % 8) :
    encode pIn pOut n mem (pOut + 8 * (n / 8) + i) = mem (pIn + 8 * (n / 8) + i) ^^^ 0x9e := by
  rw [encode_eq]
  exact block.blendBuffer_rest h hi

/-! ## A function of the plaintext -/

/-- Memories with one plaintext give one ciphertext, whatever the destination held. -/
def FunctionOfPlaintext (pIn pOut n : ℕ) : Prop :=
  ∀ mem mem' : Ram, (∀ i < n, mem (pIn + i) = mem' (pIn + i)) →
    ∀ p < n, encode pIn pOut n mem (pOut + p) = encode pIn pOut n mem' (pOut + p)

/-- A block of zeros under the keys 0, 0 and 1, 0. -/
theorem keys_differ : encodeWords (0, 0) (0, 0) ≠ encodeWords (1, 0) (0, 0) := by decide

/-- Zeros, and 1 at one address. -/
def oneAt (a : ℕ) : Ram := fun p => if p = a then 1 else 0

theorem zeros_load (a : ℕ) : block.load (fun _ => 0) a = (0, 0) := by
  show block.ofBytes (fun _ => 0) = (0, 0)
  decide

theorem oneAt_load (a : ℕ) : block.load (oneAt a) a = (1, 0) := by
  have hbyte : ∀ i, oneAt a (a + i) = oneAt 0 i := by
    intro i
    unfold oneAt
    simp only [Nat.add_eq_left]
  show block.ofBytes (fun i => oneAt a (a + i)) = (1, 0)
  rw [funext hbyte]
  decide

theorem functionOfPlaintext_iff {pIn pOut n : ℕ} (h : Apart pIn pOut n) : FunctionOfPlaintext pIn pOut n ↔ n < 8 := by
  constructor
  · intro hfun
    by_contra hn
    have hsize : block.size = 8 := rfl
    have hplain : ∀ i < n, (0 : Byte) = oneAt pOut (pIn + i) := by
      intro i hi
      have hne : pIn + i ≠ pOut := by
        unfold Apart at h
        omega
      exact (if_neg hne).symm
    have hbytes := hfun (fun _ => 0) (oneAt pOut) hplain
    have hload : block.load (encode pIn pOut n fun _ => 0) pOut = block.load (encode pIn pOut n (oneAt pOut)) pOut :=
      block.load_congr fun i hi => hbytes i (by omega)
    have hsource : block.load (oneAt pOut) pIn = (0, 0) := by
      rw [← zeros_load pIn]
      exact block.load_congr fun i hi => (hplain i (by omega)).symm
    have hzeros := encode_block h (fun _ => 0) (i := 0) (by omega)
    have hone := encode_block h (oneAt pOut) (i := 0) (by omega)
    rw [Nat.mul_zero, Nat.add_zero, Nat.add_zero, zeros_load, zeros_load] at hzeros
    rw [Nat.mul_zero, Nat.add_zero, Nat.add_zero, oneAt_load, hsource] at hone
    rw [hzeros, hone] at hload
    exact keys_differ hload
  · intro hn mem mem' hplain p hp
    have hnone : n / 8 = 0 := by omega
    have hrest : p < n % 8 := by omega
    have hbyte := encode_rest h mem hrest
    have hbyte' := encode_rest h mem' hrest
    rw [hnone, Nat.mul_zero, Nat.add_zero, Nat.add_zero] at hbyte hbyte'
    rw [hbyte, hbyte', hplain p hp]

theorem functionOfPlaintext_sample : FunctionOfPlaintext 0 16 7 ↔ 7 < 8 :=
  functionOfPlaintext_iff (Or.inr (by decide))

/-- Eight zeros at address 0, encoded to address 8, where the memory holds zeros or a 1. -/
theorem destination_decides : ¬ ∀ p < 8, encode 0 8 8 (fun _ => 0) (8 + p) = encode 0 8 8 (oneAt 8) (8 + p) := by
  decide

/-! ## Decoding -/

/-- The loop of `_Decode`. -/
def decodeCycle (a b : DWord) (s : Cycle) : Cycle :=
  let c := a
  let d := b
  let z := s.z - (((s.y <<< 4) + c) ^^^ (s.y + s.sum) ^^^ ((s.y >>> 5) + d))
  let y := s.y - (((z <<< 4) + a) ^^^ (z + s.sum) ^^^ ((z >>> 5) + b))
  let sum := s.sum - delta
  ⟨y, z, sum⟩

def decodeWords (k v : DWord × DWord) : DWord × DWord :=
  let s := forRange 0 32 (fun _ => decodeCycle k.1 k.2) ⟨v.1, v.2, 0xC6EF3720⟩
  (s.y, s.z)

/-- `_Decode`. -/
def decodeBlock (v k : ℕ) (mem : Ram) : Ram :=
  let w := decodeWords (Layout.word.load mem k, Layout.word.load mem (k + 4))
    (Layout.word.load mem v, Layout.word.load mem (v + 4))
  Layout.word.store (k + 4) w.2 (Layout.word.store k w.1 mem)

/-- `Decode`, for `nSize` of zero or more. -/
def decode (pIn pOut nSize : ℕ) (mem : Ram) : Ram :=
  let nMulti := nSize / 8
  let nRest := nSize % 8
  let mem := forRange 0 nMulti (fun i mem => decodeBlock (pIn + 8 * i) (pOut + 8 * i) mem) mem
  forRange 0 nRest (fun i mem =>
    Function.update mem (pOut + 8 * nMulti + i) (mem (pIn + 8 * nMulti + i) ^^^ 0x9e)) mem

theorem decodeCycle_cycle (a b : DWord) (s : Cycle) : decodeCycle a b (cycle a b s) = s := by
  unfold decodeCycle cycle
  simp only [BitVec.add_sub_cancel]

/-- After 32 turns the sum is the number that `_Decode` starts from. -/
theorem cycles_sum (a b y z : DWord) : (forRange 0 32 (fun _ => cycle a b) ⟨y, z, 0⟩).sum = 0xC6EF3720 := by
  have hsum : (forRange 0 32 (fun _ => cycle a b) ⟨y, z, 0⟩).sum = BitVec.ofNat 32 32 * delta := by
    refine forRange_inv (P := fun i (s : Cycle) => s.sum = BitVec.ofNat 32 i * delta) (Nat.zero_le 32) rfl ?_
    intro i s _ _ ih
    show s.sum + delta = _
    rw [ih, BitVec.ofNat_add, BitVec.add_mul, BitVec.one_mul]
  rw [hsum]
  decide

theorem decodeWords_encodeWords (k v : DWord × DWord) : decodeWords k (encodeWords k v) = v := by
  have hback := forRange_undo (n := 32) (fun _ _ => decodeCycle_cycle k.1 k.2) ⟨v.1, v.2, 0⟩
  have hsum := cycles_sum k.1 k.2 v.1 v.2
  unfold decodeWords encodeWords
  dsimp only
  rw [← hsum, hback]

theorem decodeBlock_eq (v k : ℕ) (mem : Ram) :
    decodeBlock v k mem = block.store k (decodeWords (block.load mem k) (block.load mem v)) mem := by
  unfold decodeBlock block
  rw [Layout.pair_store, Layout.pair_load, Layout.pair_load]
  rfl

theorem decode_eq (pIn pOut n : ℕ) (mem : Ram) :
    decode pIn pOut n mem = block.blendBuffer decodeWords (· ^^^ 0x9e) pOut pIn n mem := by
  have hsize : block.size = 8 := rfl
  have hblocks : forRange 0 (n / 8) (fun i mem => decodeBlock (pIn + 8 * i) (pOut + 8 * i) mem) mem =
      block.blendBlocks decodeWords pOut pIn (n / 8) mem := forRange_congr mem fun _ _ _ _ => decodeBlock_eq _ _ _
  unfold Layout.blendBuffer
  rw [hsize, ← hblocks, ← Layout.mapBytes_eq (· ^^^ 0x9e)]
  rfl

/-- What was encoded into one buffer is decoded into another one that held the same bytes. -/
theorem tea_restores {pIn pOut1 pOut2 n : ℕ} (h : Apart pIn pOut1 n) (h' : Apart pOut1 pOut2 n) (mem : Ram)
    (hcommon : ∀ p < n, mem (pOut2 + p) = mem (pOut1 + p)) {p : ℕ} (hp : p < n) :
    decode pOut1 pOut2 n (encode pIn pOut1 n mem) (pOut2 + p) = mem (pIn + p) := by
  have hmask : ∀ y : Byte, y ^^^ 0x9e ^^^ 0x9e = y := by
    intro y
    rw [BitVec.xor_assoc, BitVec.xor_self, BitVec.xor_zero]
  have hkept : ∀ q < n, encode pIn pOut1 n mem (pOut2 + q) = mem (pOut1 + q) := by
    intro q hq
    unfold Apart at h'
    rw [encode_eq, block.blendBuffer_apart (by omega), hcommon q hq]
  rw [decode_eq]
  refine block.blendBuffer_restore decodeWords_encodeWords hmask h h' (fun q _ => ?_) hkept hp
  rw [encode_eq]

/-- Eleven bytes and two buffers of zeros. -/
theorem tea_restores_sample :
    decode 16 32 11 (encode 0 16 11 fun p => if p < 11 then BitVec.ofNat 8 p else 0) (32 + 10) = (10 : Byte) :=
  @tea_restores 0 16 32 11 (Or.inr (by decide)) (Or.inr (by decide)) (fun p => if p < 11 then BitVec.ofNat 8 p else 0)
    (fun p hp => by rw [if_neg (by omega), if_neg (by omega)]) 10 (by decide)

end StarLib.Tea
