import StarLib.Idea.Multiply
import StarLib.Foundations.Layouts

/-! # The IDEA block cipher

The key schedules, `cipher_idea`, and `Encode` and `Decode` over buffers. A `word16` has 32 bits: the words of the
schedule are not cut to 16 bits, and a block has 16 bytes.
-/

namespace StarLib.Idea
open Foundations
set_option autoImplicit false
set_option maxHeartbeats 250000
set_option maxRecDepth 120000

def ROUNDS : ℕ := 8

def KEYLEN : ℕ := 6 * ROUNDS + 4

/-! ## Key schedules -/

/-- The variables of the loop of `en_key_idea`; `base` is how far `Z` has moved. -/
structure EnKeyRun where
  Z : ℕ → DWord
  base : ℕ
  i : ℕ

def enKeyTurn (s : EnKeyRun) : EnKeyRun :=
  let i := s.i + 1
  let w := (s.Z (s.base + (i &&& 7)) <<< 9) ||| (s.Z (s.base + (i + 1 &&& 7)) >>> 7)
  ⟨Function.update s.Z (s.base + (i + 7)) w, s.base + (i &&& 8), i &&& 7⟩

/-- `en_key_idea`. -/
def enKeyIdea (userkey : ℕ → DWord) : ℕ → DWord :=
  (forRange 8 KEYLEN (fun _ => enKeyTurn) ⟨fill 8 userkey fun _ => 0, 0, 0⟩).Z

/-- The variables of `de_key_idea`: how far `Z` and `p` have moved, and `T`. -/
structure DeKeyRun where
  z : ℕ
  p : ℕ
  T : ℕ → DWord

/-- `*--p = w`. -/
def DeKeyRun.push (s : DeKeyRun) (w : DWord) : DeKeyRun := { s with p := s.p - 1, T := Function.update s.T (s.p - 1) w }

/-- The two words for the middle of a round. -/
def DeKeyRun.copies (Z : ℕ → DWord) (s : DeKeyRun) : DeKeyRun :=
  let t1 := Z s.z
  let s' := (s.push (Z (s.z + 1))).push t1
  { s' with z := s.z + 2 }

/-- The inverses of four words; `kept` says whether the second and the third stay in their places. -/
def DeKeyRun.inverses (Z : ℕ → DWord) (kept : Bool) (s : DeKeyRun) : Option DeKeyRun :=
  (inv (Z s.z)).bind fun t1 =>
    let t2 := -Z (s.z + 1)
    let t3 := -Z (s.z + 2)
    (inv (Z (s.z + 3))).map fun t4 =>
      let s' := s.push t4
      let s' := if kept then (s'.push t3).push t2 else (s'.push t2).push t3
      { s'.push t1 with z := s.z + 4 }

/-- `de_key_idea`. -/
def deKeyIdea (Z : ℕ → DWord) : Option (ℕ → DWord) :=
  let s := DeKeyRun.inverses Z true ⟨0, KEYLEN, fun _ => 0⟩
  let s := forRange 1 ROUNDS (fun _ s => s.bind fun s => (s.copies Z).inverses Z false) s
  let s := s.bind fun s => (s.copies Z).inverses Z true
  s.map fun s => s.T

/-! ## Blocks -/

structure Block where
  x1 : DWord
  x2 : DWord
  x3 : DWord
  x4 : DWord

/-- A turn of the loop of `cipher_idea`. -/
def cipherTurn (Z : ℕ → DWord) (z : ℕ) (b : Block) : Block :=
  let x1 := MUL b.x1 (Z z)
  let x2 := b.x2 + Z (z + 1)
  let x3 := b.x3 + Z (z + 2)
  let x4 := MUL b.x4 (Z (z + 3))
  let t2 := x1 ^^^ x3
  let t2 := MUL t2 (Z (z + 4))
  let t1 := t2 + (x2 ^^^ x4)
  let t1 := MUL t1 (Z (z + 5))
  let t2 := t1 + t2
  let x1 := x1 ^^^ t1
  let x4 := x4 ^^^ t2
  let t2 := t2 ^^^ x2
  let x2 := x3 ^^^ t1
  let x3 := t2
  ⟨x1, x2, x3, x4⟩

/-- `cipher_idea`. -/
def cipherIdea (Z : ℕ → DWord) (b : Block) : Block :=
  let b := forRange 0 ROUNDS (fun r => cipherTurn Z (6 * r)) b
  ⟨MUL b.x1 (Z (6 * ROUNDS)), b.x3 + Z (6 * ROUNDS + 1), b.x2 + Z (6 * ROUNDS + 2), MUL b.x4 (Z (6 * ROUNDS + 3))⟩

/-- The four words in memory. -/
def block : Layout Block :=
  (Layout.word.pair (Layout.word.pair (Layout.word.pair Layout.word))).along
    { toFun := fun b => (b.x1, b.x2, b.x3, b.x4)
      invFun := fun w => ⟨w.1, w.2.1, w.2.2.1, w.2.2.2⟩
      left_inv := fun _ => rfl
      right_inv := fun _ => rfl }

/-! ## Buffers -/

/-- The loop of `Encode` and of `Decode`, where `i` is 0, 16, 32, … below `nSize / 16`. -/
def cipherBuffer (Z : ℕ → DWord) (pIn pOut nSize : ℕ) (mem : Ram) : Ram :=
  forRange 0 ((nSize / 16 + 15) / 16) (fun k mem =>
    let i := 16 * k
    block.store (pOut + i) (cipherIdea Z (block.load mem (pIn + i))) mem) mem

/-- `Encode`, for `nSize` of zero or more. -/
def encode (pIn pOut nSize : ℕ) (key : ℕ → DWord) (mem : Ram) : Ram := cipherBuffer (enKeyIdea key) pIn pOut nSize mem

/-- `Decode`. -/
def decode (pIn pOut nSize : ℕ) (key : ℕ → DWord) (mem : Ram) : Option Ram :=
  (deKeyIdea (enKeyIdea key)).map fun DK => cipherBuffer DK pIn pOut nSize mem

end StarLib.Idea
