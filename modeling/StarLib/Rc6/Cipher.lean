import StarLib.Foundations.Arrays
import StarLib.Foundations.Layouts

/-! # RC6

`rc6-unop.cpp`: 20 rounds on four words, with rotations by amounts that the data decides. `S` is static,
and `SetKey` starts with a local array `L` that holds whatever was on the stack, its last word apart; both
are arguments here, with more words than the indices in use.
-/

namespace StarLib.Rc6
open Foundations
set_option autoImplicit false
set_option maxHeartbeats 250000
set_option maxRecDepth 120000

/-- The number of rounds. -/
def r : ℕ := 20

def P32 : DWord := 0xB7E15163

def Q32 : DWord := 0x9E3779B9

def R24 : ℕ := 2 * r + 4

def lgw : DWord := 5

/-- A rotation to the left by the amount modulo 32. -/
def ROTL (x y : DWord) : DWord := (x <<< (y &&& 31).toNat) ||| (x >>> (32 - (y &&& 31).toNat))

def ROTR (x y : DWord) : DWord := (x >>> (y &&& 31).toNat) ||| (x <<< (32 - (y &&& 31).toNat))

/-! ## The key -/

/-- The state of the mixing loop of `rc6_key_setup`. -/
structure Mix where
  A : DWord
  B : DWord
  i : ℕ
  j : ℕ
  S : ℕ → DWord
  L : ℕ → DWord

def mixTurn (c : ℕ) (s : Mix) : Mix :=
  let A := ROTL (s.S s.i + s.A + s.B) 3
  let B := ROTL (s.L s.j + A + s.B) (A + s.B)
  ⟨A, B, (s.i + 1) % R24, (s.j + 1) % c, Function.update s.S s.i A, Function.update s.L s.j B⟩

/-- The words of the key: the bytes from the last one down, each into the word that it belongs to. -/
def keyWords (L : ℕ → DWord) (K : ℕ → Byte) (b : ℕ) : ℕ → DWord :=
  let L := Function.update L ((b + 3) / 4 - 1) 0
  forRange 0 b (fun n L =>
    let i := b - 1 - n
    Function.update L (i / 4) ((L (i / 4) <<< 8) + (K i).setWidth 32)) L

def initialS (S : ℕ → DWord) : ℕ → DWord :=
  let S := Function.update S 0 P32
  forRange 1 (2 * r + 4) (fun i S => Function.update S i (S (i - 1) + Q32)) S

/-- `rc6_key_setup`; what it leaves in `S`. -/
def rc6KeySetup (S L : ℕ → DWord) (K : ℕ → Byte) (b : ℕ) : ℕ → DWord :=
  let c := (b + 3) / 4
  let v := if R24 < c then c else R24
  (forRange 0 (3 * v) (fun _ => mixTurn c) ⟨0, 0, 0, 0, initialS S, keyWords L K b⟩).S

/-! ## Blocks -/

structure Quad where
  A : DWord
  B : DWord
  C : DWord
  D : DWord

/-- A turn of the loop of `rc6_block_encrypt`. -/
def encryptTurn (S : ℕ → DWord) (i : ℕ) (q : Quad) : Quad :=
  let t := ROTL (q.B * (2 * q.B + 1)) lgw
  let u := ROTL (q.D * (2 * q.D + 1)) lgw
  let A := ROTL (q.A ^^^ t) u + S i
  let C := ROTL (q.C ^^^ u) t + S (i + 1)
  ⟨q.B, C, q.D, A⟩

/-- A turn of the loop of `rc6_block_decrypt`. -/
def decryptTurn (S : ℕ → DWord) (i : ℕ) (q : Quad) : Quad :=
  let q : Quad := ⟨q.D, q.A, q.B, q.C⟩
  let u := ROTL (q.D * (2 * q.D + 1)) lgw
  let t := ROTL (q.B * (2 * q.B + 1)) lgw
  let C := ROTR (q.C - S (i + 1)) t ^^^ u
  let A := ROTR (q.A - S i) u ^^^ t
  ⟨A, q.B, C, q.D⟩

def encryptWords (S : ℕ → DWord) (q : Quad) : Quad :=
  let q := { q with B := q.B + S 0, D := q.D + S 1 }
  let q := forRange 0 r (fun k => encryptTurn S (2 * k + 2)) q
  { q with A := q.A + S (2 * r + 2), C := q.C + S (2 * r + 3) }

def decryptWords (S : ℕ → DWord) (q : Quad) : Quad :=
  let q := { q with C := q.C - S (2 * r + 3), A := q.A - S (2 * r + 2) }
  let q := forRange 0 r (fun k => decryptTurn S (2 * r - 2 * k)) q
  { q with D := q.D - S 1, B := q.B - S 0 }

/-- `pt[0]`, …, `pt[3]`. -/
def readQuad (mem : Ram) (p : ℕ) : Quad :=
  ⟨Layout.word.load mem p, Layout.word.load mem (p + 4), Layout.word.load mem (p + 8), Layout.word.load mem (p + 12)⟩

def writeQuad (p : ℕ) (q : Quad) (mem : Ram) : Ram :=
  let mem := Layout.word.store p q.A mem
  let mem := Layout.word.store (p + 4) q.B mem
  let mem := Layout.word.store (p + 8) q.C mem
  Layout.word.store (p + 12) q.D mem

/-- `rc6_block_encrypt`. -/
def rc6BlockEncrypt (S : ℕ → DWord) (pt ct : ℕ) (mem : Ram) : Ram := writeQuad ct (encryptWords S (readQuad mem pt)) mem

/-- `rc6_block_decrypt`. -/
def rc6BlockDecrypt (S : ℕ → DWord) (ct pt : ℕ) (mem : Ram) : Ram := writeQuad pt (decryptWords S (readQuad mem ct)) mem

/-! ## Buffers -/

/-- The loop over the bytes after the last whole block. -/
def maskRest (pInRest pOutRest nRest : ℕ) (mem : Ram) : Ram :=
  forRange 0 nRest (fun i mem => Function.update mem (pOutRest + i) (mem (pInRest + i) ^^^ 0x9e)) mem

/-- `Encode`, for `nSize` of zero or more. -/
def encode (S : ℕ → DWord) (pIn pOut nSize : ℕ) (mem : Ram) : Ram :=
  let nMulti := nSize / 16
  let nRest := nSize % 16
  let mem := forRange 0 nMulti (fun i mem => rc6BlockEncrypt S (pIn + i * 16) (pOut + i * 16) mem) mem
  maskRest (pIn + nMulti * 16) (pOut + nMulti * 16) nRest mem

/-- `Decode`. -/
def decode (S : ℕ → DWord) (pIn pOut nSize : ℕ) (mem : Ram) : Ram :=
  let nMulti := nSize / 16
  let nRest := nSize % 16
  let mem := forRange 0 nMulti (fun i mem => rc6BlockDecrypt S (pIn + i * 16) (pOut + i * 16) mem) mem
  maskRest (pIn + nMulti * 16) (pOut + nMulti * 16) nRest mem

end StarLib.Rc6
