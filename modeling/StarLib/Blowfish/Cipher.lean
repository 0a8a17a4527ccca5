import StarLib.Blowfish.Tables
import StarLib.Foundations.Layouts

/-! # Blowfish

`Blowfish.cpp`. `key_pbox` and `key_sbox` are static: every call finds in them what the calls before it left.
-/

namespace StarLib.Blowfish
open Foundations
set_option autoImplicit false
set_option maxHeartbeats 250000
set_option maxRecDepth 120000

def MINKEYBYTES : ℤ := 4

def N : ℕ := 16

def MAXKEYBYTES : ℤ := 56

inductive Code
  | BLOWFISH_SUCCESS
  | BLOWFISH_NULL
  | BLOWFISH_INPUTTOOSHORT
  | BLOWFISH_INPUTTOOLONG
  deriving DecidableEq

/-- The static arrays. -/
structure Boxes where
  key_pbox : ℕ → DWord
  key_sbox : ℕ → ℕ → DWord

/-! ## Blocks -/

def F (t : Boxes) (x : DWord) : DWord :=
  ((t.key_sbox 0 ((x >>> 24) &&& 0xFF).toNat + t.key_sbox 1 ((x >>> 16) &&& 0xFF).toNat) ^^^
    t.key_sbox 2 ((x >>> 8) &&& 0xFF).toNat) + t.key_sbox 3 (x &&& 0xFF).toNat

/-- A turn of the loops of `Encrypt` and `Decrypt`. -/
def turn (t : Boxes) (i : ℕ) (x : DWord × DWord) : DWord × DWord :=
  let Xl := x.1 ^^^ t.key_pbox i
  let Xr := F t Xl ^^^ x.2
  (Xr, Xl)

/-- What `Encrypt` leaves in `*xl` and `*xr`. -/
def encrypt (t : Boxes) (x : DWord × DWord) : DWord × DWord :=
  let x := forRange 0 N (turn t) x
  let (Xl, Xr) := (x.2, x.1)
  (Xl ^^^ t.key_pbox (N + 1), Xr ^^^ t.key_pbox N)

/-- What `Decrypt` leaves there. -/
def decrypt (t : Boxes) (x : DWord × DWord) : DWord × DWord :=
  let x := forRange 0 N (fun k => turn t (N + 1 - k)) x
  let (Xl, Xr) := (x.2, x.1)
  (Xl ^^^ t.key_pbox 0, Xr ^^^ t.key_pbox 1)

/-! ## The key -/

def sboxTurn (i j : ℕ) (s : ℕ → ℕ → DWord) : ℕ → ℕ → DWord :=
  Function.update s i (Function.update (s i) j ((sbox.getD i []).getD j 0))

/-- The loops of `InitKey` that fill `key_sbox`. -/
def fillSbox (s : ℕ → ℕ → DWord) : ℕ → ℕ → DWord := forRange 0 4 (fun i s => forRange 0 256 (sboxTurn i) s) s

/-- Four bytes of the key as a word, and the index of the next byte. -/
def keyWord (key : ℕ → Byte) (keyLen : ℤ) (nIndex : ℕ) : ℕ × DWord :=
  forRange 0 4 (fun _ s =>
    let data := (s.2 <<< 8) ||| (key s.1).setWidth 32
    let nIndex := s.1 + 1
    (if keyLen ≤ nIndex then 0 else nIndex, data)) (nIndex, 0)

def pboxTurn (key : ℕ → Byte) (keyLen : ℤ) (i : ℕ) (s : ℕ × (ℕ → DWord)) : ℕ × (ℕ → DWord) :=
  let w := keyWord key keyLen s.1
  (w.1, Function.update s.2 i (pbox.getD i 0 ^^^ w.2))

/-- The loop of `InitKey` that fills `key_pbox`. -/
def fillPbox (key : ℕ → Byte) (keyLen : ℤ) (p : ℕ → DWord) : ℕ → DWord :=
  (forRange 0 (N + 2) (pboxTurn key keyLen) (0, p)).2

/-- The tables and the block that `InitKey` encrypts again and again. -/
structure Chain where
  boxes : Boxes
  x : DWord × DWord

def chainPbox (k : ℕ) (s : Chain) : Chain :=
  let x := encrypt s.boxes s.x
  let p := Function.update s.boxes.key_pbox (2 * k) x.1
  ⟨{ s.boxes with key_pbox := Function.update p (2 * k + 1) x.2 }, x⟩

def chainSbox (i k : ℕ) (s : Chain) : Chain :=
  let x := encrypt s.boxes s.x
  let row := Function.update (s.boxes.key_sbox i) (2 * k) x.1
  ⟨{ s.boxes with key_sbox := Function.update s.boxes.key_sbox i (Function.update row (2 * k + 1) x.2) }, x⟩

/-- What `InitKey` does for a key that it accepts. -/
def expandKey (key : ℕ → Byte) (keyLen : ℤ) (t : Boxes) : Boxes :=
  let t : Boxes := ⟨fillPbox key keyLen t.key_pbox, fillSbox t.key_sbox⟩
  let s := forRange 0 ((N + 2) / 2) chainPbox ⟨t, (0, 0)⟩
  (forRange 0 4 (fun i s => forRange 0 128 (chainSbox i) s) s).boxes

/-- `InitKey`; no key is the null pointer. -/
def initKey (key : Option (ℕ → Byte)) (keyLen : ℤ) (t : Boxes) : Code × Boxes :=
  match key with
  | none => (.BLOWFISH_NULL, t)
  | some key =>
    if keyLen < MINKEYBYTES then (.BLOWFISH_INPUTTOOSHORT, t)
    else if MAXKEYBYTES < keyLen then (.BLOWFISH_INPUTTOOLONG, t)
    else (.BLOWFISH_SUCCESS, expandKey key keyLen t)

/-! ## Buffers -/

/-- `*pLeft` and `*pRight` through a cipher. -/
def inPlace (f : DWord × DWord → DWord × DWord) (pLeft pRight : ℕ) (mem : Ram) : Ram :=
  let x := f (Layout.word.load mem pLeft, Layout.word.load mem pRight)
  Layout.word.store pRight x.2 (Layout.word.store pLeft x.1 mem)

/-- `BlowFishEncrypt`. -/
def blowFishEncrypt (t : Boxes) (pData : ℕ) (DataLen : ℤ) (IsEncrypt : Bool) (mem : Ram) : Ram :=
  if pData = 0 then mem
  else forRange 0 (DataLen.tdiv 8).toNat (fun i mem =>
    inPlace (if IsEncrypt then encrypt t else decrypt t) (pData + 4 * (2 * i)) (pData + 4 * (2 * i + 1)) mem) mem

end StarLib.Blowfish
