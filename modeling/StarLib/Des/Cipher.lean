import StarLib.Des.Tables
import StarLib.Foundations.Arrays
import StarLib.Foundations.BitArrays

/-! # `Des_Go`

`Des.cpp` works on arrays of booleans, one a bit, the lowest bit of a byte first; here an array of `n`
booleans is a word of `n` bits. The working arrays, the sub-keys and the flag for triple DES are static
objects: they hold what the last call left. A buffer is the memory from an address on, so that input and
output may be the same bytes.

The key pointer of a call is taken as non-null, and the `memcpy` of `RotateL`, whose areas overlap, as
copying upwards.
-/

namespace StarLib.Des
open Foundations
set_option autoImplicit false
set_option maxHeartbeats 250000
set_option maxRecDepth 120000

def ENCRYPT : Bool := false

def DECRYPT : Bool := true

/-- The static objects. `M`, `tmp`, `K` and `MR` belong to `DES`, `DES`, `SetSubKey` and `F_func`. -/
structure Statics where
  SubKey : ℕ → ℕ → BitVec 48
  Is3DES : Bool
  Tmp : BitVec 256
  deskey : ℕ → Byte
  M : BitVec 64
  tmp : BitVec 32
  K : BitVec 64
  MR : BitVec 48

/-! ## Bits -/

variable {n m : ℕ}

/-- `ByteToBit`. -/
def byteToBit (Out : BitVec n) (In : ℕ → Byte) (bits : ℕ) : BitVec n :=
  fillBits 0 bits (fun i => (In (i / 8)).getLsbD (i % 8)) Out

/-- `BitToByte`, its loop cut into the turns for one byte and the next. -/
def bitToByte (Out : ℕ → Byte) (In : BitVec n) (bits : ℕ) : ℕ → Byte :=
  fill (bits / 8) (fun b => forRange 0 8 (fun t byte =>
    byte ||| ((BitVec.ofBool (In.getLsbD (8 * b + t))).setWidth 8 <<< t)) 0) Out

/-- `Transform`, with the scratch array it goes through. -/
def transform (Tmp : BitVec 256) (Out : BitVec m) (In : BitVec n) (Table : List ℕ) (len : ℕ) : BitVec 256 × BitVec m :=
  let Tmp := fillBits 0 len (fun i => In.getLsbD (Table.getD i 0 - 1)) Tmp
  (Tmp, fillBits 0 len Tmp.getLsbD Out)

/-- `Xor`. -/
def xor (InA InB : BitVec n) (len : ℕ) : BitVec n :=
  forRange 0 len (fun i A => setBit A i (A.getLsbD i ^^ InB.getLsbD i)) InA

/-- `RotateL`, of the `len` cells from `off` on, with its scratch array. -/
def rotateL (Tmp : BitVec 256) (In : BitVec n) (off len loop : ℕ) : BitVec 256 × BitVec n :=
  let Tmp := fillBits 0 loop (fun i => In.getLsbD (off + i)) Tmp
  let In := fillBits off (len - loop) (fun i => In.getLsbD (off + loop + i)) In
  (Tmp, fillBits (off + len - loop) loop Tmp.getLsbD In)

/-! ## The round function -/

/-- `S_Box[i][j][k]`, for the six bits from cell `6 * i` on. -/
def sEntry (In : BitVec 48) (i : ℕ) : Byte :=
  let b := fun t => (In.getLsbD (6 * i + t)).toNat
  let j := 2 * b 0 + b 5
  let k := 8 * b 1 + 4 * b 2 + 2 * b 3 + b 4
  ((S_Box.getD i []).getD j []).getD k 0

/-- `S_func`. -/
def sFunc (Out : BitVec 32) (In : BitVec 48) : BitVec 32 :=
  forRange 0 8 (fun i Out => fillBits (4 * i) 4 (sEntry In i).getLsbD Out) Out

/-- `F_func`: the static objects afterwards, and what is in `In`. -/
def fFunc (s : Statics) (In : BitVec 32) (Ki : BitVec 48) : Statics × BitVec 32 :=
  let e := transform s.Tmp s.MR In E_Table 48
  let MR := xor e.2 Ki 48
  let In := sFunc In MR
  let p := transform e.1 In In P_Table 32
  ({ s with Tmp := p.1, MR := MR }, p.2)

/-! ## Sub-keys -/

/-- A turn of `SetSubKey`: the two rotations, and the sub-key that it writes. -/
def subKeyTurn (which i : ℕ) (s : Statics) : Statics :=
  let l := rotateL s.Tmp s.K 0 28 (LOOP_Table.getD i 0)
  let r := rotateL l.1 l.2 28 28 (LOOP_Table.getD i 0)
  let t := transform r.1 (s.SubKey which i) r.2 PC2_Table 48
  { s with K := r.2, Tmp := t.1, SubKey := Function.update s.SubKey which (Function.update (s.SubKey which) i t.2) }

/-- `SetSubKey(&SubKey[which], Key)`. -/
def setSubKey (s : Statics) (which : ℕ) (Key : ℕ → Byte) : Statics :=
  let K := byteToBit s.K Key 64
  let t := transform s.Tmp K K PC1_Table 56
  forRange 0 16 (subKeyTurn which) { s with K := t.2, Tmp := t.1 }

/-- `SetKey`. -/
def setKey (s : Statics) (Key : ℕ → Byte) (len : ℕ) : Statics :=
  let deskey := fill 16 (fun _ => 0) s.deskey
  let deskey := fill (if 16 < len then 16 else len) Key deskey
  let s := setSubKey { s with deskey := deskey } 0 deskey
  if 8 < len then { setSubKey s 1 (fun i => deskey (8 + i)) with Is3DES := true } else { s with Is3DES := false }

/-! ## Blocks -/

/-- A half of `M`: `Li` is at 0, `Ri` at 32. -/
def half (M : BitVec 64) (a : ℕ) : BitVec 32 := M.extractLsb' a 32

/-- A turn of either loop of `DES`: `a` is the half that the round function reads, `b` the other one. -/
def desTurn (which i a b : ℕ) (s : Statics) : Statics :=
  let tmp := half s.M a
  let f := fFunc { s with tmp := tmp } tmp (s.SubKey which i)
  let M := fillBits a 32 (xor f.2 (half s.M b) 32).getLsbD s.M
  { f.1 with M := fillBits b 32 tmp.getLsbD M }

/-- `DES`, with the sub-keys `which`; what it writes to `Out`. -/
def des (s : Statics) (Out In : ℕ → Byte) (which : ℕ) (type : Bool) : Statics × (ℕ → Byte) :=
  let M := byteToBit s.M In 64
  let t := transform s.Tmp M M IP_Table 64
  let s := { s with M := t.2, Tmp := t.1 }
  let s :=
    if type = ENCRYPT then forRange 0 16 (fun i => desTurn which i 32 0) s
    else forRange 0 16 (fun i => desTurn which (15 - i) 0 32) s
  let t := transform s.Tmp s.M s.M IPR_Table 64
  ({ s with M := t.2, Tmp := t.1 }, bitToByte Out t.2 64)

/-- Memory by addresses; address 0 is the null pointer. -/
abbrev Memory := ℕ → Byte

structure DesRun where
  s : Statics
  mem : Memory

/-- `DES(mem + Out, mem + In, …)`. -/
def desAt (r : DesRun) (Out In which : ℕ) (type : Bool) : DesRun :=
  let d := des r.s (fun i => r.mem (Out + i)) (fun i => r.mem (In + i)) which type
  ⟨d.1, fillAt Out 8 d.2 r.mem⟩

/-- `Des_Go`: the returned number, and the static objects and the memory afterwards. -/
def desGo (r : DesRun) (Out In : ℕ) (datalen : BitVec 32) (Key : ℕ → Byte) (keylen : ℕ) (type : Bool) : ℤ × DesRun :=
  let datalen := (datalen + 7) &&& 0xfffffff8
  if Out = 0 ∨ In = 0 ∨ datalen = 0 then (0, r)
  else
    let j := (datalen.sshiftRight 3).toInt.toNat
    let s := setKey r.s Key keylen
    let r : DesRun :=
      if ¬ s.Is3DES then forRange 0 j (fun i r => desAt r (Out + 8 * i) (In + 8 * i) 0 type) ⟨s, r.mem⟩
      else forRange 0 j (fun i r =>
        let r := desAt r (Out + 8 * i) (In + 8 * i) 0 type
        let r := desAt r (Out + 8 * i) (Out + 8 * i) 1 !type
        desAt r (Out + 8 * i) (Out + 8 * i) 0 type) ⟨s, r.mem⟩
    ((8 * j : ℤ) - 4, r)

end StarLib.Des
