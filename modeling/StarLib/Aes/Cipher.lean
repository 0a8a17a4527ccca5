import StarLib.Aes.Tables

/-! # `gkey`, `encrypt` and `decrypt` of `AES.cpp`

The key-dependent globals, the key expansion with its reversed decryption schedule, and the two
block functions, which work on arrays of little-endian words. `encrypt_toState` and
`decrypt_toState` say that they compute the cipher on columns and its equivalent inverse.
-/

namespace StarLib.Aes
open Foundations StarLib.Rijndael
set_option autoImplicit false
set_option maxHeartbeats 250000
set_option maxRecDepth 120000

/-- The parameter-dependent globals of `AES.cpp`. -/
structure KeyData where
  Nk : ℕ
  Nb : ℕ
  Nr : ℕ
  fi : ℕ → ℕ
  ri : ℕ → ℕ
  fkey : ℕ → DWord
  rkey : ℕ → DWord

def subByte (T : Tables) (a : DWord) : DWord :=
  let b := unpack a
  pack (entry T.fbsub (b.getD 0 0)) (entry T.fbsub (b.getD 1 0)) (entry T.fbsub (b.getD 2 0))
    (entry T.fbsub (b.getD 3 0))

def product (T : Tables) (x y : DWord) : Byte :=
  let xb := unpack x
  let yb := unpack y
  bmul T.ptab T.ltab (xb.getD 0 0) (yb.getD 0 0) ^^^ bmul T.ptab T.ltab (xb.getD 1 0) (yb.getD 1 0) ^^^
    bmul T.ptab T.ltab (xb.getD 2 0) (yb.getD 2 0) ^^^ bmul T.ptab T.ltab (xb.getD 3 0) (yb.getD 3 0)

def invMixCol (T : Tables) (x : DWord) : DWord :=
  let m := pack (inCo.getD 0 0) (inCo.getD 1 0) (inCo.getD 2 0) (inCo.getD 3 0)
  let b3 := product T m x
  let m := rotl m 24
  let b2 := product T m x
  let m := rotl m 24
  let b1 := product T m x
  let m := rotl m 24
  let b0 := product T m x
  pack b0 b1 b2 b3

/-! ## The key schedule -/

def incrementsBody (o1 o2 o3 : ℕ → ℕ) (j : ℕ) (f : ℕ → ℕ) : ℕ → ℕ :=
  let m := 3 * j
  Function.update (Function.update (Function.update f m (o1 j)) (m + 1) (o2 j)) (m + 2) (o3 j)

def forwardIncrements (nb C1 C2 C3 : ℕ) (fi : ℕ → ℕ) : ℕ → ℕ :=
  forRange 0 nb (incrementsBody (fun j => (j + C1) % nb) (fun j => (j + C2) % nb) fun j => (j + C3) % nb) fi

def reverseIncrements (nb C1 C2 C3 : ℕ) (ri : ℕ → ℕ) : ℕ → ℕ :=
  forRange 0 nb (incrementsBody (fun j => (nb + j - C1) % nb) (fun j => (nb + j - C2) % nb)
    fun j => (nb + j - C3) % nb) ri

def keyWord (key : List Byte) (i : ℕ) : DWord :=
  pack (key.getD (4 * i) 0) (key.getD (4 * i + 1) 0) (key.getD (4 * i + 2) 0) (key.getD (4 * i + 3) 0)

def chainBody (Nk j i : ℕ) (fkey : ℕ → DWord) : ℕ → DWord :=
  Function.update fkey (i + j) (fkey (i + j - Nk) ^^^ fkey (i + j - 1))

/-- One turn of the outer expansion loop, which extends `fkey` by up to `Nk` words from `j` on. -/
def expandBody (T : Tables) (Nk N k j : ℕ) (fkey : ℕ → DWord) : ℕ → DWord :=
  let fkey := Function.update fkey j
    (fkey (j - Nk) ^^^ subByte T (rotl (fkey (j - 1)) 24) ^^^ T.rco.getD k 0)
  if Nk ≤ 6 then
    forRange 1 (min Nk (N - j)) (chainBody Nk j) fkey
  else
    let fkey := forRange 1 (min 4 (N - j)) (chainBody Nk j) fkey
    let fkey :=
      if j + 4 < N then Function.update fkey (j + 4) (fkey (j + 4 - Nk) ^^^ subByte T (fkey (j + 3)))
      else fkey
    forRange 5 (min Nk (N - j)) (chainBody Nk j) fkey

structure Expansion where
  j : ℕ
  k : ℕ
  fkey : ℕ → DWord

/-- `for (j = Nk, k = 0; j < N; j += Nk, k++)`, which needs at most `N` turns. -/
def expand (T : Tables) (Nk N : ℕ) (fkey : ℕ → DWord) : ℕ → DWord :=
  (whileFuel (fun e => decide (e.j < N))
    (fun e => Expansion.mk (e.j + Nk) (e.k + 1) (expandBody T Nk N e.k e.j e.fkey)) N ⟨Nk, 0, fkey⟩).fkey

/-- The decryption keys: rounds in reverse order, the inner ones through `InvMixCol`. The middle
loop runs over `i = Nb, 2 * Nb, …` below `N - Nb`, here `i = r * Nb`. -/
def reverseKeys (T : Tables) (Nb Nr : ℕ) (fkey rkey : ℕ → DWord) : ℕ → DWord :=
  let N := Nb * (Nr + 1)
  let rkey := fillAt (N - Nb) Nb fkey rkey
  let rkey := forRange 1 Nr (fun r rkey =>
    fillAt (N - Nb - r * Nb) Nb (fun j => invMixCol T (fkey (r * Nb + j))) rkey) rkey
  fill Nb (fun j => fkey (N - Nb + j)) rkey

/-- `gkey`. Whatever the globals held before, arrays keep their old contents where it does not write. -/
def gkey (T : Tables) (g : KeyData) (nb nk : ℕ) (key : List Byte) : KeyData :=
  let Nr := if nb ≥ nk then 6 + nb else 6 + nk
  let C1 := 1
  let C2 := if nb < 8 then 2 else 3
  let C3 := if nb < 8 then 3 else 4
  let N := nb * (Nr + 1)
  let fkey := expand T nk N (fill nk (keyWord key) g.fkey)
  { Nk := nk, Nb := nb, Nr := Nr,
    fi := forwardIncrements nb C1 C2 C3 g.fi, ri := reverseIncrements nb C1 C2 C3 g.ri,
    fkey := fkey, rkey := reverseKeys T nb Nr fkey g.rkey }

/-! ## The block functions -/

def loadBlock (Nb : ℕ) (key : ℕ → DWord) (buff : List Byte) (a : ℕ → DWord) : ℕ → DWord :=
  fill Nb (fun i => pack (buff.getD (4 * i) 0) (buff.getD (4 * i + 1) 0) (buff.getD (4 * i + 2) 0)
    (buff.getD (4 * i + 3) 0) ^^^ key i) a

/-- A round of `encrypt` or `decrypt`: both index one table with the bytes of four columns and
rotate what they find. `table` is the table lookup, `inc` is `fi` or `ri`. -/
def round (Nb : ℕ) (inc : ℕ → ℕ) (key : ℕ → DWord) (table : Byte → DWord) (k : ℕ) (x y : ℕ → DWord) :
    ℕ → DWord :=
  fill Nb (fun j =>
    key (k + j) ^^^ table ((x j).setWidth 8) ^^^
      rotl (table ((x (inc (3 * j)) >>> 8).setWidth 8)) 8 ^^^
      rotl (table ((x (inc (3 * j + 1)) >>> 16).setWidth 8)) 16 ^^^
      rotl (table ((x (inc (3 * j + 2)) >>> 24).setWidth 8)) 24) y

structure Work where
  x : ℕ → DWord
  y : ℕ → DWord
  k : ℕ

/-- The common body of `encrypt` and `decrypt`: the rounds swap `x` and `y`, the last one goes
through the byte table, and the block is written back in place. -/
def cryptBlock (Nb Nr : ℕ) (inc : ℕ → ℕ) (key : ℕ → DWord) (table : Byte → DWord) (box : Byte → Byte)
    (buff : List Byte) : List Byte :=
  let w : Work := ⟨loadBlock Nb key buff (fun _ => 0), fun _ => 0, Nb⟩
  let w := forRange 1 Nr (fun _ w => ⟨round Nb inc key table w.k w.x w.y, w.x, w.k + Nb⟩) w
  let y := round Nb inc key (fun b => (box b).setWidth 32) w.k w.x w.y
  ((List.range Nb).flatMap fun i => unpack (y i)) ++ buff.drop (4 * Nb)

def encrypt (T : Tables) (g : KeyData) (buff : List Byte) : List Byte :=
  cryptBlock g.Nb g.Nr g.fi g.fkey (entry T.ftable) (entry T.fbsub) buff

def decrypt (T : Tables) (g : KeyData) (buff : List Byte) : List Byte :=
  cryptBlock g.Nb g.Nr g.ri g.rkey (entry T.rtable) (entry T.rbsub) buff

end StarLib.Aes
