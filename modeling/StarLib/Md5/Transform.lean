import StarLib.Foundations.Absorbing
import StarLib.Foundations.Words

/-! # MD5

`md5.cpp`. A context counts bits in two words and takes bytes in pieces of any length.
-/

namespace StarLib.Md5
open Foundations
set_option autoImplicit false
set_option maxHeartbeats 250000
set_option maxRecDepth 120000

/-! ## The transformation -/

def F (x y z : DWord) : DWord := (x &&& y) ||| (~~~x &&& z)

def G (x y z : DWord) : DWord := (x &&& z) ||| (y &&& ~~~z)

def H (x y z : DWord) : DWord := x ^^^ y ^^^ z

def I (x y z : DWord) : DWord := y ^^^ (x ||| ~~~z)

/-- The four macros of the rounds. -/
inductive Macro
  | FF
  | GG
  | HH
  | II
deriving DecidableEq

def Macro.function : Macro → DWord → DWord → DWord → DWord
  | .FF => F
  | .GG => G
  | .HH => H
  | .II => I

/-- A line of `Transform`: the macro, the place in `in`, the amount of rotation and the constant. -/
structure Line where
  macroName : Macro
  k : ℕ
  s : ℕ
  ac : DWord
deriving DecidableEq

/-- The lines in their order. Their first four arguments are `a b c d`, `d a b c`, `c d a b` and `b c d a` in turn. -/
def lines : List Line :=
  [⟨.FF, 0, 7, 3614090360⟩, ⟨.FF, 1, 12, 3905402710⟩, ⟨.FF, 2, 17, 606105819⟩, ⟨.FF, 3, 22, 3250441966⟩,
   ⟨.FF, 4, 7, 4118548399⟩, ⟨.FF, 5, 12, 1200080426⟩, ⟨.FF, 6, 17, 2821735955⟩, ⟨.FF, 7, 22, 4249261313⟩,
   ⟨.FF, 8, 7, 1770035416⟩, ⟨.FF, 9, 12, 2336552879⟩, ⟨.FF, 10, 17, 4294925233⟩, ⟨.FF, 11, 22, 2304563134⟩,
   ⟨.FF, 12, 7, 1804603682⟩, ⟨.FF, 13, 12, 4254626195⟩, ⟨.FF, 14, 17, 2792965006⟩, ⟨.FF, 15, 22, 1236535329⟩,
   ⟨.GG, 1, 5, 4129170786⟩, ⟨.GG, 6, 9, 3225465664⟩, ⟨.GG, 11, 14, 643717713⟩, ⟨.GG, 0, 20, 3921069994⟩,
   ⟨.GG, 5, 5, 3593408605⟩, ⟨.GG, 10, 9, 38016083⟩, ⟨.GG, 15, 14, 3634488961⟩, ⟨.GG, 4, 20, 3889429448⟩,
   ⟨.GG, 9, 5, 568446438⟩, ⟨.GG, 14, 9, 3275163606⟩, ⟨.GG, 3, 14, 4107603335⟩, ⟨.GG, 8, 20, 1163531501⟩,
   ⟨.GG, 13, 5, 2850285829⟩, ⟨.GG, 2, 9, 4243563512⟩, ⟨.GG, 7, 14, 1735328473⟩, ⟨.GG, 12, 20, 2368359562⟩,
   ⟨.HH, 5, 4, 4294588738⟩, ⟨.HH, 8, 11, 2272392833⟩, ⟨.HH, 11, 16, 1839030562⟩, ⟨.HH, 14, 23, 4259657740⟩,
   ⟨.HH, 1, 4, 2763975236⟩, ⟨.HH, 4, 11, 1272893353⟩, ⟨.HH, 7, 16, 4139469664⟩, ⟨.HH, 10, 23, 3200236656⟩,
   ⟨.HH, 13, 4, 681279174⟩, ⟨.HH, 0, 11, 3936430074⟩, ⟨.HH, 3, 16, 3572445317⟩, ⟨.HH, 6, 23, 76029189⟩,
   ⟨.HH, 9, 4, 3654602809⟩, ⟨.HH, 12, 11, 3873151461⟩, ⟨.HH, 15, 16, 530742520⟩, ⟨.HH, 2, 23, 3299628645⟩,
   ⟨.II, 0, 6, 4096336452⟩, ⟨.II, 7, 10, 1126891415⟩, ⟨.II, 14, 15, 2878612391⟩, ⟨.II, 5, 21, 4237533241⟩,
   ⟨.II, 12, 6, 1700485571⟩, ⟨.II, 3, 10, 2399980690⟩, ⟨.II, 10, 15, 4293915773⟩, ⟨.II, 1, 21, 2240044497⟩,
   ⟨.II, 8, 6, 1873313359⟩, ⟨.II, 15, 10, 4264355552⟩, ⟨.II, 6, 15, 2734768916⟩, ⟨.II, 13, 21, 1309151649⟩,
   ⟨.II, 4, 6, 4149444226⟩, ⟨.II, 11, 10, 3174756917⟩, ⟨.II, 2, 15, 718787259⟩, ⟨.II, 9, 21, 3951481745⟩]

/-- `buf` -/
structure Buf where
  a : DWord
  b : DWord
  c : DWord
  d : DWord
deriving DecidableEq

/-- One line; the names of the variables move with it. -/
def Line.run (words : ℕ → DWord) (s : Buf) (l : Line) : Buf :=
  ⟨s.d, rotl (s.a + (l.macroName.function s.b s.c s.d + words l.k + l.ac)) l.s + s.b, s.b, s.c⟩

def Transform (buf : Buf) (words : ℕ → DWord) : Buf :=
  let s := lines.foldl (Line.run words) buf
  ⟨buf.a + s.a, buf.b + s.b, buf.c + s.c, buf.d + s.d⟩

/-! ## Contexts -/

structure MD5_CTX where
  i0 : DWord
  i1 : DWord
  buf : Buf
  block : ℕ → Byte
  digest : List Byte

def MD5Init (mdContext : MD5_CTX) : MD5_CTX :=
  { mdContext with i0 := 0, i1 := 0, buf := ⟨0x67452301, 0xefcdab89, 0x98badcfe, 0x10325476⟩ }

/-- The words of the input buffer. -/
def words (block : ℕ → Byte) (i : ℕ) : DWord :=
  ((block (4 * i + 3)).setWidth 32 <<< 24) ||| ((block (4 * i + 2)).setWidth 32 <<< 16) |||
    ((block (4 * i + 1)).setWidth 32 <<< 8) ||| (block (4 * i)).setWidth 32

/-- `mdi`, the input buffer and `buf` while bytes are added. -/
structure Work where
  mdi : ℕ
  block : ℕ → Byte
  buf : Buf

def Work.add (s : Work) (b : Byte) : Work :=
  let block := Function.update s.block s.mdi b
  let mdi := s.mdi + 1
  if mdi = 0x40 then ⟨0, block, Transform s.buf (words block)⟩ else ⟨mdi, block, s.buf⟩

/-- The number of bytes modulo 64. -/
def MD5_CTX.mdi (mdContext : MD5_CTX) : ℕ := ((mdContext.i0 >>> 3) &&& 0x3F).toNat

def MD5Update (mdContext : MD5_CTX) (inBuf : List Byte) (inLen : DWord) : MD5_CTX :=
  let i1 := if mdContext.i0 + (inLen <<< 3) < mdContext.i0 then mdContext.i1 + 1 else mdContext.i1
  let s := (inBuf.take inLen.toNat).foldl Work.add ⟨mdContext.mdi, mdContext.block, mdContext.buf⟩
  { mdContext with
    i0 := mdContext.i0 + (inLen <<< 3)
    i1 := i1 + (inLen >>> 29)
    block := s.block
    buf := s.buf }

def PADDING : List Byte := 0x80 :: List.replicate 63 0

/-- The four bytes of a word of `buf` in `digest`. -/
def digestBytes (w : DWord) : List Byte :=
  [(w &&& 0xFF).setWidth 8, ((w >>> 8) &&& 0xFF).setWidth 8, ((w >>> 16) &&& 0xFF).setWidth 8,
    ((w >>> 24) &&& 0xFF).setWidth 8]

/-- Up to 56 modulo 64. -/
def padLen (mdi : ℕ) : ℕ := if mdi < 56 then 56 - mdi else 120 - mdi

def MD5Final (mdContext : MD5_CTX) : MD5_CTX :=
  let in14 := mdContext.i0
  let in15 := mdContext.i1
  let mdi := mdContext.mdi
  let mdContext := MD5Update mdContext PADDING (BitVec.ofNat 32 (padLen mdi))
  let buf := Transform mdContext.buf fun i => if i = 14 then in14 else if i = 15 then in15 else words mdContext.block i
  { mdContext with
    buf := buf
    digest := digestBytes buf.a ++ digestBytes buf.b ++ digestBytes buf.c ++ digestBytes buf.d }

/-! ## Files -/

/-- The loop of `MDFile` and `MDFilter`: `fread` gives the next bytes, less than asked for at the end only. -/
def MDRead (size : ℕ) : ℕ → MD5_CTX → List Byte → MD5_CTX
  | 0, mdContext, _ => mdContext
  | fuel + 1, mdContext, file =>
    let data := file.take size
    if data.length = 0 then mdContext
    else MDRead size fuel (MD5Update mdContext data (BitVec.ofNat 32 data.length)) (file.drop size)

/-- The digest that `MDFile` prints; the context is on the stack and not initialised. -/
def MDFile (mdContext : MD5_CTX) (file : List Byte) : List Byte :=
  (MD5Final (MDRead 1024 (file.length + 1) (MD5Init mdContext) file)).digest

/-- The digest that `MDFilter` prints. -/
def MDFilter (mdContext : MD5_CTX) (input : List Byte) : List Byte :=
  (MD5Final (MDRead 16 (input.length + 1) (MD5Init mdContext) input)).digest

/-- The digest that `MDString` prints, of the bytes before the terminating zero. -/
def MDString (mdContext : MD5_CTX) (inString : List Byte) : List Byte :=
  (MD5Final (MD5Update (MD5Init mdContext) inString (BitVec.ofNat 32 inString.length))).digest

end StarLib.Md5
