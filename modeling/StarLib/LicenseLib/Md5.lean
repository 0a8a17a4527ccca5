import StarLib.Foundations.Arrays
import StarLib.Foundations.Words

/-! # The MD5 variant of LicenseLib

`md5.c`: other start values, a fourth word that is never updated, a big-endian length, and results with
their bytes reversed. The block of a fresh context is not initialised; `avMd5Sum_block` says that what
was in it does not matter.
-/

namespace StarLib.LicenseLib
open Foundations
set_option autoImplicit false
set_option maxHeartbeats 250000
set_option maxRecDepth 120000

/-- The table `S`, the amounts of rotation. -/
def md5S : List (List ℕ) := [[7, 12, 17, 22], [5, 9, 14, 20], [4, 11, 16, 23], [6, 10, 15, 21]]

/-- The table `T`. -/
def md5T : List DWord :=
  [0xd76aa478, 0xe8c7b756, 0x242070db, 0xc1bdceee, 0xf57c0faf, 0x4787c62a, 0xa8304613, 0xfd469501,
   0x698098d8, 0x8b44f7af, 0xffff5bb1, 0x895cd7be, 0x6b901122, 0xfd987193, 0xa679438e, 0x49b40821,
   0xf61e2562, 0xc040b340, 0x265e5a51, 0xe9b6c7aa, 0xd62f105d, 0x02441453, 0xd8a1e681, 0xe7d3fbc8,
   0x21e1cde6, 0xc33707d6, 0xf4d50d87, 0x455a14ed, 0xa9e3e905, 0xfcefa3f8, 0x676f02d9, 0x8d2a4c8a,
   0xfffa3942, 0x8771f681, 0x6d9d6122, 0xfde5380c, 0xa4beea44, 0x4bdecfa9, 0xf6bb4b60, 0xbebfbc70,
   0x289b7ec6, 0xeaa127fa, 0xd4ef3085, 0x04881d05, 0xd9d4d039, 0xe6db99e5, 0x1fa27cf8, 0xc4ac5665,
   0xf4292244, 0x432aff97, 0xab9423a7, 0xfc93a039, 0x655b59c3, 0x8f0ccc92, 0xffeff47d, 0x85845dd1,
   0x6fa87e4f, 0xfe2ce6e0, 0xa3014314, 0x4e0811a1, 0xf7537e82, 0xbd3af235, 0x2ad7d2bb, 0xeb86d391]

structure ABCD where
  a0 : DWord
  a1 : DWord
  a2 : DWord
  a3 : DWord

structure AVMD5 where
  len : ℕ
  block : ℕ → Byte
  abcd : ABCD

/-! ## The body -/

/-- `CORE(i, a, b, c, d)`. -/
def md5CORE (X : ℕ → DWord) (i : ℕ) (a b c d : DWord) : DWord :=
  let t := (md5S.getD (i / 16) []).getD (i % 4) 0
  let a := a + md5T.getD i 0
  let a :=
    if i < 32 then
      if i < 16 then a + ((d ^^^ (b &&& (c ^^^ d))) + X (i % 16))
      else a + ((c ^^^ (d &&& (c ^^^ b))) + X ((1 + 5 * i) % 16))
    else
      if i < 48 then a + ((b ^^^ c ^^^ d) + X ((5 + 3 * i) % 16))
      else a + ((c ^^^ (b ||| ~~~d)) + X (7 * i % 16))
  b + ((a <<< t) ||| (a >>> (32 - t)))

/-- A step; the macros name the four variables in turn, here they move instead. -/
def md5Step (X : ℕ → DWord) (i : ℕ) (s : ABCD) : ABCD :=
  ⟨s.a3, md5CORE X i s.a0 s.a1 s.a2 s.a3, s.a1, s.a2⟩

/-- `(uint32_t*) ctx->block`. -/
def blockWord (block : ℕ → Byte) (i : ℕ) : DWord :=
  ofBytes (block (4 * i)) (block (4 * i + 1)) (block (4 * i + 2)) (block (4 * i + 3))

/-- `body`. The last word of `ABCD` stays. -/
def md5Body (abcd : ABCD) (X : ℕ → DWord) : ABCD :=
  let s := forRange 0 64 (md5Step X) ⟨abcd.a3, abcd.a2, abcd.a1, abcd.a0⟩
  ⟨abcd.a0 + s.a3, abcd.a1 + s.a2, abcd.a2 + s.a1, abcd.a3⟩

/-! ## Contexts -/

/-- `av_md5_init`, on a context with some block. -/
def avMd5Init (block : ℕ → Byte) : AVMD5 := ⟨0, block, ⟨0x9e3779b9, 0x98badcfe, 0xefcdab89, 0x20090501⟩⟩

structure Md5Work where
  j : ℕ
  block : ℕ → Byte
  abcd : ABCD

def md5Byte (b : Byte) (s : Md5Work) : Md5Work :=
  let block := Function.update s.block s.j b
  let j := s.j + 1
  if 64 = j then ⟨0, block, md5Body s.abcd (blockWord block)⟩ else ⟨j, block, s.abcd⟩

/-- `av_md5_update`. -/
def avMd5Update (ctx : AVMD5) (src : List Byte) : AVMD5 :=
  let s := src.foldl (fun s b => md5Byte b s) ⟨ctx.len % 64, ctx.block, ctx.abcd⟩
  ⟨(ctx.len + src.length) % 2 ^ 64, s.block, s.abcd⟩

def bswap32 (x : DWord) : DWord :=
  let x := ((x <<< 8) &&& 0xff00ff00) ||| ((x >>> 8) &&& 0x00ff00ff)
  (x >>> 16) ||| (x <<< 16)

/-- The bytes of `finalcount` in memory: `le2me_64` swaps, so the highest byte comes first. -/
def lengthBytes (len : ℕ) : List Byte :=
  (List.range 8).map fun i => (BitVec.ofNat 64 (len <<< 3) >>> (56 - 8 * i)).setWidth 8

/-- The context at the end of `av_md5_final`. The loop runs at most 56 times. -/
def md5Pad (ctx : AVMD5) : AVMD5 :=
  let len := ctx.len
  let ctx := avMd5Update ctx [0x80]
  let ctx := whileFuel (fun ctx => decide (ctx.len % 64 < 56)) (fun ctx => avMd5Update ctx [0]) 56 ctx
  avMd5Update ctx (lengthBytes len)

/-- `av_md5_final`: the four words written to `dst`. -/
def avMd5Final (ctx : AVMD5) : List DWord :=
  let ctx := md5Pad ctx
  [bswap32 ctx.abcd.a3, bswap32 ctx.abcd.a2, bswap32 ctx.abcd.a1, bswap32 ctx.abcd.a0]

/-- `av_md5_sum`. -/
def avMd5Sum (block : ℕ → Byte) (src : List Byte) : List DWord :=
  avMd5Final (avMd5Update (avMd5Init block) src)

/-! ## The block of a fresh context -/

/-- Two contexts that differ at most in block bytes not written yet. -/
structure SameMd5 (c c' : AVMD5) : Prop where
  len : c.len = c'.len
  block : AgreeBelow (c.len % 64) c.block c'.block
  abcd : c.abcd = c'.abcd

structure SameWork (s s' : Md5Work) : Prop where
  lt : s.j < 64
  j : s.j = s'.j
  block : AgreeBelow s.j s.block s'.block
  abcd : s.abcd = s'.abcd

theorem md5Body_congr {block block' : ℕ → Byte} (h : AgreeBelow 64 block block') (abcd : ABCD) :
    md5Body abcd (blockWord block) = md5Body abcd (blockWord block') := by
  have hword : ∀ i < 16, blockWord block i = blockWord block' i := by
    intro i hi
    unfold blockWord
    rw [h (4 * i) (by omega), h (4 * i + 1) (by omega), h (4 * i + 2) (by omega), h (4 * i + 3) (by omega)]
  have hstep : ∀ i s, md5Step (blockWord block) i s = md5Step (blockWord block') i s := by
    intro i s
    unfold md5Step md5CORE
    rw [hword (i % 16) (by omega), hword ((1 + 5 * i) % 16) (by omega), hword ((5 + 3 * i) % 16) (by omega),
      hword (7 * i % 16) (by omega)]
  unfold md5Body
  rw [forRange_congr _ fun i s _ _ => hstep i s]

theorem md5Byte_same (b : Byte) {s s' : Md5Work} (h : SameWork s s') :
    SameWork (md5Byte b s) (md5Byte b s') ∧ (md5Byte b s).j = (s.j + 1) % 64 := by
  obtain ⟨hlt, hj, hblock, habcd⟩ := h
  have hpush := hblock.push b
  unfold md5Byte
  rw [← hj, ← habcd]
  by_cases hfull : 64 = s.j + 1
  · rw [← hfull] at hpush
    have hzero : (s.j + 1) % 64 = 0 := by omega
    simp only [if_pos hfull]
    exact ⟨⟨Nat.succ_pos 63, rfl, AgreeBelow.zero _ _, md5Body_congr hpush _⟩, hzero.symm⟩
  · have hmod : (s.j + 1) % 64 = s.j + 1 := Nat.mod_eq_of_lt (by omega)
    simp only [if_neg hfull]
    exact ⟨⟨by show s.j + 1 < 64; omega, rfl, hpush, rfl⟩, hmod.symm⟩

theorem md5Bytes_same (src : List Byte) {s s' : Md5Work} (h : SameWork s s') :
    SameWork (src.foldl (fun s b => md5Byte b s) s) (src.foldl (fun s b => md5Byte b s) s') ∧
      (src.foldl (fun s b => md5Byte b s) s).j = (s.j + src.length) % 64 := by
  induction src generalizing s s' with
  | nil => exact ⟨h, (Nat.mod_eq_of_lt h.lt).symm⟩
  | cons b src ih =>
    obtain ⟨hstep, hj⟩ := md5Byte_same b h
    obtain ⟨hrest, hj'⟩ := ih hstep
    refine ⟨hrest, ?_⟩
    rw [List.foldl_cons, hj', hj, List.length_cons]
    omega

theorem avMd5Update_same (src : List Byte) {c c' : AVMD5} (h : SameMd5 c c') :
    SameMd5 (avMd5Update c src) (avMd5Update c' src) := by
  have hwork : SameWork ⟨c.len % 64, c.block, c.abcd⟩ ⟨c'.len % 64, c'.block, c'.abcd⟩ :=
    ⟨Nat.mod_lt _ (by decide), by rw [h.len], h.block, h.abcd⟩
  obtain ⟨hsame, hj⟩ := md5Bytes_same src hwork
  refine ⟨?_, ?_, hsame.abcd⟩
  · show (c.len + src.length) % 2 ^ 64 = (c'.len + src.length) % 2 ^ 64
    rw [h.len]
  · have hmod : (c.len + src.length) % 2 ^ 64 % 64 = (c.len % 64 + src.length) % 64 := by omega
    have hblock := hsame.block
    rw [hj] at hblock
    show AgreeBelow ((c.len + src.length) % 2 ^ 64 % 64) _ _
    rw [hmod]
    exact hblock

theorem md5Pad_same {c c' : AVMD5} (h : SameMd5 c c') : SameMd5 (md5Pad c) (md5Pad c') := by
  have hloop : ∀ fuel (c c' : AVMD5), SameMd5 c c' →
      SameMd5 (whileFuel (fun ctx => decide (ctx.len % 64 < 56)) (fun ctx => avMd5Update ctx [0]) fuel c)
        (whileFuel (fun ctx => decide (ctx.len % 64 < 56)) (fun ctx => avMd5Update ctx [0]) fuel c') := by
    intro fuel
    induction fuel with
    | zero => exact fun c c' h => h
    | succ fuel ih =>
      intro c c' h
      unfold whileFuel
      rw [h.len]
      split
      · exact ih _ _ (avMd5Update_same [0] h)
      · exact h
  unfold md5Pad
  simp only
  rw [h.len]
  exact avMd5Update_same _ (hloop 56 _ _ (avMd5Update_same [0x80] h))

/-- The digest does not depend on what the block held. -/
theorem avMd5Sum_block (block block' : ℕ → Byte) (src : List Byte) : avMd5Sum block src = avMd5Sum block' src := by
  have hinit : SameMd5 (avMd5Init block) (avMd5Init block') := ⟨rfl, AgreeBelow.zero block block', rfl⟩
  have hpad := (md5Pad_same (avMd5Update_same src hinit)).abcd
  unfold avMd5Sum avMd5Final
  simp only
  rw [hpad]

end StarLib.LicenseLib
