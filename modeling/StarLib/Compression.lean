import StarLib.Foundations.Words

/-! # `Compress` and `Decompress` of the compression wrapper

The wrapper puts the length of the source in front of what zlib makes of it, and on the way back
believes that length only inside a window: not below the length of the blob, not above `1000` times
that length in 32-bit arithmetic. zlib itself is a parameter; of its two functions only what its own
documentation says is used, that `uncompress` undoes `compress` into a buffer that is large enough.
`decompress_eq_some_iff` says which blobs the window lets pass.
-/

namespace StarLib.Compression
open Foundations
set_option autoImplicit false
set_option maxHeartbeats 250000
set_option maxRecDepth 120000

/-- zlib's `compress` and `uncompress` as functions of the destination size and the source; `none`
stands for every return code other than `Z_OK`. -/
structure Zlib where
  compress : ℕ → List Byte → Option (List Byte)
  uncompress : ℕ → List Byte → Option (List Byte)

def Zlib.Inverts (z : Zlib) : Prop :=
  ∀ size size' x c, z.compress size x = some c → x.length ≤ size' → z.uncompress size' c = some x

/-! ## Sizes -/

/-- `n * 1.001` as a double, truncated. The factor is the double `2254051613498933 / 2^51`; the exact
product is rounded to 53 bits, ties to even. -/
def scaled (n : ℕ) : ℕ :=
  let p := n * 2254051613498933
  let e := Nat.log2 p - 52
  let q := p / 2 ^ e
  let r := 2 * (p % 2 ^ e)
  let q := if 2 ^ e < r ∨ r = 2 ^ e ∧ q % 2 = 1 then q + 1 else q
  q * 2 ^ e / 2 ^ 51

/-- `(ULONG)((int)(nLenSrc * 1.001) + 12)`. A double beyond the `int` range converts to `0x80000000`. -/
def destSize (nLenSrc : ℕ) : ℕ :=
  let t := if scaled nLenSrc < 2 ^ 31 then scaled nLenSrc else 2 ^ 31
  (t + 12) % 2 ^ 32

def header (n : ℕ) : List Byte :=
  let w := BitVec.ofNat 32 n
  [byteAt w 0, byteAt w 1, byteAt w 2, byteAt w 3]

def headerValue (src : List Byte) : ℕ :=
  (ofBytes (src.getD 0 0) (src.getD 1 0) (src.getD 2 0) (src.getD 3 0)).toNat

/-! ## The two functions -/

def compress (z : Zlib) (src : List Byte) : Option (List Byte) :=
  match z.compress (destSize src.length) src with
  | none => none
  | some c => some (header src.length ++ c)

/-- The window of `Decompress`: `lDest < (ULONG)nLenSrc || lDest > (ULONG)(1000 * nLenSrc)` rejects. -/
def inWindow (lDest nLenSrc : ℕ) : Bool := decide (nLenSrc ≤ lDest ∧ lDest ≤ 1000 * nLenSrc % 2 ^ 32)

def decompress (z : Zlib) (src : List Byte) : Option (List Byte) :=
  let lDest := headerValue src
  if inWindow lDest src.length then z.uncompress lDest (src.drop 4) else none

/-! ## The round trip -/

theorem headerValue_header {n : ℕ} (hn : n < 2 ^ 32) (c : List Byte) :
    headerValue (header n ++ c) = n := by
  have hword : headerValue (header n ++ c) = (BitVec.ofNat 32 n).toNat := by
    unfold headerValue header
    simp only [List.cons_append, List.nil_append, List.getD_cons_zero, List.getD_cons_succ,
      ofBytes_byteAt]
  rw [hword, BitVec.toNat_ofNat, Nat.mod_eq_of_lt hn]

/-- What zlib makes of `src` is at least four bytes shorter, and not shorter than the window allows. -/
def Proportionate (z : Zlib) (src : List Byte) : Prop :=
  ∃ c, z.compress (destSize src.length) src = some c ∧ c.length + 4 ≤ src.length ∧
    src.length ≤ 1000 * (c.length + 4) % 2 ^ 32

/-- `Decompress` gives back what `Compress` was given exactly for the proportionate sources. -/
theorem decompress_eq_some_iff (z : Zlib) (hz : z.Inverts) {src blob : List Byte}
    (hsrc : src.length < 2 ^ 31) (hblob : compress z src = some blob) (_hlen : blob.length < 2 ^ 31) :
    decompress z blob = some src ↔ Proportionate z src := by
  unfold compress at hblob
  cases hc : z.compress (destSize src.length) src with
  | none =>
    rw [hc] at hblob
    exact absurd hblob (by simp)
  | some c =>
    rw [hc] at hblob
    obtain rfl : header src.length ++ c = blob := by simpa using hblob
    have hhead : (header src.length).length = 4 := rfl
    have htotal : (header src.length ++ c).length = c.length + 4 := by
      rw [List.length_append, hhead, Nat.add_comm]
    have hdrop : (header src.length ++ c).drop 4 = c := List.drop_left' hhead
    have hundo : z.uncompress src.length c = some src := hz _ _ _ _ hc (le_refl _)
    have hvalue := headerValue_header (by omega : src.length < 2 ^ 32) c
    unfold decompress
    simp only [hvalue, htotal, hdrop, hundo]
    constructor
    · intro h
      by_cases hwin : inWindow src.length (c.length + 4) = true
      · obtain ⟨h1, h2⟩ := of_decide_eq_true hwin
        exact ⟨c, hc, h1, h2⟩
      · rw [if_neg hwin] at h
        exact absurd h (by simp)
    · rintro ⟨c', hc', h1, h2⟩
      obtain rfl : c = c' := by
        rw [hc] at hc'
        exact Option.some.inj hc'
      have hwin : inWindow src.length (c.length + 4) = true := decide_eq_true ⟨h1, h2⟩
      rw [if_pos hwin]

/-! ## A short and a repetitive source -/

/-- A zlib that returns the real streams for one letter and for a hundred of them, and keeps other
sources as they are behind a zero byte. -/
def sampleZlib : Zlib where
  compress size x :=
    if x = [0x61] then
      if 9 ≤ size then some [0x78, 0x9c, 0x4b, 0x04, 0x00, 0x00, 0x62, 0x00, 0x62] else none
    else if x = List.replicate 100 0x61 then
      if 12 ≤ size then
        some [0x78, 0x9c, 0x4b, 0x4c, 0xa4, 0x3d, 0x00, 0x00, 0x7a, 0x47, 0x25, 0xe5]
      else none
    else if x.length + 1 ≤ size then some (0x00 :: x) else none
  uncompress size c :=
    let x :=
      if c = [0x78, 0x9c, 0x4b, 0x04, 0x00, 0x00, 0x62, 0x00, 0x62] then [0x61]
      else if c = [0x78, 0x9c, 0x4b, 0x4c, 0xa4, 0x3d, 0x00, 0x00, 0x7a, 0x47, 0x25, 0xe5] then
        List.replicate 100 0x61
      else c.drop 1
    if x.length ≤ size then some x else none

theorem sampleZlib_inverts : sampleZlib.Inverts := by
  intro size size' x c hc hsize
  by_cases h1 : x = [0x61]
  · subst h1
    have hc' : c = [0x78, 0x9c, 0x4b, 0x04, 0x00, 0x00, 0x62, 0x00, 0x62] := by
      simp only [sampleZlib, if_true] at hc
      split at hc
      · exact (Option.some.inj hc).symm
      · exact absurd hc (by simp)
    have hs : 1 ≤ size' := hsize
    simp [sampleZlib, hc', hs]
  · by_cases h2 : x = List.replicate 100 0x61
    · subst h2
      have hc' : c = [0x78, 0x9c, 0x4b, 0x4c, 0xa4, 0x3d, 0x00, 0x00, 0x7a, 0x47, 0x25, 0xe5] := by
        simp only [sampleZlib, if_neg h1, if_true] at hc
        split at hc
        · exact (Option.some.inj hc).symm
        · exact absurd hc (by simp)
      have hs : 100 ≤ size' := by simpa using hsize
      simp [sampleZlib, hc', hs]
    · have hc' : c = 0x00 :: x := by
        simp only [sampleZlib, if_neg h1, if_neg h2] at hc
        split at hc
        · exact (Option.some.inj hc).symm
        · exact absurd hc (by simp)
      simp [sampleZlib, hc', hsize]

theorem decompress_eq_some_iff_sample :
    ∃ blob, compress sampleZlib (List.replicate 100 0x61) = some blob ∧
      (decompress sampleZlib blob = some (List.replicate 100 0x61) ↔
        Proportionate sampleZlib (List.replicate 100 0x61)) :=
  ⟨_, by decide, decompress_eq_some_iff sampleZlib sampleZlib_inverts (by simp)
    (by decide : compress sampleZlib (List.replicate 100 0x61) =
      some (header 100 ++ [0x78, 0x9c, 0x4b, 0x4c, 0xa4, 0x3d, 0x00, 0x00, 0x7a, 0x47, 0x25, 0xe5]))
    (by decide)⟩

/-- The blob of one letter is longer than the letter, and is rejected. -/
theorem one_letter_rejected :
    ¬ ∀ z : Zlib, z.Inverts → ∀ src blob : List Byte, src.length < 2 ^ 31 → compress z src = some blob →
      blob.length < 2 ^ 31 → decompress z blob = some src := by
  intro h
  have hblob : compress sampleZlib [0x61] =
      some (header 1 ++ [0x78, 0x9c, 0x4b, 0x04, 0x00, 0x00, 0x62, 0x00, 0x62]) := by decide
  have hround := h sampleZlib sampleZlib_inverts [0x61] _ (by decide) hblob (by decide)
  revert hround
  decide

end StarLib.Compression
