import StarLib.Md5.Transform

/-! # Pieces of a message

Whatever pieces a message is given in, the digest is the one of the message: the transformation is chained over the blocks
of the message, a one bit, zeros and the number of bits.
-/

namespace StarLib.Md5
open Foundations
set_option autoImplicit false
set_option maxHeartbeats 250000
set_option maxRecDepth 120000

/-! ## The digest of a message -/

def start : Buf := ⟨0x67452301, 0xefcdab89, 0x98badcfe, 0x10325476⟩

/-- A step over a block of 64 bytes. -/
def compress (buf : Buf) (block : ℕ → Byte) : Buf := Transform buf (wordAt block)

/-- The number of bits modulo 2^64, the lowest byte first. -/
def lengthField (bytes : ℕ) : List Byte := (List.range 8).map fun i => BitVec.ofNat 8 (8 * bytes / 256 ^ i)

/-- The bytes behind a message of a length, up to the number of bits. -/
def padding (bytes : ℕ) : List Byte := 0x80 :: List.replicate ((119 - bytes % 64) % 64) 0

def padded (message : List Byte) : List Byte := message ++ padding message.length ++ lengthField message.length

def Buf.bytes (buf : Buf) : List Byte :=
  [byteAt buf.a 0, byteAt buf.a 1, byteAt buf.a 2, byteAt buf.a 3, byteAt buf.b 0, byteAt buf.b 1, byteAt buf.b 2,
    byteAt buf.b 3, byteAt buf.c 0, byteAt buf.c 1, byteAt buf.c 2, byteAt buf.c 3, byteAt buf.d 0, byteAt buf.d 1,
    byteAt buf.d 2, byteAt buf.d 3]

def md5 (message : List Byte) : List Byte :=
  (chain 64 compress start (padded message) ((padded message).length / 64)).bytes

/-! ## Blocks -/

theorem words_eq (block : ℕ → Byte) (i : ℕ) : words block i = wordAt block i := pack_or _ _ _ _

theorem lines_k : ∀ l ∈ lines, l.k < 16 := by decide

theorem Transform_local {w w' : ℕ → DWord} (h : ∀ k < 16, w k = w' k) (buf : Buf) :
    Transform buf w = Transform buf w' := by
  have hrun : lines.foldl (Line.run w) buf = lines.foldl (Line.run w') buf := by
    refine List.foldl_ext _ _ _ fun s l hl => ?_
    unfold Line.run
    rw [h l.k (lines_k l hl)]
  unfold Transform
  rw [hrun]

theorem compress_local (buf : Buf) (block block' : ℕ → Byte) (h : AgreeBelow 64 block block') :
    compress buf block = compress buf block' := by
  refine Transform_local (fun k hk => ?_) buf
  unfold wordAt
  rw [h (4 * k) (by omega), h (4 * k + 1) (by omega), h (4 * k + 2) (by omega), h (4 * k + 3) (by omega)]

def Work.absorber (s : Work) : Absorber Byte Buf := ⟨s.mdi, s.block, s.buf⟩

theorem add_push (s : Work) (b : Byte) : (s.add b).absorber = s.absorber.push 64 compress b := by
  unfold Work.add Absorber.push Work.absorber
  by_cases hfull : s.mdi + 1 = 64
  · have hwords : words (Function.update s.block s.mdi b) = wordAt (Function.update s.block s.mdi b) :=
      funext fun i => words_eq _ i
    simp only [if_pos hfull, if_pos hfull.symm, compress, hwords]
  · simp only [if_neg hfull, if_neg (Ne.symm hfull)]

theorem adds_absorb (src : List Byte) (s : Work) :
    (src.foldl Work.add s).absorber = s.absorber.absorb 64 compress src := by
  induction src generalizing s with
  | nil => rfl
  | cons b src ih =>
    rw [List.foldl_cons, ih, add_push]
    rfl

/-! ## The count of bits -/

/-- The two words count the bits of so many bytes. -/
structure Counts (bytes : ℕ) (i0 i1 : DWord) : Prop where
  low : i0.toNat = 8 * bytes % 2 ^ 32
  high : i1.toNat = 8 * bytes / 2 ^ 32 % 2 ^ 32

theorem Counts.mdi {bytes : ℕ} {mdContext : MD5_CTX} (h : Counts bytes mdContext.i0 mdContext.i1) :
    mdContext.mdi = bytes % 64 := by
  have hmask : mdContext.mdi = mdContext.i0.toNat / 8 % 64 := by
    unfold MD5_CTX.mdi
    rw [BitVec.toNat_and, BitVec.toNat_ushiftRight, Nat.shiftRight_eq_div_pow]
    exact Nat.and_two_pow_sub_one_eq_mod _ 6
  rw [hmask, h.low]
  omega

/-- The carry of the addition is found by comparison. -/
theorem Counts.update {bytes : ℕ} {i0 i1 : DWord} (h : Counts bytes i0 i1) {n : ℕ} (hn : n < 2 ^ 32) :
    Counts (bytes + n) (i0 + (BitVec.ofNat 32 n <<< 3))
      ((if i0 + (BitVec.ofNat 32 n <<< 3) < i0 then i1 + 1 else i1) + (BitVec.ofNat 32 n >>> 29)) := by
  have hlow := h.low
  have hhigh := h.high
  have hshift : (BitVec.ofNat 32 n <<< 3).toNat = 8 * n % 2 ^ 32 := by
    rw [BitVec.toNat_shiftLeft, BitVec.toNat_ofNat, Nat.mod_eq_of_lt hn, Nat.shiftLeft_eq]
    omega
  have htop : (BitVec.ofNat 32 n >>> 29).toNat = n / 2 ^ 29 := by
    rw [BitVec.toNat_ushiftRight, BitVec.toNat_ofNat, Nat.mod_eq_of_lt hn, Nat.shiftRight_eq_div_pow]
  have hsum : (i0 + (BitVec.ofNat 32 n <<< 3)).toNat = (i0.toNat + 8 * n % 2 ^ 32) % 2 ^ 32 := by
    rw [BitVec.toNat_add, hshift]
  have hcarry : i0 + (BitVec.ofNat 32 n <<< 3) < i0 ↔ 2 ^ 32 ≤ i0.toNat + 8 * n % 2 ^ 32 := by
    rw [BitVec.lt_def, hsum]
    have hlt := i0.isLt
    omega
  refine ⟨?_, ?_⟩
  · rw [hsum, hlow]
    omega
  · rw [BitVec.toNat_add, htop]
    by_cases hc : 2 ^ 32 ≤ i0.toNat + 8 * n % 2 ^ 32
    · have hone : (1 : DWord).toNat = 1 := rfl
      rw [if_pos (hcarry.2 hc), BitVec.toNat_add, hone, hhigh]
      omega
    · rw [if_neg (mt hcarry.1 hc), hhigh]
      omega

/-! ## Updates -/

/-- A context after some bytes. -/
structure After (stream : List Byte) (mdContext : MD5_CTX) : Prop where
  counts : Counts stream.length mdContext.i0 mdContext.i1
  absorbed : Absorbed 64 compress start stream ⟨mdContext.mdi, mdContext.block, mdContext.buf⟩

variable {stream message : List Byte} {mdContext : MD5_CTX}

theorem After.init (mdContext : MD5_CTX) : After [] (MD5Init mdContext) := by
  have hcounts : Counts 0 (MD5Init mdContext).i0 (MD5Init mdContext).i1 := ⟨rfl, rfl⟩
  refine ⟨hcounts, ?_⟩
  rw [hcounts.mdi]
  exact Absorbed.start 64 compress mdContext.block start

theorem After.update (h : After stream mdContext) {src inBuf : List Byte} {n : ℕ} (hn : n < 2 ^ 32)
    (hsrc : inBuf.take n = src) (hlen : src.length = n) :
    After (stream ++ src) (MD5Update mdContext inBuf (BitVec.ofNat 32 n)) := by
  have hnat : (BitVec.ofNat 32 n).toNat = n := by rw [BitVec.toNat_ofNat, Nat.mod_eq_of_lt hn]
  have hcounts : Counts (stream ++ src).length (MD5Update mdContext inBuf (BitVec.ofNat 32 n)).i0
      (MD5Update mdContext inBuf (BitVec.ofNat 32 n)).i1 := by
    rw [List.length_append, hlen]
    exact h.counts.update hn
  refine ⟨hcounts, ?_⟩
  have habsorbed := h.absorbed.absorb (by decide) compress_local src
  have hrun : (src.foldl Work.add ⟨mdContext.mdi, mdContext.block, mdContext.buf⟩).absorber =
      (⟨mdContext.mdi, mdContext.block, mdContext.buf⟩ : Absorber Byte Buf).absorb 64 compress src := adds_absorb src _
  have hmdi : (src.foldl Work.add ⟨mdContext.mdi, mdContext.block, mdContext.buf⟩).mdi = (stream ++ src).length % 64 := by
    have hfill := habsorbed.fill
    rw [← hrun] at hfill
    exact hfill
  have hwork : (inBuf.take (BitVec.ofNat 32 n).toNat).foldl Work.add ⟨mdContext.mdi, mdContext.block, mdContext.buf⟩ =
      src.foldl Work.add ⟨mdContext.mdi, mdContext.block, mdContext.buf⟩ := by
    rw [hnat, hsrc]
  rw [hcounts.mdi, ← hmdi, ← hwork]
  rw [← hrun, ← hwork] at habsorbed
  exact habsorbed

theorem After.update_all (h : After stream mdContext) {src : List Byte} (hn : src.length < 2 ^ 32) :
    After (stream ++ src) (MD5Update mdContext src (BitVec.ofNat 32 src.length)) :=
  h.update hn (List.take_of_length_le (Nat.le_refl _)) rfl

/-! ## The end of a message -/

theorem byteAt_toNat (w : DWord) (k : ℕ) : (byteAt w k).toNat = w.toNat / 256 ^ k % 256 := by
  unfold byteAt
  rw [BitVec.extractLsb'_toNat, Nat.shiftRight_eq_div_pow, Nat.pow_mul]

theorem lengthField_low {bytes k : ℕ} {i0 i1 : DWord} (h : Counts bytes i0 i1) (hk : k < 4) :
    byteAt i0 k = (lengthField bytes).getD k 0 := by
  apply BitVec.eq_of_toNat_eq
  rw [byteAt_toNat, h.low]
  interval_cases k <;> simp [lengthField] <;> omega

theorem lengthField_high {bytes k : ℕ} {i0 i1 : DWord} (h : Counts bytes i0 i1) (hk : k < 4) :
    byteAt i1 k = (lengthField bytes).getD (4 + k) 0 := by
  apply BitVec.eq_of_toNat_eq
  rw [byteAt_toNat, h.high]
  interval_cases k <;> simp [lengthField] <;> omega

theorem padLen_eq {mdi : ℕ} (hmdi : mdi < 64) : padLen mdi = (119 - mdi) % 64 + 1 := by
  unfold padLen
  split <;> omega

theorem take_PADDING {mdi : ℕ} (hmdi : mdi < 64) : PADDING.take (padLen mdi) = padding mdi := by
  have hle : (119 - mdi) % 64 ≤ 63 := Nat.le_of_lt_succ (Nat.mod_lt _ (by decide))
  rw [padLen_eq hmdi, padding, Nat.mod_eq_of_lt hmdi, PADDING, List.take_succ_cons, List.take_replicate,
    Nat.min_eq_left hle]

theorem padding_mod (bytes : ℕ) : padding (bytes % 64) = padding bytes := by
  rw [padding, padding, Nat.mod_mod]

theorem padding_length (bytes : ℕ) : (padding bytes).length = (119 - bytes % 64) % 64 + 1 := by
  rw [padding, List.length_cons, List.length_replicate]

theorem lengthField_length (bytes : ℕ) : (lengthField bytes).length = 8 := by
  rw [lengthField, List.length_map, List.length_range]

theorem digestBytes_eq (w : DWord) : digestBytes w = [byteAt w 0, byteAt w 1, byteAt w 2, byteAt w 3] := by
  have hmask : ∀ v : DWord, (v &&& 0xFF).setWidth 8 = v.setWidth 8 := by
    intro v
    apply BitVec.eq_of_toNat_eq
    rw [BitVec.toNat_setWidth, BitVec.toNat_setWidth, BitVec.toNat_and]
    have hand : v.toNat &&& (0xFF : DWord).toNat = v.toNat % 256 := Nat.and_two_pow_sub_one_eq_mod _ 8
    rw [hand]
    exact Nat.mod_mod _ _
  rw [digestBytes, hmask, hmask, hmask, hmask, setWidth_zero_byte, setWidth_one_byte, setWidth_two_byte,
    setWidth_three_byte]

/-- The words of the last step: what is left of the message and its padding, and the saved number of bits. -/
theorem last_words {bytes : ℕ} {i0 i1 : DWord} (hcounts : Counts bytes i0 i1) (hlen : stream.length % 64 = 56)
    {block : ℕ → Byte} (hblock : AgreeBelow 56 block (blockAt 64 stream (stream.length / 64))) {i : ℕ} (hi : i < 16) :
    (if i = 14 then i0 else if i = 15 then i1 else words block i) =
      wordAt (blockAt 64 (stream ++ lengthField bytes) (stream.length / 64)) i := by
  have hfield : ∀ j, blockAt 64 (stream ++ lengthField bytes) (stream.length / 64) (56 + j) =
      (lengthField bytes).getD j 0 := by
    intro j
    have hplace : 64 * (stream.length / 64) + (56 + j) = stream.length + j := by omega
    rw [blockAt, hplace, List.getD_append_right _ _ _ _ (Nat.le_add_right _ _), Nat.add_sub_cancel_left]
    rfl
  by_cases h14 : i = 14
  · subst h14
    rw [if_pos rfl]
    exact eq_wordAt fun k hk => (lengthField_low hcounts hk).trans (hfield k).symm
  · rw [if_neg h14]
    by_cases h15 : i = 15
    · subst h15
      rw [if_pos rfl]
      refine eq_wordAt fun k hk => (lengthField_high hcounts hk).trans ?_
      rw [← hfield (4 + k), ← Nat.add_assoc]
    · rw [if_neg h15, words_eq]
      have hsame : ∀ k < 4, block (4 * i + k) =
          blockAt 64 (stream ++ lengthField bytes) (stream.length / 64) (4 * i + k) :=
        fun k hk => (hblock (4 * i + k) (by omega)).trans (blockAt_append _ (by omega)).symm
      exact eq_wordAt fun k hk => (byteAt_wordAt block i hk).trans (hsame k hk)

theorem MD5Final_digest (h : After message mdContext) : (MD5Final mdContext).digest = md5 message := by
  have hlt : message.length % 64 < 64 := Nat.mod_lt _ (by decide)
  have hlen : (padding message.length).length = padLen (message.length % 64) := by
    rw [padding_length, padLen_eq hlt]
  have hsmall : padLen (message.length % 64) < 2 ^ 32 := by
    rw [padLen_eq hlt]
    omega
  have hpad := h.update hsmall ((take_PADDING hlt).trans (padding_mod _)) hlen
  have hblocks : (message ++ padding message.length).length % 64 = 56 := by
    rw [List.length_append, padding_length]
    omega
  have hwhole : (padded message).length / 64 = (message ++ padding message.length).length / 64 + 1 := by
    rw [padded, List.length_append, lengthField_length]
    omega
  -- the input buffer, whose last eight bytes are not read
  have hblock := hpad.absorbed.block
  rw [hpad.counts.mdi, hblocks] at hblock
  have hlast : Transform (MD5Update mdContext PADDING (BitVec.ofNat 32 (padLen (message.length % 64)))).buf
      (fun i => if i = 14 then mdContext.i0 else if i = 15 then mdContext.i1
        else words (MD5Update mdContext PADDING (BitVec.ofNat 32 (padLen (message.length % 64)))).block i) =
      chain 64 compress start (padded message) ((padded message).length / 64) := by
    rw [hwhole, chain_succ, padded, chain_append compress_local _ _ (by omega), ← hpad.absorbed.value]
    exact Transform_local (fun i hi => last_words h.counts hblocks hblock hi) _
  unfold MD5Final
  rw [h.counts.mdi]
  simp only [hlast, digestBytes_eq]
  rfl

theorem After.pieces {pieces : List (List Byte)} (hpieces : ∀ p ∈ pieces, p.length < 2 ^ 32)
    (h : After stream mdContext) : After (stream ++ pieces.flatten)
      (pieces.foldl (fun c p => MD5Update c p (BitVec.ofNat 32 p.length)) mdContext) := by
  induction pieces generalizing stream mdContext with
  | nil => simpa using h
  | cons p pieces ih =>
    rw [List.foldl_cons, List.flatten_cons, ← List.append_assoc]
    exact ih (fun q hq => hpieces q (List.mem_cons_of_mem p hq)) (h.update_all (hpieces p List.mem_cons_self))

/-- The loop over a file ends once nothing is left. -/
theorem After.read {size : ℕ} (hsize : 0 < size) (hbound : size < 2 ^ 32) {file : List Byte} {fuel : ℕ}
    (hfuel : file.length < fuel) (h : After stream mdContext) :
    After (stream ++ file) (MDRead size fuel mdContext file) := by
  induction fuel generalizing stream mdContext file with
  | zero => exact absurd hfuel (Nat.not_lt_zero _)
  | succ fuel ih =>
    unfold MDRead
    simp only
    by_cases hend : (file.take size).length = 0
    · have hempty : file = [] := by
        rw [List.length_take] at hend
        exact List.eq_nil_of_length_eq_zero (by omega)
      rw [if_pos hend, hempty, List.append_nil]
      exact h
    · rw [if_neg hend]
      have htake : (file.take size).length < 2 ^ 32 := Nat.lt_of_le_of_lt (List.length_take_le _ _) hbound
      have hrest : (file.drop size).length < fuel := by
        rw [List.length_take] at hend
        rw [List.length_drop]
        omega
      have hread := ih hrest (h.update_all htake)
      rwa [List.append_assoc, List.take_append_drop] at hread

/-- Whatever pieces a message is given in, of less than 2^32 bytes each, and whatever was in the context before, the
digest is the one of the message; `MDFile` and `MDFilter` are two ways to cut it. -/
theorem digest_of_pieces (mdContext : MD5_CTX) (pieces : List (List Byte)) (hpieces : ∀ p ∈ pieces, p.length < 2 ^ 32) :
    (MD5Final (pieces.foldl (fun c p => MD5Update c p (BitVec.ofNat 32 p.length)) (MD5Init mdContext))).digest =
        md5 pieces.flatten ∧
      MDFile mdContext pieces.flatten = md5 pieces.flatten ∧ MDFilter mdContext pieces.flatten = md5 pieces.flatten := by
  have hinit := After.init mdContext
  refine ⟨MD5Final_digest (hinit.pieces hpieces), MD5Final_digest ?_, MD5Final_digest ?_⟩
  · exact hinit.read (by decide) (by decide) (Nat.lt_succ_self _)
  · exact hinit.read (by decide) (by decide) (Nat.lt_succ_self _)

theorem digest_of_pieces_abc : (MD5Final (MD5Update (MD5Update (MD5Init ⟨7, 7, ⟨7, 7, 7, 7⟩, fun _ => 7, []⟩) [0x61] 1)
    [0x62, 0x63] 2)).digest = md5 [0x61, 0x62, 0x63] :=
  (digest_of_pieces ⟨7, 7, ⟨7, 7, 7, 7⟩, fun _ => 7, []⟩ [[0x61], [0x62, 0x63]] (by decide)).1

end StarLib.Md5
