import StarLib.Foundations.Absorbing
import StarLib.LicenseLib.Md5

/-! # Updates and padding of the MD5 variant

`md5Byte` is one push of an absorber with 64 bytes a block. Successive updates are one update with all
their bytes. `av_md5_final` pads with `while ((ctx->len & 63) < 56)`: behind the marker the residues 57 to
63 get no zeros, and the length does not end a block there.
-/

namespace StarLib.LicenseLib
open Foundations
set_option autoImplicit false
set_option maxHeartbeats 250000
set_option maxRecDepth 120000

/-! ## Updates -/

def md5Compress (abcd : ABCD) (block : ℕ → Byte) : ABCD := md5Body abcd (blockWord block)

def Md5Work.absorber (s : Md5Work) : Absorber Byte ABCD := ⟨s.j, s.block, s.abcd⟩

theorem md5Compress_local (abcd : ABCD) (block block' : ℕ → Byte) (h : AgreeBelow 64 block block') :
    md5Compress abcd block = md5Compress abcd block' := md5Body_congr h abcd

theorem md5Byte_push (b : Byte) (s : Md5Work) : (md5Byte b s).absorber = s.absorber.push 64 md5Compress b := by
  unfold md5Byte Absorber.push Md5Work.absorber
  by_cases hfull : 64 = s.j + 1
  · simp only [if_pos hfull, md5Compress]
  · simp only [if_neg hfull]

theorem md5Bytes_absorb (src : List Byte) (s : Md5Work) :
    (src.foldl (fun s b => md5Byte b s) s).absorber = s.absorber.absorb 64 md5Compress src := by
  induction src generalizing s with
  | nil => rfl
  | cons b src ih =>
    rw [List.foldl_cons, ih, md5Byte_push]
    rfl

def AVMD5.absorber (ctx : AVMD5) : Absorber Byte ABCD := ⟨ctx.len % 64, ctx.block, ctx.abcd⟩

/-- What a context says after `stream`, from the start words `abcd`. -/
structure Md5After (abcd : ABCD) (stream : List Byte) (ctx : AVMD5) : Prop where
  len : ctx.len = stream.length % 2 ^ 64
  absorbed : Absorbed 64 md5Compress abcd stream ctx.absorber

namespace Md5After
variable {abcd : ABCD} {stream : List Byte} {ctx : AVMD5}

theorem init (block : ℕ → Byte) : Md5After (avMd5Init block).abcd [] (avMd5Init block) :=
  ⟨rfl, Absorbed.start 64 md5Compress block _⟩

theorem update_len (h : Md5After abcd stream ctx) (src : List Byte) :
    (avMd5Update ctx src).len = (stream ++ src).length % 2 ^ 64 := by
  show (ctx.len + src.length) % 2 ^ 64 = _
  rw [h.len, List.length_append, Nat.mod_add_mod]

theorem update_absorber (h : Md5After abcd stream ctx) (src : List Byte) :
    (avMd5Update ctx src).absorber = ctx.absorber.absorb 64 md5Compress src := by
  let s : Md5Work := src.foldl (fun s b => md5Byte b s) ⟨ctx.len % 64, ctx.block, ctx.abcd⟩
  have hrun : s.absorber = ctx.absorber.absorb 64 md5Compress src :=
    md5Bytes_absorb src ⟨ctx.len % 64, ctx.block, ctx.abcd⟩
  have hj : s.j = (stream ++ src).length % 64 := by
    have hfill := (h.absorbed.absorb (by decide) md5Compress_local src).fill
    rw [← hrun] at hfill
    exact hfill
  have hlen : (avMd5Update ctx src).len % 64 = s.j := by
    rw [h.update_len src, hj]
    omega
  show (⟨(avMd5Update ctx src).len % 64, s.block, s.abcd⟩ : Absorber Byte ABCD) = _
  rw [hlen]
  exact hrun

theorem update (h : Md5After abcd stream ctx) (src : List Byte) :
    Md5After abcd (stream ++ src) (avMd5Update ctx src) := by
  refine ⟨h.update_len src, ?_⟩
  rw [h.update_absorber src]
  exact h.absorbed.absorb (by decide) md5Compress_local src

theorem abcd_eq (h : Md5After abcd stream ctx) :
    ctx.abcd = chain 64 md5Compress abcd stream (stream.length / 64) := h.absorbed.value

theorem update_append (h : Md5After abcd stream ctx) (src rest : List Byte) :
    avMd5Update (avMd5Update ctx src) rest = avMd5Update ctx (src ++ rest) := by
  have hj : (avMd5Update ctx src).len % 64 =
      (src.foldl (fun s b => md5Byte b s) ⟨ctx.len % 64, ctx.block, ctx.abcd⟩ : Md5Work).j := by
    have hfill := congrArg Absorber.fill (h.update_absorber src)
    have hwork := congrArg Absorber.fill (md5Bytes_absorb src ⟨ctx.len % 64, ctx.block, ctx.abcd⟩)
    exact hfill.trans hwork.symm
  have hlen : ((ctx.len + src.length) % 2 ^ 64 + rest.length) % 2 ^ 64 =
      (ctx.len + (src ++ rest).length) % 2 ^ 64 := by
    rw [List.length_append, Nat.mod_add_mod, Nat.add_assoc]
  unfold avMd5Update at hj ⊢
  simp only at hj ⊢
  rw [hj, hlen, List.foldl_append]

end Md5After

theorem avMd5Updates_flatten (block : ℕ → Byte) (chunks : List (List Byte)) :
    chunks.foldl avMd5Update (avMd5Init block) = avMd5Update (avMd5Init block) chunks.flatten := by
  have hrun : ∀ (src : List Byte), chunks.foldl avMd5Update (avMd5Update (avMd5Init block) src) =
      avMd5Update (avMd5Init block) (src ++ chunks.flatten) := by
    induction chunks with
    | nil => simp
    | cons chunk chunks ih =>
      intro src
      rw [List.foldl_cons, (Md5After.init block).update_append, ih, List.flatten_cons, List.append_assoc]
  exact hrun []

/-! ## Padding -/

theorem lengthBytes_length (len : ℕ) : (lengthBytes len).length = 8 := by simp [lengthBytes]

theorem lengthBytes_mod (len : ℕ) : lengthBytes (len % 2 ^ 64) = lengthBytes len := by
  have hbits : BitVec.ofNat 64 ((len % 2 ^ 64) <<< 3) = BitVec.ofNat 64 (len <<< 3) := by
    apply BitVec.eq_of_toNat_eq
    simp only [BitVec.toNat_ofNat, Nat.shiftLeft_eq]
    omega
  unfold lengthBytes
  rw [hbits]

def md5Stream (msg : List Byte) (zeros : ℕ) : List Byte :=
  msg ++ 0x80 :: (List.replicate zeros 0 ++ lengthBytes msg.length)

theorem md5Stream_length (msg : List Byte) (zeros : ℕ) : (md5Stream msg zeros).length = msg.length + zeros + 9 := by
  simp [md5Stream, lengthBytes_length]
  omega

/-- The zeros that the loop of `av_md5_final` writes. -/
def md5Zeros (len : ℕ) : ℕ := 56 - (len + 1) % 64

/-- The loop of `av_md5_final`, `zeros` turns before its guard fails. -/
theorem md5Loop_after {abcd : ABCD} {stream : List Byte} {ctx : AVMD5} (h : Md5After abcd stream ctx) (fuel : ℕ)
    (hfuel : 56 - stream.length % 64 ≤ fuel) :
    Md5After abcd (stream ++ List.replicate (56 - stream.length % 64) 0)
      (whileFuel (fun ctx => decide (ctx.len % 64 < 56)) (fun ctx => avMd5Update ctx [0]) fuel ctx) := by
  have hmod : ctx.len % 64 = stream.length % 64 := h.absorbed.fill
  induction fuel generalizing stream ctx with
  | zero =>
    have hnone : 56 - stream.length % 64 = 0 := by omega
    simpa [hnone, whileFuel] using h
  | succ fuel ih =>
    unfold whileFuel
    by_cases hguard : ctx.len % 64 < 56
    · have hone : 56 - stream.length % 64 = 1 + (56 - (stream ++ [0]).length % 64) := by
        simp
        omega
      have hnext := h.update [0]
      have hrest := ih hnext (by omega) hnext.absorbed.fill
      rw [if_pos (decide_eq_true hguard), hone, List.replicate_add, ← List.append_assoc]
      exact hrest
    · have hnone : 56 - stream.length % 64 = 0 := by omega
      rw [if_neg (by simpa using hguard), hnone]
      simpa using h

theorem md5Pad_after {abcd : ABCD} {msg : List Byte} {ctx : AVMD5} (h : Md5After abcd msg ctx) :
    Md5After abcd (md5Stream msg (md5Zeros msg.length)) (md5Pad ctx) := by
  have hmark := h.update [0x80]
  have hloop := md5Loop_after hmark 56 (by omega)
  have hpad := hloop.update (lengthBytes ctx.len)
  have hstream : msg ++ [0x80] ++ List.replicate (56 - (msg ++ [0x80]).length % 64) 0 ++ lengthBytes ctx.len =
      md5Stream msg (md5Zeros msg.length) := by
    rw [h.len, lengthBytes_mod]
    simp [md5Stream, md5Zeros]
  rw [hstream] at hpad
  exact hpad

/-- The padding rule: the message, the marker, less than a block of zeros and the length are whole blocks,
all of them are counted, and `body` has taken them in turn. -/
def PaddingCompleted (abcd : ABCD) (msg : List Byte) (ctx : AVMD5) : Prop :=
  ∃ zeros < 64, (md5Stream msg zeros).length % 64 = 0 ∧ ctx.len = (md5Stream msg zeros).length % 2 ^ 64 ∧
    ctx.abcd = chain 64 md5Compress abcd (md5Stream msg zeros) ((md5Stream msg zeros).length / 64)

theorem paddingCompleted_iff {abcd : ABCD} {msg : List Byte} {ctx : AVMD5} (h : Md5After abcd msg ctx) :
    PaddingCompleted abcd msg (md5Pad ctx) ↔ ¬ (56 ≤ msg.length % 64 ∧ msg.length % 64 ≤ 62) := by
  have hpad := md5Pad_after h
  have htotal := md5Stream_length msg (md5Zeros msg.length)
  constructor
  · rintro ⟨zeros, -, hwhole, hlen, -⟩ hres
    have hcount := hpad.len
    rw [hlen, htotal] at hcount
    unfold md5Zeros at hcount
    omega
  · intro hres
    refine ⟨md5Zeros msg.length, ?_, ?_, hpad.len, hpad.abcd_eq⟩
    · unfold md5Zeros
      omega
    · rw [htotal, md5Zeros]
      omega

/-- Any split into updates gives the context of one update, and the padding is completed except behind
lengths of 56 to 62 modulo 64. -/
theorem avMd5_updates_padding (block : ℕ → Byte) (chunks : List (List Byte)) :
    chunks.foldl avMd5Update (avMd5Init block) = avMd5Update (avMd5Init block) chunks.flatten ∧
      (PaddingCompleted (avMd5Init block).abcd chunks.flatten (md5Pad (chunks.foldl avMd5Update (avMd5Init block))) ↔
        ¬ (56 ≤ chunks.flatten.length % 64 ∧ chunks.flatten.length % 64 ≤ 62)) := by
  have hsplit := avMd5Updates_flatten block chunks
  refine ⟨hsplit, ?_⟩
  rw [hsplit]
  exact paddingCompleted_iff ((Md5After.init block).update chunks.flatten)

/-- 56 bytes in one update. -/
theorem avMd5_padding_short : ¬ PaddingCompleted (avMd5Init fun _ => 0).abcd (List.replicate 56 0x61)
    (md5Pad (avMd5Update (avMd5Init fun _ => 0) (List.replicate 56 0x61))) := by
  rintro ⟨zeros, -, hwhole, hlen, -⟩
  have hcount : (md5Pad (avMd5Update (avMd5Init fun _ => 0) (List.replicate 56 0x61))).len = 65 := by decide
  omega

end StarLib.LicenseLib
