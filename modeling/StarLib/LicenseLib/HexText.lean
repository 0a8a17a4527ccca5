import Mathlib.Algebra.Group.Even
import Mathlib.Data.List.TakeWhile
import Mathlib.Logic.Function.Basic
import StarLib.Foundations.Ascii

/-! # Bytes as hexadecimal text

`bin_to_str` and `str_to_bin` and their wide twins. A string is the memory from its first character on, which goes on
behind the terminator; the decoders record which characters they read and which bytes they write. The width `w` of the
characters is 8 or 16.
-/

namespace StarLib.LicenseLib
open Foundations
set_option autoImplicit false
set_option maxHeartbeats 250000
set_option maxRecDepth 120000

variable {w v : ℕ}

/-! ## The encoders -/

def hexCode (d : ℕ) : ℕ := if d < 10 then 0x30 + d else 0x37 + d

def hexChar (w d : ℕ) : BitVec w := BitVec.ofNat w (hexCode d)

structure Writer (w : ℕ) where
  pos : ℕ
  text : ℕ → BitVec w

/-- `p += sprintf(p, "%02X", b)`. -/
def sprintf02X (b : Byte) (s : Writer w) : Writer w where
  pos := s.pos + 2
  text := Function.update (Function.update (Function.update s.text s.pos (hexChar w (b.toNat / 16)))
    (s.pos + 1) (hexChar w (b.toNat % 16))) (s.pos + 2) 0

/-- The loop over the bytes, which a byte with `ends` ends. -/
def encodeLoop (ends : Byte → Bool) : List Byte → Writer w → Writer w
  | [], s => s
  | b :: bin, s => if ends b then s else encodeLoop ends bin (sprintf02X b s)

def encode (ends : Byte → Bool) (bin : List Byte) (str_len : ℤ) (str : ℕ → BitVec w) : ℤ × (ℕ → BitVec w) :=
  if str_len ≤ (bin.length : ℤ) * 2 + 1 then (-1, str)
  else
    let s := encodeLoop ends bin ⟨0, str⟩
    (s.pos, s.text)

def binToStr (bin : List Byte) (str_len : ℤ) (str : ℕ → BitVec 8) : ℤ × (ℕ → BitVec 8) := encode (fun _ => false) bin str_len str

/-- The loop has the further condition `*((char*)bin+i)`. -/
def binToUnicode (bin : List Byte) (str_len : ℤ) (str : ℕ → BitVec 16) : ℤ × (ℕ → BitVec 16) := encode (fun b => b = 0) bin str_len str

/-! ## The decoders -/

/-- The two `switch` tables, of which the first one has these values times 16. -/
def digitCase : ℕ → ℕ
  | 0x31 => 1
  | 0x32 => 2
  | 0x33 => 3
  | 0x34 => 4
  | 0x35 => 5
  | 0x36 => 6
  | 0x37 => 7
  | 0x38 => 8
  | 0x39 => 9
  | 0x61 => 10
  | 0x41 => 10
  | 0x62 => 11
  | 0x42 => 11
  | 0x63 => 12
  | 0x43 => 12
  | 0x64 => 13
  | 0x44 => 13
  | 0x65 => 14
  | 0x45 => 14
  | 0x66 => 15
  | 0x46 => 15
  | _ => 0

def hexToBin (in0 in1 : BitVec w) : Byte := BitVec.ofNat 8 (16 * digitCase in0.toNat + digitCase in1.toNat)

structure Decoder where
  idx : ℕ
  pos : ℕ
  bin : ℕ → Byte
  reads : List ℕ
  writes : List ℕ

def Decoder.read (s : Decoder) (places : List ℕ) : Decoder := { s with reads := s.reads ++ places }

/-- `hex_to_bin(p, &((char*)bin)[idx])`. -/
def Decoder.hexToBin (str : ℕ → BitVec w) (s : Decoder) : Decoder :=
  { s.read [s.pos, s.pos + 1] with
    bin := Function.update s.bin s.idx (LicenseLib.hexToBin (str s.pos) (str (s.pos + 1)))
    writes := s.writes ++ [s.idx] }

/-- A byte of the result, and the look back at the character before, which is made from the third character on. -/
def Decoder.consume (str : ℕ → BitVec w) (s : Decoder) : Decoder :=
  let s := (s.read [s.pos]).hexToBin str
  s.read (if 1 < s.pos then [s.pos - 1] else [])

/-- A turn of the loop, and whether it comes to its last test. -/
def turn (str : ℕ → BitVec w) (s : Decoder) : Decoder × Bool :=
  if str s.pos = 0 then (s.read [s.pos], false)
  else if 1 < s.pos ∧ str (s.pos - 1) = 0 then (s.consume str, false)
  else ({ s.consume str with pos := s.pos + 2, idx := s.idx + 1 }, true)

/-- The loop, in which `room` more bytes fit behind the next one. -/
def decodeLoop (str : ℕ → BitVec w) : ℕ → Decoder → Decoder
  | 0, s => (turn str s).1
  | room + 1, s => if (turn str s).2 then decodeLoop str room (turn str s).1 else (turn str s).1

/-- The loop writes a byte before it compares with `bin_len`. -/
def decode (str : ℕ → BitVec w) (bin : ℕ → Byte) (bin_len : ℤ) : Decoder :=
  decodeLoop str (bin_len - 1).toNat ⟨0, 0, bin, [], []⟩

def strToBin (str : ℕ → BitVec 8) (bin : ℕ → Byte) (bin_len : ℤ) : Decoder := decode str bin bin_len

def unicodeToBin (str : ℕ → BitVec 16) (bin : ℕ → Byte) (bin_len : ℤ) : Decoder := decode str bin bin_len

/-! ## Digits -/

theorem hexChar_toNat (hw : 8 ≤ w) {d : ℕ} (hd : d < 16) : (hexChar w d).toNat = hexCode d := by
  have hcode : hexCode d < 2 ^ 8 := by
    unfold hexCode
    split <;> omega
  unfold hexChar
  rw [BitVec.toNat_ofNat, Nat.mod_eq_of_lt (lt_of_lt_of_le hcode (Nat.pow_le_pow_right (by decide) hw))]

theorem hexCode_facts : ∀ d < 16, hexCode d ≠ 0 ∧ digitCase (hexCode d) = d := by decide

/-- The character is not the terminator and has the value `d`. -/
def IsDigit (c : BitVec w) (d : ℕ) : Prop := c ≠ 0 ∧ digitCase c.toNat = d

theorem hexChar_isDigit (hw : 8 ≤ w) {d : ℕ} (hd : d < 16) : IsDigit (hexChar w d) d := by
  obtain ⟨hne, hcase⟩ := hexCode_facts d hd
  have htoNat := hexChar_toNat hw hd
  refine ⟨fun hzero => hne ?_, by rw [htoNat, hcase]⟩
  rw [← htoNat, hzero]
  exact BitVec.toNat_zero

theorem toLower_isDigit : ∀ d < 16, IsDigit (toLower (hexChar 8 d)) d := by
  unfold IsDigit
  decide

theorem hexToBin_digits {b : Byte} {c c' : BitVec w} (h : IsDigit c (b.toNat / 16)) (h' : IsDigit c' (b.toNat % 16)) :
    hexToBin c c' = b := by
  have hb : 16 * (b.toNat / 16) + b.toNat % 16 = b.toNat := Nat.div_add_mod b.toNat 16
  unfold hexToBin
  rw [h.2, h'.2, hb, BitVec.ofNat_toNat, BitVec.setWidth_eq]

/-- From `pos` on there are digits of the bytes, in either case. -/
def Digits (text : ℕ → BitVec w) : ℕ → List Byte → Prop
  | _, [] => True
  | pos, b :: bin => IsDigit (text pos) (b.toNat / 16) ∧ IsDigit (text (pos + 1)) (b.toNat % 16) ∧ Digits text (pos + 2) bin

/-- From `pos` on there are the digits that `%02X` writes. -/
def Hex (text : ℕ → BitVec w) : ℕ → List Byte → Prop
  | _, [] => True
  | pos, b :: bin => text pos = hexChar w (b.toNat / 16) ∧ text (pos + 1) = hexChar w (b.toNat % 16) ∧ Hex text (pos + 2) bin

theorem halves_lt (b : Byte) : b.toNat / 16 < 16 ∧ b.toNat % 16 < 16 := by
  have hb := b.isLt
  omega

theorem Hex.digits {text : ℕ → BitVec w} {f : BitVec w → BitVec v} (hf : ∀ d < 16, IsDigit (f (hexChar w d)) d) :
    ∀ {pos : ℕ} {bin : List Byte}, Hex text pos bin → Digits (fun i => f (text i)) pos bin
  | _, [], _ => trivial
  | _, b :: _, ⟨hhigh, hlow, hrest⟩ => by
    obtain ⟨h₁, h₂⟩ := halves_lt b
    refine ⟨?_, ?_, hrest.digits hf⟩
    · dsimp only
      rw [hhigh]
      exact hf _ h₁
    · dsimp only
      rw [hlow]
      exact hf _ h₂

/-! ## What the encoders write -/

/-- The digits and a terminator, and nothing else. -/
structure Written (bin : List Byte) (s r : Writer w) : Prop where
  pos : r.pos = s.pos + 2 * bin.length
  hex : Hex r.text s.pos bin
  terminated : bin ≠ [] → r.text r.pos = 0
  before : ∀ j < s.pos, r.text j = s.text j
  after : ∀ j, r.pos < j → r.text j = s.text j

theorem sprintf02X_text (b : Byte) (s : Writer w) :
    (sprintf02X b s).text s.pos = hexChar w (b.toNat / 16) ∧ (sprintf02X b s).text (s.pos + 1) = hexChar w (b.toNat % 16) ∧
      (sprintf02X b s).text (s.pos + 2) = 0 ∧ ∀ j, j < s.pos ∨ s.pos + 2 < j → (sprintf02X b s).text j = s.text j := by
  unfold sprintf02X
  dsimp only
  refine ⟨?_, ?_, Function.update_self _ _ _, fun j hj => ?_⟩
  · rw [Function.update_of_ne (by omega), Function.update_of_ne (by omega), Function.update_self]
  · rw [Function.update_of_ne (by omega), Function.update_self]
  · rw [Function.update_of_ne (by omega), Function.update_of_ne (by omega), Function.update_of_ne (by omega)]

theorem encodeLoop_written {ends : Byte → Bool} : ∀ (bin : List Byte) (s : Writer w), (∀ b ∈ bin, ends b = false) →
    Written bin s (encodeLoop ends bin s)
  | [], s, _ => ⟨rfl, trivial, fun hne => absurd rfl hne, fun _ _ => rfl, fun _ _ => rfl⟩
  | b :: bin, s, hends => by
    have hrest := encodeLoop_written bin (sprintf02X b s) fun b' hb' => hends b' (List.mem_cons_of_mem b hb')
    obtain ⟨hhigh, hlow, hend, hother⟩ := sprintf02X_text b s
    have hpos : (sprintf02X b s).pos = s.pos + 2 := rfl
    have hlength := hrest.pos
    unfold encodeLoop
    rw [hends b List.mem_cons_self, if_neg Bool.false_ne_true]
    refine ⟨?_, ⟨?_, ?_, hrest.hex⟩, fun _ => ?_, fun j hj => ?_, fun j hj => ?_⟩
    · rw [hlength, hpos, List.length_cons]
      omega
    · rw [hrest.before _ (by omega), hhigh]
    · rw [hrest.before _ (by omega), hlow]
    · cases bin with
      | nil => exact hend
      | cons c bin => exact hrest.terminated (List.cons_ne_nil c bin)
    · rw [hrest.before j (by omega), hother j (Or.inl hj)]
    · rw [hrest.after j hj, hother j (Or.inr (by omega))]

/-- A byte that ends the loop ends the text. -/
theorem encodeLoop_ends (ends : Byte → Bool) : ∀ (bin : List Byte) (s : Writer w),
    encodeLoop ends bin s = encodeLoop (fun _ => false) (bin.takeWhile fun b => !ends b) s
  | [], _ => rfl
  | b :: bin, s => by
    rw [List.takeWhile_cons]
    unfold encodeLoop
    cases hb : ends b with
    | true => rfl
    | false => exact encodeLoop_ends ends bin (sprintf02X b s)

theorem encode_eq {ends : Byte → Bool} {bin : List Byte} {str_len : ℤ} (hlen : (bin.length : ℤ) * 2 + 1 < str_len)
    (str : ℕ → BitVec w) :
    encode ends bin str_len str = (((encodeLoop ends bin ⟨0, str⟩).pos : ℤ), (encodeLoop ends bin ⟨0, str⟩).text) :=
  if_neg (not_le.2 hlen)

/-! ## What the decoders restore -/

variable {str : ℕ → BitVec w} {s : Decoder}

theorem turn_stop (h : str s.pos = 0) : turn str s = (s.read [s.pos], false) := if_pos h

theorem turn_next (h : str s.pos ≠ 0) (hback : 1 < s.pos → str (s.pos - 1) ≠ 0) :
    turn str s = ({ s.consume str with pos := s.pos + 2, idx := s.idx + 1 }, true) :=
  (if_neg h).trans (if_neg fun hand => hback hand.1 hand.2)

theorem decodeLoop_zero : decodeLoop str 0 s = (turn str s).1 := rfl

theorem decodeLoop_succ (room : ℕ) :
    decodeLoop str (room + 1) s = if (turn str s).2 then decodeLoop str room (turn str s).1 else (turn str s).1 := rfl

/-- Memory with the bytes `l` from `off` on. -/
def overwrite (bin : ℕ → Byte) (off : ℕ) (l : List Byte) : ℕ → Byte := fun i => if off ≤ i then l.getD (i - off) (bin i) else bin i

theorem overwrite_nil (bin : ℕ → Byte) (off : ℕ) : overwrite bin off [] = bin := by
  funext i
  unfold overwrite
  rw [List.getD_nil, ite_self]

theorem overwrite_cons (bin : ℕ → Byte) (off : ℕ) (b : Byte) (l : List Byte) :
    overwrite bin off (b :: l) = overwrite (Function.update bin off b) (off + 1) l := by
  funext i
  unfold overwrite
  rcases Nat.lt_trichotomy i off with hlt | rfl | hgt
  · rw [if_neg (by omega), if_neg (by omega), Function.update_of_ne (by omega)]
  · rw [if_pos (le_refl i), if_neg (by omega), Function.update_self, Nat.sub_self, List.getD_cons_zero]
  · obtain ⟨k, rfl⟩ := Nat.exists_eq_add_of_lt hgt
    have hpred : off + k + 1 - off = k + 1 := by omega
    have hrest : off + k + 1 - (off + 1) = k := by omega
    rw [if_pos (by omega), if_pos (by omega), hpred, hrest, List.getD_cons_succ, Function.update_of_ne (by omega)]

theorem decodeLoop_digits : ∀ (bin : List Byte) (b : Byte) (s : Decoder), Digits str s.pos (b :: bin) →
    (1 < s.pos → str (s.pos - 1) ≠ 0) →
    (decodeLoop str bin.length s).idx = s.idx + bin.length + 1 ∧
      (decodeLoop str bin.length s).bin = overwrite s.bin s.idx (b :: bin)
  | [], b, s, ⟨hhigh, hlow, _⟩, hback => by
    have hbin : (s.consume str).bin = Function.update s.bin s.idx b :=
      congrArg (Function.update s.bin s.idx) (hexToBin_digits hhigh hlow)
    rw [List.length_nil, decodeLoop_zero, turn_next hhigh.1 hback, overwrite_cons, overwrite_nil]
    exact ⟨rfl, hbin⟩
  | c :: bin, b, s, ⟨hhigh, hlow, hrest⟩, hback => by
    have hbin : (s.consume str).bin = Function.update s.bin s.idx b :=
      congrArg (Function.update s.bin s.idx) (hexToBin_digits hhigh hlow)
    have hnext := decodeLoop_digits bin c { s.consume str with pos := s.pos + 2, idx := s.idx + 1 } hrest fun _ => hlow.1
    rw [List.length_cons, decodeLoop_succ, turn_next hhigh.1 hback, if_pos rfl, overwrite_cons, ← hbin]
    refine ⟨hnext.1.trans ?_, hnext.2⟩
    show s.idx + 1 + bin.length + 1 = s.idx + (bin.length + 1) + 1
    omega

theorem decode_digits {bin : List Byte} (hne : bin ≠ []) (h : Digits str 0 bin) (out : ℕ → Byte) :
    (decode str out bin.length).idx = bin.length ∧ (decode str out bin.length).bin = overwrite out 0 bin := by
  cases bin with
  | nil => exact absurd rfl hne
  | cons b bin =>
    have hroom : (((b :: bin).length : ℤ) - 1).toNat = bin.length := by
      rw [List.length_cons]
      omega
    have hloop := decodeLoop_digits bin b ⟨0, 0, out, [], []⟩ h fun hpos => absurd hpos (Nat.not_lt_zero 1)
    unfold decode
    rw [hroom]
    refine ⟨hloop.1.trans ?_, hloop.2⟩
    rw [List.length_cons, Nat.zero_add]

/-! ## The narrow functions -/

/-- `str_to_bin` returns the number of the bytes and restores them, in whatever memory. -/
def StrRestores (text : ℕ → BitVec 8) (bin : List Byte) : Prop :=
  ∀ out, (strToBin text out bin.length).idx = bin.length ∧ (strToBin text out bin.length).bin = overwrite out 0 bin

/-- What `bin_to_str` writes for the bytes, and that `str_to_bin` restores them from it and from its lower case. -/
theorem strToBin_binToStr {bin : List Byte} (hne : bin ≠ []) {str_len : ℤ} (hlen : 2 * (bin.length : ℤ) + 1 < str_len)
    (str : ℕ → BitVec 8) :
    (binToStr bin str_len str).1 = 2 * bin.length ∧ Hex (binToStr bin str_len str).2 0 bin ∧
      (binToStr bin str_len str).2 (2 * bin.length) = 0 ∧
      (∀ i, 2 * bin.length < i → (binToStr bin str_len str).2 i = str i) ∧
      StrRestores (binToStr bin str_len str).2 bin ∧ StrRestores (fun i => toLower ((binToStr bin str_len str).2 i)) bin := by
  have hwritten := encodeLoop_written bin (⟨0, str⟩ : Writer 8) fun _ _ => rfl
  have hpos : (encodeLoop (fun _ => false) bin (⟨0, str⟩ : Writer 8)).pos = 2 * bin.length := hwritten.pos.trans (Nat.zero_add _)
  have hend := hwritten.terminated hne
  have hafter := hwritten.after
  rw [hpos] at hend hafter
  unfold binToStr
  rw [encode_eq (by omega) str, hpos]
  refine ⟨Nat.cast_mul 2 bin.length, hwritten.hex, hend, hafter, ?_, ?_⟩
  · exact decode_digits hne (hwritten.hex.digits (f := id) fun d hd => hexChar_isDigit (le_refl 8) hd)
  · exact decode_digits hne (hwritten.hex.digits toLower_isDigit)

theorem strToBin_binToStr_sample :
    (binToStr [0x00, 0xFF] 6 fun _ => 0x20).1 = 2 * ([0x00, 0xFF] : List Byte).length ∧
      Hex (binToStr [0x00, 0xFF] 6 fun _ => 0x20).2 0 [0x00, 0xFF] ∧
      (binToStr [0x00, 0xFF] 6 fun _ => 0x20).2 (2 * ([0x00, 0xFF] : List Byte).length) = 0 ∧
      (∀ i, 2 * ([0x00, 0xFF] : List Byte).length < i → (binToStr [0x00, 0xFF] 6 fun _ => 0x20).2 i = 0x20) ∧
      StrRestores (binToStr [0x00, 0xFF] 6 fun _ => 0x20).2 [0x00, 0xFF] ∧
      StrRestores (fun i => toLower ((binToStr [0x00, 0xFF] 6 fun _ => 0x20).2 i)) [0x00, 0xFF] :=
  strToBin_binToStr (List.cons_ne_nil _ _) (by decide) _

/-! ## The wide functions -/

/-- `bin_to_unicode` gives the length and the digits of `bin_to_str`, and `unicode_to_bin` restores the bytes. -/
structure WideAgrees (bin : List Byte) (str_len : ℤ) (str : ℕ → BitVec 8) (wide : ℕ → BitVec 16) : Prop where
  length : (binToUnicode bin str_len wide).1 = (binToStr bin str_len str).1
  digits : ∀ i < 2 * bin.length, ((binToUnicode bin str_len wide).2 i).toNat = ((binToStr bin str_len str).2 i).toNat
  restores : ∀ out, (unicodeToBin (binToUnicode bin str_len wide).2 out bin.length).idx = bin.length ∧
    (unicodeToBin (binToUnicode bin str_len wide).2 out bin.length).bin = overwrite out 0 bin

theorem Hex.toNat_eq {narrow : ℕ → BitVec 8} {wide : ℕ → BitVec 16} : ∀ {pos : ℕ} {bin : List Byte},
    Hex narrow pos bin → Hex wide pos bin → ∀ i < 2 * bin.length, (wide (pos + i)).toNat = (narrow (pos + i)).toNat
  | _, [], _, _, i, hi => absurd hi (Nat.not_lt_zero i)
  | pos, b :: bin, ⟨hhigh, hlow, hrest⟩, ⟨hhigh', hlow', hrest'⟩, i, hi => by
    obtain ⟨h₁, h₂⟩ := halves_lt b
    rw [List.length_cons] at hi
    match i with
    | 0 => rw [Nat.add_zero, hhigh, hhigh', hexChar_toNat (by decide) h₁, hexChar_toNat (by decide) h₁]
    | 1 => rw [hlow, hlow', hexChar_toNat (by decide) h₂, hexChar_toNat (by decide) h₂]
    | i + 2 =>
      have hnext := Hex.toNat_eq hrest hrest' i (by omega)
      rwa [Nat.add_assoc, Nat.add_comm 2 i] at hnext

theorem takeWhile_nonzero {bin : List Byte} : (bin.takeWhile fun b => !decide (b = 0)) = bin ↔ (0 : Byte) ∉ bin := by
  rw [List.takeWhile_eq_self_iff]
  constructor
  · intro h hzero
    exact absurd (h 0 hzero) (by decide)
  · intro h b hb
    rw [Bool.not_eq_true', decide_eq_false_iff_not]
    exact fun hzero => h (hzero ▸ hb)

theorem wideAgrees_iff {bin : List Byte} (hne : bin ≠ []) {str_len : ℤ} (hlen : 2 * (bin.length : ℤ) + 1 < str_len)
    (str : ℕ → BitVec 8) (wide : ℕ → BitVec 16) : WideAgrees bin str_len str wide ↔ (0 : Byte) ∉ bin := by
  have hnarrow : Written bin ⟨0, str⟩ (encodeLoop (fun _ => false) bin ⟨0, str⟩) := encodeLoop_written bin _ fun _ _ => rfl
  have hstr : binToStr bin str_len str = (((encodeLoop (fun _ => false) bin ⟨0, str⟩).pos : ℤ),
    (encodeLoop (fun _ => false) bin ⟨0, str⟩).text) := encode_eq (by omega) str
  have hunicode : binToUnicode bin str_len wide = (((encodeLoop (fun b => decide (b = 0)) bin ⟨0, wide⟩).pos : ℤ),
    (encodeLoop (fun b => decide (b = 0)) bin ⟨0, wide⟩).text) := encode_eq (by omega) wide
  constructor
  · intro h
    have hlength := h.length
    rw [hstr, hunicode, Nat.cast_inj, hnarrow.pos, encodeLoop_ends,
      (encodeLoop_written _ (⟨0, wide⟩ : Writer 16) fun _ _ => rfl).pos] at hlength
    dsimp only at hlength
    exact takeWhile_nonzero.1 ((List.takeWhile_prefix _).eq_of_length (by omega))
  · intro h
    have hends := encodeLoop_ends (fun b => decide (b = 0)) bin (⟨0, wide⟩ : Writer 16)
    rw [takeWhile_nonzero.2 h] at hends
    rw [hends] at hunicode
    have hwide : Written bin ⟨0, wide⟩ (encodeLoop (fun _ => false) bin ⟨0, wide⟩) := encodeLoop_written bin _ fun _ _ => rfl
    refine ⟨?_, fun i hi => ?_, ?_⟩
    · rw [hstr, hunicode, hnarrow.pos, hwide.pos]
    · have hdigits := hnarrow.hex.toNat_eq hwide.hex i hi
      rw [Nat.zero_add] at hdigits
      rw [hstr, hunicode]
      exact hdigits
    · rw [hunicode]
      exact decode_digits hne (hwide.hex.digits (f := id) fun d hd => hexChar_isDigit (by decide) hd)

theorem wideAgrees_sample : WideAgrees [0x41, 0xFF] 6 (fun _ => 0x20) (fun _ => 0x20) ↔ (0 : Byte) ∉ [0x41, 0xFF] :=
  wideAgrees_iff (List.cons_ne_nil _ _) (by decide) _ _

/-- A zero byte ends the wide text. -/
theorem zero_not_wideAgrees : ¬ WideAgrees [0x41, 0x00] 6 (fun _ => 0x20) (fun _ => 0x20) := by
  intro h
  have hlength := h.length
  revert hlength
  decide

/-! ## The places that the decoders touch -/

/-- The string has `len` characters before its terminator. -/
def Terminated (str : ℕ → BitVec w) (len : ℕ) : Prop := str len = 0 ∧ ∀ i < len, str i ≠ 0

/-- No character behind the terminator is read, and no byte behind the buffer is written. -/
def Decoder.InBounds (s : Decoder) (len : ℕ) (bin_len : ℤ) : Prop := (∀ i ∈ s.reads, i ≤ len) ∧ ∀ i ∈ s.writes, (i : ℤ) < bin_len

theorem consume_reads : (s.consume str).reads = s.reads ++ ([s.pos, s.pos, s.pos + 1] ++ if 1 < s.pos then [s.pos - 1] else []) := by
  unfold Decoder.consume Decoder.hexToBin Decoder.read
  dsimp only
  rw [List.append_assoc, List.append_assoc]
  rfl

theorem turn_cases (str : ℕ → BitVec w) (s : Decoder) :
    turn str s = (s.read [s.pos], false) ∨ turn str s = (s.consume str, false) ∨
      turn str s = ({ s.consume str with pos := s.pos + 2, idx := s.idx + 1 }, true) := by
  unfold turn
  split
  · exact Or.inl rfl
  · split
    · exact Or.inr (Or.inl rfl)
    · exact Or.inr (Or.inr rfl)

theorem turn_reads (str : ℕ → BitVec w) (s : Decoder) :
    s.pos ∈ (turn str s).1.reads ∧ ∀ i ∈ s.reads, i ∈ (turn str s).1.reads := by
  have hread : s.pos ∈ (s.read [s.pos]).reads ∧ ∀ i ∈ s.reads, i ∈ (s.read [s.pos]).reads :=
    ⟨List.mem_append_right _ List.mem_cons_self, fun i hi => List.mem_append_left _ hi⟩
  have hconsume : s.pos ∈ (s.consume str).reads ∧ ∀ i ∈ s.reads, i ∈ (s.consume str).reads := by
    rw [consume_reads]
    exact ⟨List.mem_append_right _ List.mem_cons_self, fun i hi => List.mem_append_left _ hi⟩
  rcases turn_cases str s with hturn | hturn | hturn
  · rw [hturn]
    exact hread
  · rw [hturn]
    exact hconsume
  · rw [hturn]
    exact hconsume

theorem turn_writes (str : ℕ → BitVec w) {s : Decoder} (h : ∀ i ∈ s.writes, i < s.idx) :
    (∀ i ∈ (turn str s).1.writes, i ≤ s.idx) ∧ ((turn str s).2 = true → (turn str s).1.idx = s.idx + 1) := by
  have hconsume : ∀ i ∈ (s.consume str).writes, i ≤ s.idx := fun i hi => by
    rcases List.mem_append.1 (show i ∈ s.writes ++ [s.idx] from hi) with hi | hi
    · exact (h i hi).le
    · exact (List.mem_singleton.1 hi).le
  rcases turn_cases str s with hturn | hturn | hturn
  · rw [hturn]
    exact ⟨fun i hi => (h i hi).le, fun htrue => absurd htrue Bool.false_ne_true⟩
  · rw [hturn]
    exact ⟨hconsume, fun htrue => absurd htrue Bool.false_ne_true⟩
  · rw [hturn]
    exact ⟨hconsume, fun _ => rfl⟩

theorem decodeLoop_reads (room : ℕ) (s : Decoder) :
    s.pos ∈ (decodeLoop str room s).reads ∧ ∀ i ∈ s.reads, i ∈ (decodeLoop str room s).reads := by
  induction room generalizing s with
  | zero => exact turn_reads str s
  | succ room ih =>
    have hturn := turn_reads str s
    rw [decodeLoop_succ]
    split
    · have hrest := (ih (turn str s).1).2
      exact ⟨hrest _ hturn.1, fun i hi => hrest i (hturn.2 i hi)⟩
    · exact hturn

theorem decodeLoop_writes (room : ℕ) {s : Decoder} (h : ∀ i ∈ s.writes, i < s.idx) :
    ∀ i ∈ (decodeLoop str room s).writes, i ≤ s.idx + room := by
  induction room generalizing s with
  | zero => exact (turn_writes str h).1
  | succ room ih =>
    obtain ⟨hwrites, hidx⟩ := turn_writes str h
    rw [decodeLoop_succ]
    split
    · next htrue =>
      have hnext := hidx htrue
      intro i hi
      have hle := ih (s := (turn str s).1) (fun i hi => by
        rw [hnext]
        exact Nat.lt_succ_of_le (hwrites i hi)) i hi
      omega
    · exact fun i hi => (hwrites i hi).trans (Nat.le_add_right s.idx (room + 1))

theorem consume_inString {len : ℕ} (hlt : s.pos < len) (hreads : ∀ i ∈ s.reads, i ≤ len) :
    ∀ i ∈ (s.consume str).reads, i ≤ len := by
  intro i hi
  rw [consume_reads] at hi
  rcases List.mem_append.1 hi with hi | hi
  · exact hreads i hi
  · rcases List.mem_append.1 hi with hi | hi
    · simp only [List.mem_cons, List.not_mem_nil, or_false] at hi
      omega
    · split at hi
      · rw [List.mem_singleton.1 hi]
        omega
      · exact absurd hi List.not_mem_nil

theorem decodeLoop_atEnd {len : ℕ} (h : Terminated str len) (room : ℕ) (hpos : s.pos = len) (hreads : ∀ i ∈ s.reads, i ≤ len) :
    ∀ i ∈ (decodeLoop str room s).reads, i ≤ len := by
  have hturn := turn_stop (hpos ▸ h.1 : str s.pos = 0)
  have hloop : decodeLoop str room s = s.read [s.pos] := by
    cases room with
    | zero => rw [decodeLoop_zero, hturn]
    | succ room => rw [decodeLoop_succ, hturn, if_neg Bool.false_ne_true]
  intro i hi
  rw [hloop] at hi
  rcases List.mem_append.1 hi with hi | hi
  · exact hreads i hi
  · rw [List.mem_singleton.1 hi]
    exact hpos.le

/-- From a place in the string on, nothing behind the terminator is read if and only if the string ends between two
pairs or the buffer is full first. -/
theorem decodeLoop_inString {len : ℕ} (h : Terminated str len) (room : ℕ) (s : Decoder) (hpos : s.pos = 2 * s.idx)
    (hle : s.pos ≤ len) (hreads : ∀ i ∈ s.reads, i ≤ len) :
    (∀ i ∈ (decodeLoop str room s).reads, i ≤ len) ↔ len % 2 = 0 ∨ s.idx + room + 1 ≤ (len + 1) / 2 := by
  induction room generalizing s with
  | zero =>
    rcases Nat.lt_or_eq_of_le hle with hlt | heq
    · rw [decodeLoop_zero, turn_next (h.2 s.pos hlt) fun _ => h.2 (s.pos - 1) (by omega)]
      exact ⟨fun _ => Or.inr (by omega), fun _ => consume_inString hlt hreads⟩
    · exact ⟨fun _ => Or.inl (by omega), fun _ => decodeLoop_atEnd h 0 heq hreads⟩
  | succ room ih =>
    rcases Nat.lt_or_eq_of_le hle with hlt | heq
    · let next : Decoder := { s.consume str with pos := s.pos + 2, idx := s.idx + 1 }
      have hnext : decodeLoop str (room + 1) s = decodeLoop str room next := by
        rw [decodeLoop_succ, turn_next (h.2 s.pos hlt) fun _ => h.2 (s.pos - 1) (by omega), if_pos rfl]
      rw [hnext]
      by_cases hin : s.pos + 2 ≤ len
      · have hrest := ih next (show s.pos + 2 = 2 * (s.idx + 1) by omega) hin (consume_inString hlt hreads)
        rw [hrest]
        show len % 2 = 0 ∨ s.idx + 1 + room + 1 ≤ (len + 1) / 2 ↔ _
        omega
      · -- the terminator was the second character of the pair, and the next turn begins behind it
        refine ⟨fun hall => ?_, fun hor => ?_⟩
        · have hbehind : s.pos + 2 ≤ len := hall _ (decodeLoop_reads room next).1
          omega
        · omega
    · exact ⟨fun _ => Or.inl (by omega), fun _ => decodeLoop_atEnd h (room + 1) heq hreads⟩

theorem decode_inBounds_iff {len : ℕ} (h : Terminated str len) {bin_len : ℤ} (hbin : 1 ≤ bin_len) (bin : ℕ → Byte) :
    (∀ i ∈ (decode str bin bin_len).writes, (i : ℤ) < bin_len) ∧
      ((decode str bin bin_len).InBounds len bin_len ↔ Even len ∨ bin_len ≤ (len + 1) / 2) := by
  have hwrites : ∀ i ∈ (decode str bin bin_len).writes, (i : ℤ) < bin_len := fun i hi => by
    have hle := decodeLoop_writes (s := ⟨0, 0, bin, [], []⟩) (bin_len - 1).toNat (fun _ hnil => absurd hnil List.not_mem_nil) i hi
    dsimp only at hle
    omega
  have hreads := decodeLoop_inString h (bin_len - 1).toNat ⟨0, 0, bin, [], []⟩ rfl (Nat.zero_le len) fun _ hnil =>
    absurd hnil List.not_mem_nil
  refine ⟨hwrites, (and_iff_left hwrites).trans (hreads.trans ?_)⟩
  rw [Nat.even_iff]
  dsimp only
  omega

/-- Both decoders keep to their buffers; they keep to the string if and only if its length is even or the buffer is
full at its end. -/
theorem decoders_inBounds_iff {bin_len : ℤ} (hbin : 1 ≤ bin_len) {len : ℕ} (bin : ℕ → Byte) :
    (∀ str : ℕ → BitVec 8, Terminated str len → (∀ i ∈ (strToBin str bin bin_len).writes, (i : ℤ) < bin_len) ∧
      ((strToBin str bin bin_len).InBounds len bin_len ↔ Even len ∨ bin_len ≤ (len + 1) / 2)) ∧
    ∀ str : ℕ → BitVec 16, Terminated str len → (∀ i ∈ (unicodeToBin str bin bin_len).writes, (i : ℤ) < bin_len) ∧
      ((unicodeToBin str bin bin_len).InBounds len bin_len ↔ Even len ∨ bin_len ≤ (len + 1) / 2) :=
  ⟨fun _ h => decode_inBounds_iff h hbin bin, fun _ h => decode_inBounds_iff h hbin bin⟩

/-- The string `41`, and blanks behind it. -/
def evenText (w : ℕ) : ℕ → BitVec w := fun i => if i = 0 then 0x34 else if i = 1 then 0x31 else if i = 2 then 0 else 0x20

/-- The string `4`, and blanks behind it. -/
def oddText (w : ℕ) : ℕ → BitVec w := fun i => if i = 0 then 0x34 else if i = 1 then 0 else 0x20

theorem decoders_inBounds_sample :
    ((∀ i ∈ (strToBin (evenText 8) (fun _ => 0) 4).writes, (i : ℤ) < 4) ∧
      ((strToBin (evenText 8) (fun _ => 0) 4).InBounds 2 4 ↔ Even 2 ∨ (4 : ℤ) ≤ ((2 : ℕ) + 1) / 2)) ∧
    (∀ i ∈ (unicodeToBin (evenText 16) (fun _ => 0) 4).writes, (i : ℤ) < 4) ∧
      ((unicodeToBin (evenText 16) (fun _ => 0) 4).InBounds 2 4 ↔ Even 2 ∨ (4 : ℤ) ≤ ((2 : ℕ) + 1) / 2) := by
  have hfour : (1 : ℤ) ≤ 4 := by decide
  exact ⟨(decoders_inBounds_iff hfour _).1 (evenText 8) ⟨rfl, by decide⟩, (decoders_inBounds_iff hfour _).2 (evenText 16) ⟨rfl, by decide⟩⟩

/-- The loop goes on behind the terminator of a string of one character. -/
theorem oddText_not_inBounds : ¬ (strToBin (oddText 8) (fun _ => 0) 4).InBounds 1 4 := by
  intro h
  have hread : 2 ≤ 1 := h.1 2 (by decide)
  omega

end StarLib.LicenseLib
