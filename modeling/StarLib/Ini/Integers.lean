import Mathlib.Algebra.GroupWithZero.Nat
import StarLib.Foundations.Numerals
import StarLib.Ini.DataBlock
import StarLib.Ini.GetString

/-! # Integers of an ini file

`CIni::WriteInt` and `WriteUInt` print in one of four bases, `GetInt` and `GetUInt` read with `_tcstoul`. In the plain
branch the line that prints hexadecimal digits is a comment.
-/

namespace StarLib.Ini
open Foundations
set_option autoImplicit false
set_option maxHeartbeats 250000
set_option maxRecDepth 120000

/-- `DEF_PROFILE_NUM_LEN` -/
def numLen : ℕ := 64

/-! ## Printing -/

structure BinaryRun where
  nNumber : ℕ
  lpBuffer : Buf TCHAR
  dwIndex : ℕ

def binaryTurn (s : BinaryRun) : BinaryRun :=
  ⟨s.nNumber / 2, s.lpBuffer.put s.dwIndex (if s.nNumber % 2 ≠ 0 then 0x31 else 0x30), s.dwIndex + 1⟩

def binaryMore (dwBufSize : ℕ) (s : BinaryRun) : Bool := decide (0 < s.nNumber) && decide (s.dwIndex < dwBufSize)

def tcsrev (b : Buf TCHAR) : Buf TCHAR :=
  let s := b.readStr 0
  b.strncpy 0 s.reverse s.length

def toBinaryString (nNumber : DWORD) (lpBuffer : Buf TCHAR) (dwBufSize : ℕ) : Buf TCHAR :=
  if dwBufSize = 0 then lpBuffer
  else
    -- the body of the `do` is run once before the test
    let s := whileFuel (binaryMore dwBufSize) binaryTurn dwBufSize (binaryTurn ⟨nNumber.toNat, lpBuffer, 0⟩)
    tcsrev (s.lpBuffer.put s.dwIndex 0)

/-- `%o`, `%u` and `%X` -/
def unsignedText (base n : ℕ) : CString := (numeral base n).map hexDigit

/-- `%d` -/
def signedText (n : DWORD) : CString :=
  if n.toInt < 0 then 0x2d :: unsignedText 10 n.toInt.natAbs else unsignedText 10 n.toInt.natAbs

/-- `_stprintf`, or `_stprintf_s` with a size of 64. -/
def stprintf (build : Build) (lpBuffer : Buf TCHAR) (text : CString) : Option (Buf TCHAR) :=
  if build = .secure ∧ 64 ≤ text.length then none
  else some ((lpBuffer.strncpy 0 text text.length).put text.length 0)

def uIntToString (build : Build) (nNumber : DWORD) (lpBuffer : Buf TCHAR) (nBase : ℤ) : Option (Buf TCHAR) :=
  if nBase = 2 then some (toBinaryString nNumber lpBuffer numLen)
  else if nBase = 8 then stprintf build lpBuffer (unsignedText 8 nNumber.toNat)
  else if nBase = 16 then
    match build with
    | .secure => stprintf .secure lpBuffer (unsignedText 16 nNumber.toNat)
    | .plain => some lpBuffer
  else stprintf build lpBuffer (unsignedText 10 nNumber.toNat)

def intToString (build : Build) (nNumber : DWORD) (lpBuffer : Buf TCHAR) (nBase : ℤ) : Option (Buf TCHAR) :=
  if nBase = 2 ∨ nBase = 8 ∨ nBase = 16 then uIntToString build nNumber lpBuffer nBase
  else stprintf build lpBuffer (signedText nNumber)

def validateBase (nBase : ℤ) : ℕ := if nBase = 2 then 2 else if nBase = 8 then 8 else if nBase = 16 then 16 else 10

/-! ## Reading -/

def isSpace (c : TCHAR) : Bool := c == 0x20 || decide (0x09 ≤ c ∧ c ≤ 0x0d)

/-- The value of a digit or a letter; a character that is neither has one that no base allows. -/
def digitValue (c : TCHAR) : ℕ :=
  if 0x30 ≤ c ∧ c ≤ 0x39 then c - 0x30
  else if 0x41 ≤ c ∧ c ≤ 0x5a then c - 0x37
  else if 0x61 ≤ c ∧ c ≤ 0x7a then c - 0x57
  else 36

/-- Whether there is a minus, and what follows the sign. -/
def skipSign (s : CString) : Bool × CString :=
  if s.head? = some 0x2d then (true, s.tail) else if s.head? = some 0x2b then (false, s.tail) else (false, s)

/-- `0x` and `0X` are skipped in base 16. -/
def skipHex (base : ℕ) (s : CString) : CString :=
  if base = 16 ∧ s.head? = some 0x30 ∧ (s[1]? = some 0x78 ∨ s[1]? = some 0x58) then s.drop 2 else s

/-- `_tcstoul(s, NULL, base)`, saturating. -/
def tcstoul (s : CString) (base : ℕ) : DWORD :=
  let signed := skipSign (s.dropWhile isSpace)
  let digits := (skipHex base signed.2).takeWhile fun c => decide (digitValue c < base)
  let n := numeralValue base (digits.map digitValue)
  if 2 ^ 32 ≤ n then BitVec.allOnes 32 else if signed.1 then -BitVec.ofNat 32 n else BitVec.ofNat 32 n

/-! ## `CIni::WriteInt`, `GetInt` and `IncreaseInt` -/

def numberText (sz : Buf TCHAR) : CString := sz.readStr 0

def writeInt (build : Build) (f : Profile) (lpSection lpKey : Option CString) (nValue : DWORD) (nBase : ℤ) :
    Option (Bool × Profile) :=
  (intToString build nValue (emptyArray (numLen + 1)) nBase).map fun szValue =>
    writeString f lpSection lpKey (some (numberText szValue))

def writeUInt (build : Build) (f : Profile) (lpSection lpKey : Option CString) (nValue : DWORD) (nBase : ℤ) :
    Option (Bool × Profile) :=
  (uIntToString build nValue (emptyArray (numLen + 1)) nBase).map fun szValue =>
    writeString f lpSection lpKey (some (numberText szValue))

def getInt (build : Build) (fuel : ℕ) (f : Profile) (lpSection lpKey : Option CString) (nDefault : DWORD) (nBase : ℤ) :
    Option DWORD :=
  (getString build fuel f lpSection lpKey (some (emptyArray (numLen + 1))) numLen none).bind fun r =>
    r.2.map fun sz => if sz.cell 0 = 0 then nDefault else tcstoul (numberText sz) (validateBase nBase)

def getUInt (build : Build) (fuel : ℕ) (f : Profile) (lpSection lpKey : Option CString) (nDefault : DWORD) (nBase : ℤ) :
    Option DWORD :=
  (getString build fuel f lpSection lpKey (some (emptyArray (numLen + 1))) numLen none).bind fun r =>
    r.2.map fun sz => if sz.cell 0 = 0 then nDefault else tcstoul (numberText sz) (validateBase nBase)

def increaseInt (build : Build) (fuel : ℕ) (f : Profile) (lpSection lpKey : Option CString) (nIncrease : DWORD)
    (nBase : ℤ) : Option (Bool × Profile) :=
  (getInt build fuel f lpSection lpKey 0 nBase).bind fun nVal => writeInt build f lpSection lpKey (nVal + nIncrease) nBase

def increaseUInt (build : Build) (fuel : ℕ) (f : Profile) (lpSection lpKey : Option CString) (nIncrease : DWORD)
    (nBase : ℤ) : Option (Bool × Profile) :=
  (getUInt build fuel f lpSection lpKey 0 nBase).bind fun nVal =>
    writeUInt build f lpSection lpKey (nVal + nIncrease) nBase

inductive Increase where
  | int (nIncrease : DWORD)
  | uint (nIncrease : DWORD)

def Increase.amount : Increase → DWORD
  | int nIncrease => nIncrease
  | uint nIncrease => nIncrease

/-- A value and the increments, added up modulo `2 ^ 32`. -/
def total (v : DWORD) (steps : List Increase) : DWORD :=
  BitVec.ofNat 32 (v.toNat + (steps.map fun step => step.amount.toNat).sum)

def Increase.run (build : Build) (fuel : ℕ) (lpSection lpKey : Option CString) (nBase : ℤ) (f : Profile) :
    Increase → Option Profile
  | int nIncrease => (increaseInt build fuel f lpSection lpKey nIncrease nBase).map Prod.snd
  | uint nIncrease => (increaseUInt build fuel f lpSection lpKey nIncrease nBase).map Prod.snd

/-! ## What is read of a printed number -/

theorem hexDigit_facts {d : ℕ} (h : d < 16) :
    hexDigit d ≠ 0 ∧ isSpace (hexDigit d) = false ∧ hexDigit d ≠ 0x2d ∧ hexDigit d ≠ 0x2b ∧ hexDigit d ≠ 0x78 ∧
      hexDigit d ≠ 0x58 ∧ digitValue (hexDigit d) = d := by
  have hall : ∀ d < 16, hexDigit d ≠ 0 ∧ isSpace (hexDigit d) = false ∧ hexDigit d ≠ 0x2d ∧ hexDigit d ≠ 0x2b ∧
      hexDigit d ≠ 0x78 ∧ hexDigit d ≠ 0x58 ∧ digitValue (hexDigit d) = d := by decide
  exact hall d h

section Digits
variable {base n : ℕ} (hbase : 1 < base) (hbase' : base ≤ 16)
include hbase hbase'

theorem digit_of_text {c : TCHAR} (hc : c ∈ unsignedText base n) : ∃ d, d < base ∧ d < 16 ∧ c = hexDigit d := by
  obtain ⟨d, hd, rfl⟩ := List.mem_map.1 hc
  have hlt := numeral_lt hbase hd
  exact ⟨d, hlt, hlt.trans_le hbase', rfl⟩

theorem unsignedText_plain {c : TCHAR} (hc : c ∈ unsignedText base n) : c ≠ 0 := by
  obtain ⟨d, -, hd, rfl⟩ := digit_of_text hbase hbase' hc
  exact (hexDigit_facts hd).1

omit hbase hbase' in
theorem unsignedText_ne_nil (base n : ℕ) : unsignedText base n ≠ [] := by
  unfold unsignedText
  rw [Ne, List.map_eq_nil_iff]
  exact numeral_ne_nil base n

/-- No sign and no `0x` is skipped in front of digits. -/
theorem skipHex_unsigned : skipHex base (unsignedText base n) = unsignedText base n := by
  refine if_neg ?_
  rintro ⟨-, -, hx⟩
  rcases hx with hx | hx <;> obtain ⟨d, -, hd, heq⟩ := digit_of_text hbase hbase' (List.mem_of_getElem? hx)
  · exact (hexDigit_facts hd).2.2.2.2.1 heq.symm
  · exact (hexDigit_facts hd).2.2.2.2.2.1 heq.symm

theorem digits_unsigned :
    numeralValue base (((skipHex base (unsignedText base n)).takeWhile fun c => decide (digitValue c < base)).map
      digitValue) = n := by
  have hall : (unsignedText base n).takeWhile (fun c => decide (digitValue c < base)) = unsignedText base n := by
    refine List.takeWhile_eq_self_iff.2 fun c hc => decide_eq_true ?_
    obtain ⟨d, hlt, hd, rfl⟩ := digit_of_text hbase hbase' hc
    rw [(hexDigit_facts hd).2.2.2.2.2.2]
    exact hlt
  have hvalues : (unsignedText base n).map digitValue = numeral base n := by
    unfold unsignedText
    rw [List.map_map]
    refine (List.map_congr_left fun d hd => ?_).trans (List.map_id (numeral base n))
    exact (hexDigit_facts ((numeral_lt hbase hd).trans_le hbase')).2.2.2.2.2.2
  rw [skipHex_unsigned hbase hbase', hall, hvalues, numeralValue_numeral]

theorem unsigned_head {c : TCHAR} (hc : (unsignedText base n).head? = some c) :
    isSpace c = false ∧ c ≠ 0x2d ∧ c ≠ 0x2b := by
  obtain ⟨d, -, hd, rfl⟩ := digit_of_text hbase hbase' (List.mem_of_mem_head? hc)
  have hfacts := hexDigit_facts hd
  exact ⟨hfacts.2.1, hfacts.2.2.1, hfacts.2.2.2.1⟩

theorem tcstoul_unsigned (hn : n < 2 ^ 32) : tcstoul (unsignedText base n) base = BitVec.ofNat 32 n := by
  have hskip : (unsignedText base n).dropWhile isSpace = unsignedText base n := by
    obtain ⟨c, rest, htext⟩ := List.exists_cons_of_ne_nil (unsignedText_ne_nil base n)
    have hspace := (unsigned_head hbase hbase' (n := n) (c := c) (by rw [htext]; rfl)).1
    rw [htext, List.dropWhile_cons, if_neg (by rw [hspace]; exact Bool.false_ne_true)]
  have hsign : skipSign (unsignedText base n) = (false, unsignedText base n) := by
    unfold skipSign
    rw [if_neg fun h => (unsigned_head hbase hbase' h).2.1 rfl, if_neg fun h => (unsigned_head hbase hbase' h).2.2 rfl]
  unfold tcstoul
  rw [hskip, hsign]
  simp only
  rw [digits_unsigned hbase hbase', if_neg (by omega), if_neg Bool.false_ne_true]

theorem tcstoul_minus (hn : n < 2 ^ 32) : tcstoul (0x2d :: unsignedText base n) base = -BitVec.ofNat 32 n := by
  have hskip : (0x2d :: unsignedText base n).dropWhile isSpace = 0x2d :: unsignedText base n := rfl
  have hsign : skipSign (0x2d :: unsignedText base n) = (true, unsignedText base n) := rfl
  unfold tcstoul
  rw [hskip, hsign]
  simp only
  rw [digits_unsigned hbase hbase', if_neg (by omega), if_pos trivial]

end Digits

/-- The text of a number: it fits the array, and it is read back. -/
structure NumberText (base : ℕ) (v : DWORD) (text : CString) : Prop where
  fits : text.length < numLen
  plain : ∀ c ∈ text, c ≠ 0
  ne_nil : text ≠ []
  value : tcstoul text base = v

theorem unsignedText_length {base n : ℕ} (hbase : 1 < base) (hn : n < 2 ^ 32) : (unsignedText base n).length ≤ 32 := by
  unfold unsignedText
  rw [List.length_map]
  exact numeral_length_le hbase (by decide) (hn.trans_le (Nat.pow_le_pow_left hbase 32))

theorem unsignedText_number {base : ℕ} (hbase : 1 < base) (hbase' : base ≤ 16) (v : DWORD) :
    NumberText base v (unsignedText base v.toNat) := by
  refine ⟨?_, fun c hc => unsignedText_plain hbase hbase' hc, unsignedText_ne_nil base _, ?_⟩
  · exact (unsignedText_length hbase v.isLt).trans_lt (by decide)
  · rw [tcstoul_unsigned hbase hbase' v.isLt, BitVec.ofNat_toNat]
    exact BitVec.setWidth_eq v

theorem signedText_number (v : DWORD) : NumberText 10 v (signedText v) := by
  have hint := BitVec.toInt_eq_toNat_cond v
  have hlt := v.isLt
  unfold signedText
  by_cases hneg : v.toInt < 0
  · rw [if_pos hneg]
    have hnat : v.toInt.natAbs = 2 ^ 32 - v.toNat := by
      split at hint <;> omega
    have hpos : v.toNat ≠ 0 := by
      intro hzero
      rw [hzero] at hint
      split at hint <;> omega
    have hsize : v.toInt.natAbs < 2 ^ 32 := by omega
    refine ⟨?_, ?_, List.cons_ne_nil _ _, ?_⟩
    · rw [List.length_cons]
      exact (Nat.succ_le_succ (unsignedText_length (by decide) hsize)).trans_lt (by decide)
    · rw [List.forall_mem_cons]
      exact ⟨by decide, fun c hc => unsignedText_plain (by decide) (by decide) hc⟩
    · rw [tcstoul_minus (by decide) (by decide) hsize, hnat]
      apply BitVec.eq_of_toNat_eq
      rw [BitVec.toNat_neg, BitVec.toNat_ofNat]
      omega
  · have hnat : v.toInt.natAbs = v.toNat := by
      split at hint <;> omega
    rw [if_neg hneg, hnat]
    exact unsignedText_number (by decide) (by decide) v

/-! ## What is printed -/

section Printing
variable {b : Buf TCHAR} {cap : ℕ}

theorem stprintf_holds (build : Build) (hb : b.Holds cap []) {text : CString} (h : text.length < numLen) :
    ∃ b', stprintf build b text = some b' ∧ b'.Holds cap (text ++ [0]) := by
  have hlen : text.length < 64 := h
  exact ⟨_, if_neg fun hlong => by omega, (hb.strncpy text).put 0⟩

theorem bit_char (m : ℕ) : (if m % 2 ≠ 0 then 0x31 else 0x30) = hexDigit (m % 2) := by
  rcases Nat.mod_two_eq_zero_or_one m with h | h <;> rw [h] <;> rfl

theorem binaryTurn_eq (m : ℕ) (b : Buf TCHAR) (out : CString) :
    binaryTurn ⟨m, b, out.length⟩ =
      ⟨m / 2, b.put out.length (hexDigit (m % 2)), (out ++ [hexDigit (m % 2)]).length⟩ := by
  unfold binaryTurn
  rw [bit_char, List.length_append, List.length_singleton]

/-- The digits come out with the least significant one first. -/
theorem binary_loop (dwBufSize m fuel : ℕ) {out : CString} (hb : b.Holds cap out) (hfuel : (Nat.digits 2 m).length ≤ fuel)
    (hsize : out.length + (Nat.digits 2 m).length ≤ dwBufSize) :
    let s := whileFuel (binaryMore dwBufSize) binaryTurn fuel ⟨m, b, out.length⟩
    s.lpBuffer.Holds cap (out ++ (Nat.digits 2 m).map hexDigit) ∧
      s.dwIndex = (out ++ (Nat.digits 2 m).map hexDigit).length := by
  induction fuel generalizing m b out with
  | zero =>
    have hnil := List.length_eq_zero_iff.1 (Nat.le_zero.1 hfuel)
    rw [hnil, List.map_nil, List.append_nil]
    exact ⟨hb, rfl⟩
  | succ fuel ih =>
    by_cases hm : m = 0
    · have hdone : binaryMore dwBufSize ⟨m, b, out.length⟩ = false := by
        unfold binaryMore
        rw [decide_eq_false (by rw [hm]; exact Nat.lt_irrefl 0), Bool.false_and]
      rw [whileFuel_done hdone, hm, Nat.digits_zero, List.map_nil, List.append_nil]
      exact ⟨hb, rfl⟩
    · have hpos := Nat.pos_of_ne_zero hm
      rw [Nat.digits_def' (by decide) hpos, List.length_cons] at hfuel hsize
      have hmore : binaryMore dwBufSize ⟨m, b, out.length⟩ = true := by
        unfold binaryMore
        rw [decide_eq_true hpos, decide_eq_true (show out.length < dwBufSize by omega)]
        rfl
      have hnext := hb.put (hexDigit (m % 2))
      rw [whileFuel_succ hmore, binaryTurn_eq, Nat.digits_def' (by decide) hpos, List.map_cons]
      have hrest := ih (m / 2) hnext (by omega) (by rw [List.length_append, List.length_singleton]; omega)
      rw [List.append_assoc, List.singleton_append] at hrest
      exact hrest

/-- A string that is written over one of its length. -/
theorem overwrite_holds {l l' r : CString} (hb : b.Holds cap (l ++ r)) (hlength : l'.length = l.length) :
    (b.strncpy 0 l' l.length).Holds cap (l' ++ r) := by
  obtain ⟨hlen, hin, hcell⟩ := Buf.put_loop (fun i => l'.getD i 0) l.length b
  unfold Buf.strncpy
  simp only [Nat.zero_add]
  refine ⟨hlen.trans hb.len, fun i hi => ?_, ?_⟩
  · rw [hcell]
    by_cases hlt : i < l.length
    · rw [if_pos hlt, List.getElem?_append_left (by omega), List.getD_eq_getElem?_getD,
        List.getElem?_eq_getElem (by omega)]
      rfl
    · have hother := hb.cells i (by rw [List.length_append] at hi ⊢; omega)
      rw [List.getElem?_append_right (Nat.not_lt.1 hlt)] at hother
      rw [if_neg hlt, List.getElem?_append_right (by omega), hlength, hother]
  · rw [hin, hb.inside, hb.len, List.length_append, List.length_append, hlength, ← Bool.decide_and]
    exact decide_eq_decide.2 (by omega)

theorem tcsrev_holds {l : CString} (hb : b.Holds cap (l ++ [0])) (hin : l.length < cap) (hplain : ∀ c ∈ l, c ≠ 0) :
    (tcsrev b).Holds cap (l.reverse ++ [0]) := by
  unfold tcsrev
  simp only
  rw [hb.readStr hin hplain 0]
  exact overwrite_holds hb List.length_reverse

theorem binary_digits (m : ℕ) :
    (unsignedText 2 m).reverse = hexDigit (m % 2) :: (Nat.digits 2 (m / 2)).map hexDigit := by
  unfold unsignedText
  rw [← List.map_reverse, numeral_reverse (by decide)]
  rfl

theorem toBinaryString_holds (v : DWORD) (hb : b.Holds (numLen + 1) []) :
    (toBinaryString v b numLen).Holds (numLen + 1) (unsignedText 2 v.toNat ++ [0]) := by
  have hnum : numLen = 64 := rfl
  have hlength : (unsignedText 2 v.toNat).reverse.length ≤ 32 := by
    rw [List.length_reverse]
    exact unsignedText_length (by decide) v.isLt
  have hplain : ∀ c ∈ (unsignedText 2 v.toNat).reverse, c ≠ 0 :=
    fun c hc => unsignedText_plain (by decide) (by decide) (List.mem_reverse.1 hc)
  have hdigits : (Nat.digits 2 (v.toNat / 2)).length + 1 ≤ 32 := by
    rw [binary_digits, List.length_cons, List.length_map] at hlength
    exact hlength
  obtain ⟨hholds, hindex⟩ := binary_loop numLen (v.toNat / 2) numLen (hb.put (hexDigit (v.toNat % 2))) (by omega)
    (by rw [List.length_append, List.length_nil, List.length_singleton]; omega)
  rw [← binaryTurn_eq, List.append_assoc, List.nil_append, List.singleton_append, ← binary_digits] at hholds hindex
  have hend := hholds.put 0
  rw [← hindex] at hend
  have hrev := tcsrev_holds hend (by omega) hplain
  rw [List.reverse_reverse] at hrev
  unfold toBinaryString
  rw [if_neg (by decide)]
  exact hrev

end Printing

/-- The number stands in the array as text. -/
def Printed (nBase : ℤ) (v : DWORD) (r : Option (Buf TCHAR)) : Prop :=
  ∃ text b, r = some b ∧ b.Holds (numLen + 1) (text ++ [0]) ∧ NumberText (validateBase nBase) v text

theorem emptyArray_holds (n : ℕ) : (emptyArray n).Holds n [] := newBuffer_holds n []

theorem printed_text (build : Build) {nBase : ℤ} {v : DWORD} {text : CString}
    (h : NumberText (validateBase nBase) v text) :
    Printed nBase v (stprintf build (emptyArray (numLen + 1)) text) := by
  obtain ⟨b, hb, hholds⟩ := stprintf_holds build (emptyArray_holds (numLen + 1)) h.fits
  exact ⟨text, b, hb, hholds, h⟩

section Bases
variable {build : Build} {nBase : ℤ}

theorem uIntToString_printed (h : ¬ (build = .plain ∧ nBase = 16)) (v : DWORD) :
    Printed nBase v (uIntToString build v (emptyArray (numLen + 1)) nBase) := by
  unfold uIntToString
  by_cases h2 : nBase = 2
  · rw [if_pos h2, h2]
    exact ⟨_, _, rfl, toBinaryString_holds v (emptyArray_holds _), unsignedText_number (by decide) (by decide) v⟩
  · rw [if_neg h2]
    by_cases h8 : nBase = 8
    · rw [if_pos h8, h8]
      exact printed_text build (unsignedText_number (by decide) (by decide) v)
    · rw [if_neg h8]
      by_cases h16 : nBase = 16
      · rw [if_pos h16, h16]
        cases build with
        | secure => exact printed_text .secure (unsignedText_number (by decide) (by decide) v)
        | plain => exact absurd ⟨rfl, h16⟩ h
      · have hbase : validateBase nBase = 10 := by
          unfold validateBase
          rw [if_neg h2, if_neg h8, if_neg h16]
        rw [if_neg h16]
        refine printed_text build ?_
        rw [hbase]
        exact unsignedText_number (by decide) (by decide) v

theorem intToString_printed (h : ¬ (build = .plain ∧ nBase = 16)) (v : DWORD) :
    Printed nBase v (intToString build v (emptyArray (numLen + 1)) nBase) := by
  unfold intToString
  by_cases hbase : nBase = 2 ∨ nBase = 8 ∨ nBase = 16
  · rw [if_pos hbase]
    exact uIntToString_printed h v
  · rw [not_or, not_or] at hbase
    have hten : validateBase nBase = 10 := by
      unfold validateBase
      rw [if_neg hbase.1, if_neg hbase.2.1, if_neg hbase.2.2]
    rw [if_neg (by rw [not_or, not_or]; exact hbase)]
    refine printed_text build ?_
    rw [hten]
    exact signedText_number v

theorem Printed.string {v : DWORD} {r : Option (Buf TCHAR)} (h : Printed nBase v r) :
    ∃ text b, r = some b ∧ b.inside = true ∧ numberText b = text ∧ NumberText (validateBase nBase) v text := by
  obtain ⟨text, b, hr, hholds, hnumber⟩ := h
  have hfits := hnumber.fits
  refine ⟨text, b, hr, ?_, hholds.readStr (by omega) hnumber.plain 0, hnumber⟩
  rw [hholds.inside, List.length_append, List.length_singleton]
  exact decide_eq_true (by omega)

end Bases

/-! ## Written and read again -/

section Values
variable {build : Build} {nBase : ℤ} {f : Profile} {sec key : CString} {v : DWORD}

/-- A short text is read as a number; for the empty text there is the default. -/
theorem getInt_stored {text : CString} (htext : f sec key = some text) (hfits : text.length < numLen)
    (hplain : ∀ c ∈ text, c ≠ 0) (nDefault : DWORD) :
    EndsWith (fun fuel => getInt build fuel f (some sec) (some key) nDefault nBase)
      (if text = [] then nDefault else tcstoul text (validateBase nBase)) := by
  have hnum : numLen = 64 := rfl
  have hthreshold : threshold = 512 := rfl
  have hread : Readable text := by
    unfold Readable
    omega
  have hstored := stored_text htext
  obtain ⟨turns, hturns⟩ : ∃ turns, ∀ fuel, turns ≤ fuel →
      getString build fuel f (some sec) (some key) (some (emptyArray (numLen + 1))) numLen none = _ :=
    getString_readable hstored hread
  have hroom : numLen ≤ ((emptyArray (numLen + 1)).put 0 0).len := Nat.le_succ numLen
  obtain ⟨sz, hsz, hlen, hin, hbegins⟩ := boundedCopy_short build hroom rfl hfits
  have hstring : numberText sz = text := (hbegins.holds hin).readStr (begins_terminated_iff.1 hbegins).1 hplain 0
  have hfirst : sz.cell 0 = 0 ↔ text = [] := by
    have hcell := hbegins.2 0 (by rw [List.length_append]; exact Nat.succ_pos _)
    cases text with
    | nil => exact iff_of_true (Option.some.inj hcell).symm rfl
    | cons c rest =>
      refine iff_of_false ?_ (List.cons_ne_nil c rest)
      rw [← Option.some.inj hcell]
      exact hplain c List.mem_cons_self
  refine ⟨turns, fun fuel hfuel => ?_⟩
  show getInt build fuel f (some sec) (some key) nDefault nBase = _
  unfold getInt
  rw [hturns fuel hfuel, hsz]
  simp only [Option.map_some, Option.bind_some, hfirst, hstring]

theorem getInt_text {text : CString} (htext : f sec key = some text) (h : NumberText (validateBase nBase) v text)
    (nDefault : DWORD) : EndsWith (fun fuel => getInt build fuel f (some sec) (some key) nDefault nBase) v := by
  obtain ⟨turns, hturns⟩ := getInt_stored htext h.fits h.plain nDefault
  refine ⟨turns, fun fuel hfuel => ?_⟩
  rw [hturns fuel hfuel, if_neg h.ne_nil, h.value]

theorem getUInt_eq (fuel : ℕ) (nDefault : DWORD) :
    getUInt build fuel f (some sec) (some key) nDefault nBase =
      getInt build fuel f (some sec) (some key) nDefault nBase := rfl

theorem Printed.written {r : Option (Buf TCHAR)} (h : Printed nBase v r) (f : Profile) (sec key : CString) :
    ∃ f' text, (r.map fun szValue => writeString f (some sec) (some key) (some (numberText szValue))) = some (true, f') ∧
      f' sec key = some text ∧ NumberText (validateBase nBase) v text := by
  obtain ⟨text, b, hb, -, hstring, hnumber⟩ := h.string
  rw [hb, Option.map_some, hstring]
  exact ⟨_, text, rfl, writeString_here _ _ _ _, hnumber⟩

theorem writeInt_printed (h : ¬ (build = .plain ∧ nBase = 16)) (f : Profile) (sec key : CString) (v : DWORD) :
    ∃ f' text, writeInt build f (some sec) (some key) v nBase = some (true, f') ∧ f' sec key = some text ∧
      NumberText (validateBase nBase) v text := (intToString_printed h v).written f sec key

theorem writeUInt_printed (h : ¬ (build = .plain ∧ nBase = 16)) (f : Profile) (sec key : CString) (v : DWORD) :
    ∃ f' text, writeUInt build f (some sec) (some key) v nBase = some (true, f') ∧ f' sec key = some text ∧
      NumberText (validateBase nBase) v text := (uIntToString_printed h v).written f sec key

theorem total_nil (v : DWORD) : total v [] = v := by
  unfold total
  rw [List.map_nil, List.sum_nil, Nat.add_zero, BitVec.ofNat_toNat]
  exact BitVec.setWidth_eq v

theorem total_cons (v : DWORD) (step : Increase) (steps : List Increase) :
    total v (step :: steps) = total (v + step.amount) steps := by
  apply BitVec.eq_of_toNat_eq
  unfold total
  rw [List.map_cons, List.sum_cons, BitVec.toNat_ofNat, BitVec.toNat_ofNat, BitVec.toNat_add, Nat.mod_add_mod,
    Nat.add_assoc]

/-- An increment adds to the value that was read. -/
theorem Increase.step (h : ¬ (build = .plain ∧ nBase = 16))
    (hv : EndsWith (fun fuel => getInt build fuel f (some sec) (some key) 0 nBase) v) (step : Increase) :
    ∃ f', EndsWith (fun fuel => step.run build fuel (some sec) (some key) nBase f) f' ∧
      EndsWith (fun fuel => getInt build fuel f' (some sec) (some key) 0 nBase) (v + step.amount) := by
  obtain ⟨turns, hturns⟩ := hv
  simp only at hturns
  cases step with
  | int nIncrease =>
    obtain ⟨f', text, hwrite, htext, hnumber⟩ := writeInt_printed h f sec key (v + nIncrease)
    refine ⟨f', ⟨turns, fun fuel hfuel => ?_⟩, getInt_text htext hnumber 0⟩
    show (increaseInt build fuel f (some sec) (some key) nIncrease nBase).map Prod.snd = some f'
    unfold increaseInt
    rw [hturns fuel hfuel, Option.bind_some, hwrite, Option.map_some]
  | uint nIncrease =>
    obtain ⟨f', text, hwrite, htext, hnumber⟩ := writeUInt_printed h f sec key (v + nIncrease)
    refine ⟨f', ⟨turns, fun fuel hfuel => ?_⟩, getInt_text htext hnumber 0⟩
    show (increaseUInt build fuel f (some sec) (some key) nIncrease nBase).map Prod.snd = some f'
    unfold increaseUInt
    rw [getUInt_eq, hturns fuel hfuel, Option.bind_some, hwrite, Option.map_some]

theorem Increase.steps (h : ¬ (build = .plain ∧ nBase = 16)) (steps : List Increase)
    (hv : EndsWith (fun fuel => getInt build fuel f (some sec) (some key) 0 nBase) v) :
    ∃ f', EndsWith (fun fuel => steps.foldlM (Increase.run build fuel (some sec) (some key) nBase) f) f' ∧
      EndsWith (fun fuel => getInt build fuel f' (some sec) (some key) 0 nBase) (total v steps) := by
  induction steps generalizing f v with
  | nil =>
    rw [total_nil]
    exact ⟨f, ⟨0, fun _ _ => rfl⟩, hv⟩
  | cons step steps ih =>
    obtain ⟨f₁, ⟨turns₁, hturns₁⟩, hv₁⟩ := Increase.step h hv step
    obtain ⟨f₂, ⟨turns₂, hturns₂⟩, hv₂⟩ := ih hv₁
    rw [total_cons]
    refine ⟨f₂, ⟨max turns₁ turns₂, fun fuel hfuel => ?_⟩, hv₂⟩
    have hfirst := hturns₁ fuel ((Nat.le_max_left _ _).trans hfuel)
    have hrest := hturns₂ fuel ((Nat.le_max_right _ _).trans hfuel)
    simp only at hfirst hrest ⊢
    rw [List.foldlM_cons, hfirst]
    exact hrest

end Values

/-- The buffer has room for every number, what is written is read back, and increments add up. -/
structure NumbersKept (build : Build) (nBase : ℤ) : Prop where
  inside : ∀ v, (∃ b, intToString build v (emptyArray (numLen + 1)) nBase = some b ∧ b.inside = true) ∧
    ∃ b, uIntToString build v (emptyArray (numLen + 1)) nBase = some b ∧ b.inside = true
  int : ∀ f sec key v nDefault, ∃ f', writeInt build f (some sec) (some key) v nBase = some (true, f') ∧
    EndsWith (fun fuel => getInt build fuel f' (some sec) (some key) nDefault nBase) v
  uint : ∀ f sec key v nDefault, ∃ f', writeUInt build f (some sec) (some key) v nBase = some (true, f') ∧
    EndsWith (fun fuel => getUInt build fuel f' (some sec) (some key) nDefault nBase) v
  increases : ∀ f sec key v (steps : List Increase),
    EndsWith (fun fuel => getInt build fuel f (some sec) (some key) 0 nBase) v →
      ∃ f', EndsWith (fun fuel => steps.foldlM (Increase.run build fuel (some sec) (some key) nBase) f) f' ∧
        EndsWith (fun fuel => getInt build fuel f' (some sec) (some key) 0 nBase) (total v steps)

/-- In the plain build nothing is written of a number in base 16, and the default is read. -/
theorem hexadecimal_default {f f' : Profile} {sec key : CString} {v : DWORD}
    (h : writeInt .plain f (some sec) (some key) v 16 = some (true, f')) (nDefault : DWORD) :
    EndsWith (fun fuel => getInt .plain fuel f' (some sec) (some key) nDefault 16) nDefault := by
  have hempty : numberText (emptyArray (numLen + 1)) = [] := by decide
  have hwrite : writeInt .plain f (some sec) (some key) v 16 = some (writeString f (some sec) (some key) (some [])) := by
    rw [← hempty]
    rfl
  rw [hwrite, Option.some.injEq] at h
  have htext : f' sec key = some [] := by
    have hf : (writeString f (some sec) (some key) (some [])).2 = f' := congrArg Prod.snd h
    rw [← hf]
    exact writeString_here f sec key []
  exact getInt_stored htext (by decide) nofun nDefault

/-- Integers are kept in both builds and every base, but for hexadecimal digits in the plain build. -/
theorem numbers_iff (build : Build) (nBase : ℤ) : NumbersKept build nBase ↔ ¬ (build = .plain ∧ nBase = 16) := by
  constructor
  · rintro hkept ⟨rfl, rfl⟩
    obtain ⟨f', hwrite, hread⟩ := hkept.int (fun _ _ => none) [0x73] [0x6b] 1 0
    exact absurd ((hexadecimal_default hwrite 0).unique hread) (by decide)
  · intro h
    refine ⟨fun v => ⟨?_, ?_⟩, fun f sec key v nDefault => ?_, fun f sec key v nDefault => ?_, ?_⟩
    · obtain ⟨-, b, hb, hin, -⟩ := (intToString_printed h v).string
      exact ⟨b, hb, hin⟩
    · obtain ⟨-, b, hb, hin, -⟩ := (uIntToString_printed h v).string
      exact ⟨b, hb, hin⟩
    · obtain ⟨f', text, hwrite, htext, hnumber⟩ := writeInt_printed h f sec key v
      exact ⟨f', hwrite, getInt_text htext hnumber nDefault⟩
    · obtain ⟨f', text, hwrite, htext, hnumber⟩ := writeUInt_printed h f sec key v
      exact ⟨f', hwrite, getInt_text htext hnumber nDefault⟩
    · exact fun f sec key v steps hv => Increase.steps h steps hv

/-- The number 1 in base 16, in the plain build, read with 0 for the default. -/
theorem hexadecimal_lost :
    ¬ ∃ f', writeInt .plain (fun _ _ => none) (some [0x73]) (some [0x6b]) 1 16 = some (true, f') ∧
      EndsWith (fun fuel => getInt .plain fuel f' (some [0x73]) (some [0x6b]) 0 16) 1 := by
  rintro ⟨f', hwrite, hread⟩
  exact absurd ((hexadecimal_default hwrite 0).unique hread) (by decide)

end StarLib.Ini
