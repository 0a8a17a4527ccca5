import StarLib.Foundations.Loop
import StarLib.Foundations.Percent

/-! # URL encoding

`CURLEncode::URLEncode` writes an unsafe character as a percent sign and its hexadecimal form. Characters are
signed: those above 127 are negative where they are compared.
-/

namespace StarLib.URLEncode
open Foundations
set_option autoImplicit false
set_option maxHeartbeats 250000
set_option maxRecDepth 120000

def hexVals : List Byte :=
  [0x30, 0x31, 0x32, 0x33, 0x34, 0x35, 0x36, 0x37, 0x38, 0x39, 0x41, 0x42, 0x43, 0x44, 0x45, 0x46]

def csUnsafeString : List Byte := "\"<>%\\^[]`+$,@:;/!#?=&".toList.map fun c => BitVec.ofNat 8 c.toNat

/-- A turn of the loop of `decToHex`, on `num_char` and `csTmp`. -/
def hexTurn (radix : ℕ) (s : ℕ × List Byte) : ℕ × List Byte :=
  let temp := s.1 % radix
  (s.1 / radix, [hexVals.getD temp 0])

/-- `decToHex`. -/
def decToHex (num : Byte) (radix : ℕ) : List Byte :=
  let num_char := num.toInt
  let num_char := if num_char < 0 then 256 + num_char else num_char
  let s := whileFuel (fun s => radix ≤ s.1) (hexTurn radix) num_char.toNat (num_char.toNat, [])
  let csTmp := s.2 ++ [hexVals.getD s.1 0]
  let csTmp := if csTmp.length < 2 then csTmp ++ [0x30] else csTmp
  csTmp.reverse

def convert (val : Byte) : List Byte := [0x25] ++ decToHex val 16

def isUnsafe (compareChar : Byte) : Bool :=
  let bcharfound := csUnsafeString.any (· == compareChar)
  let char_ascii_value := compareChar.toInt
  !(bcharfound == false && decide (32 < char_ascii_value) && decide (char_ascii_value < 123))

/-- `CURLEncode::URLEncode`. -/
def urlEncode (pcsEncode : List Byte) : List Byte :=
  pcsEncode.foldl (fun csEncoded ch => if !isUnsafe ch then csEncoded ++ [ch] else csEncoded ++ convert ch) []

/-! ## The hexadecimal form -/

theorem hexVals_upperHex {d : ℕ} (hd : d < 16) : hexVals.getD d 0 = Percent.upperHex d := by
  have hall : ∀ d < 16, hexVals.getD d 0 = Percent.upperHex d := by decide
  exact hall d hd

theorem char_value (b : Byte) : (if b.toInt < 0 then 256 + b.toInt else b.toInt).toNat = b.toNat := by
  have hlt : b.toNat < 256 := b.isLt
  rw [BitVec.toInt_eq_toNat_cond]
  split
  · rw [if_neg (by omega)]
    omega
  · rw [if_pos (by omega)]
    omega

/-- The loop makes one turn for a character, and none for those below 16. -/
theorem hexLoop_eq {n : ℕ} (hn : n < 256) :
    whileFuel (fun s : ℕ × List Byte => decide (16 ≤ s.1)) (hexTurn 16) n (n, []) =
      if n < 16 then (n, []) else (n / 16, [hexVals.getD (n % 16) 0]) := by
  cases n with
  | zero => rfl
  | succ n =>
    split
    · next hsmall =>
      refine whileFuel_done ?_ (n + 1)
      exact decide_eq_false (Nat.not_le.2 hsmall)
    · next hlarge =>
      have hsecond : ¬ 16 ≤ (n + 1) / 16 := by omega
      refine (whileFuel_succ ?_ n).trans (whileFuel_done ?_ n)
      · exact decide_eq_true (Nat.not_lt.1 hlarge)
      · exact decide_eq_false hsecond

theorem decToHex_eq (b : Byte) : decToHex b 16 = [Percent.upperHex (b.toNat / 16), Percent.upperHex (b.toNat % 16)] := by
  have hlt : b.toNat < 256 := b.isLt
  unfold decToHex
  simp only [char_value, hexLoop_eq hlt]
  split
  · next hsmall =>
    have hdiv : b.toNat / 16 = 0 := by omega
    have hmod : b.toNat % 16 = b.toNat := by omega
    rw [hdiv, hmod, ← hexVals_upperHex hsmall]
    rfl
  · rw [← hexVals_upperHex (show b.toNat / 16 < 16 by omega), ← hexVals_upperHex (show b.toNat % 16 < 16 by omega)]
    rfl

theorem convert_eq (b : Byte) : convert b = Percent.triple b := by
  unfold convert
  rw [decToHex_eq]
  rfl

/-! ## Strings -/

theorem isUnsafe_percentSign : isUnsafe Percent.percentSign = true := by decide

theorem urlEncode_eq (s : List Byte) : urlEncode s = s.flatMap fun ch => if !isUnsafe ch then [ch] else convert ch := by
  unfold urlEncode
  rw [List.flatMap_eq_foldl]
  refine congrArg (fun f => List.foldl f [] s) ?_
  funext csEncoded ch
  split <;> rfl

theorem urlEncode_decodes (s : List Byte) :
    Percent.Encoded (fun ch => isUnsafe ch = false) (urlEncode s) ∧ Percent.decode (urlEncode s) = s := by
  have hchar : ∀ ch, (isUnsafe ch = false ∧ (if !isUnsafe ch then [ch] else convert ch) = [ch]) ∨
      (if !isUnsafe ch then [ch] else convert ch) = Percent.triple ch := by
    intro ch
    cases hunsafe : isUnsafe ch with
    | false => exact Or.inl ⟨rfl, rfl⟩
    | true => exact Or.inr (convert_eq ch)
  have hpercent : ¬ isUnsafe Percent.percentSign = false := by
    rw [isUnsafe_percentSign]
    exact Bool.noConfusion
  rw [urlEncode_eq]
  exact ⟨Percent.encoded_flatMap hchar s, Percent.decode_flatMap hchar hpercent s⟩

end StarLib.URLEncode
