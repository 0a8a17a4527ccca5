import Mathlib.Data.List.DropRight
import StarLib.Foundations.Numerals

/-! # The lines of an exported key

How `CRegKey::ExportValueToIni` formats a value, and how `ImportSectionFromIni` takes the line apart again: trimming,
the first equals sign, and the type of a value from its text.
-/

namespace StarLib.Regkey.IniFile
open Foundations
set_option autoImplicit false
set_option maxHeartbeats 250000
set_option maxRecDepth 120000

/-- A code unit of either character set. -/
abbrev TCHAR := ℕ

abbrev CString := List TCHAR

abbrev DWORD := BitVec 32

inductive Value where
  | dword (v : DWORD)
  | sz (s : CString)
  deriving DecidableEq

/-! ## Trimming -/

def isSpace (c : TCHAR) : Bool := c == 0x20 || decide (0x09 ≤ c ∧ c ≤ 0x0d)

/-- `TrimLeft` and `TrimRight`. -/
def trim (s : CString) : CString := (s.dropWhile isSpace).rdropWhile isSpace

/-- Not empty, and no space at either end. -/
structure Solid (s : CString) : Prop where
  nonempty : s ≠ []
  first : ∀ c ∈ s.head?, isSpace c = false
  last : ∀ c ∈ s.getLast?, isSpace c = false

theorem Solid.dropWhile {s : CString} (hs : Solid s) (rest : CString) :
    (s ++ rest).dropWhile isSpace = s ++ rest := by
  cases s with
  | nil => exact absurd rfl hs.nonempty
  | cons c s => rw [List.cons_append, List.dropWhile_cons, hs.first c rfl, if_neg Bool.false_ne_true]

theorem Solid.rdropWhile {s rest : CString} (hs : Solid s) (hrest : ∀ c ∈ rest, isSpace c = true) :
    (s ++ rest).rdropWhile isSpace = s := by
  have hreverse : (s.reverse).dropWhile isSpace = s.reverse := by
    cases hr : s.reverse with
    | nil => rfl
    | cons c t =>
      have hlast : s.getLast? = some c := by
        rw [← List.head?_reverse, hr]
        rfl
      rw [List.dropWhile_cons, hs.last c hlast, if_neg Bool.false_ne_true]
  unfold List.rdropWhile
  rw [List.reverse_append, List.dropWhile_append_of_pos fun c hc => hrest c (List.mem_reverse.1 hc), hreverse,
    List.reverse_reverse]

theorem Solid.trim_self {s : CString} (hs : Solid s) : trim s = s := by
  have hdrop := hs.dropWhile []
  have hrdrop : (s ++ []).rdropWhile isSpace = s := hs.rdropWhile fun c hc => absurd hc List.not_mem_nil
  rw [List.append_nil] at hdrop hrdrop
  unfold trim
  rw [hdrop, hrdrop]

theorem Solid.trim_right {s : CString} (hs : Solid s) : trim (s ++ [0x20]) = s := by
  unfold trim
  rw [hs.dropWhile]
  exact hs.rdropWhile (by decide)

theorem Solid.trim_left {s : CString} (hs : Solid s) : trim (0x20 :: s) = s := by
  have hdrop : (0x20 :: s).dropWhile isSpace = s.dropWhile isSpace := rfl
  have hself := hs.trim_self
  unfold trim at hself ⊢
  rw [hdrop, hself]

/-- What begins and ends with strings without spaces at their outer ends. -/
theorem Solid.append {s t : CString} (hs : Solid s) (ht : Solid t) (m : CString) : Solid (s ++ m ++ t) := by
  refine ⟨?_, ?_, ?_⟩
  · simp [hs.nonempty]
  · intro c hc
    rw [List.append_assoc, List.head?_append_of_ne_nil _ hs.nonempty] at hc
    exact hs.first c hc
  · intro c hc
    rw [List.getLast?_append_of_ne_nil _ ht.nonempty] at hc
    exact ht.last c hc

/-! ## Numbers -/

/-- `%d` -/
def intText (v : DWORD) : CString :=
  let digits := (numeral 10 v.toInt.natAbs).map (0x30 + ·)
  if v.toInt < 0 then 0x2d :: digits else digits

/-- `_ttoi`, of digits after an optional minus sign. -/
def ttoi : CString → DWORD
  | 0x2d :: s => BitVec.ofInt 32 (-(numeralValue 10 (s.map (· - 0x30)) : ℤ))
  | s => BitVec.ofInt 32 (numeralValue 10 (s.map (· - 0x30)))

def isDigit (c : TCHAR) : Bool := decide (0x30 ≤ c ∧ c ≤ 0x39)

/-- The loop over the characters of a value: `bString`. -/
def isStringFrom : ℕ → CString → Bool
  | _, [] => false
  | nChar, c :: s => (if c = 0x2d then decide (0 < nChar) else !isDigit c) || isStringFrom (nChar + 1) s

def isString (sValue : CString) : Bool := sValue.isEmpty || isStringFrom 0 sValue

theorem digits_chars {n : ℕ} : ∀ c ∈ (numeral 10 n).map (0x30 + ·), isDigit c = true := by
  intro c hc
  obtain ⟨d, hd, rfl⟩ := List.mem_map.1 hc
  have hlt := numeral_lt (by decide) hd
  have hrange : 0x30 ≤ 0x30 + d ∧ 0x30 + d ≤ 0x39 := by omega
  exact decide_eq_true hrange

theorem isStringFrom_digits {s : CString} (hs : ∀ c ∈ s, isDigit c = true) (nChar : ℕ) : isStringFrom nChar s = false := by
  induction s generalizing nChar with
  | nil => rfl
  | cons c s ih =>
    have hc := hs c List.mem_cons_self
    have hminus : c ≠ 0x2d := by
      rintro rfl
      exact absurd hc (by decide)
    unfold isStringFrom
    rw [if_neg hminus, hc, ih fun c' hc' => hs c' (List.mem_cons_of_mem c hc')]
    rfl

theorem intText_number (v : DWORD) : isString (intText v) = false := by
  unfold isString intText
  simp only
  have hdigits : ∀ n, (numeral 10 n).map (0x30 + ·) ≠ [] := fun n h => numeral_ne_nil 10 n (List.map_eq_nil_iff.1 h)
  split
  · exact isStringFrom_digits digits_chars 1
  · rw [isStringFrom_digits digits_chars, Bool.or_false, List.isEmpty_eq_false_iff]
    exact hdigits _

theorem digits_value (n : ℕ) : numeralValue 10 (((numeral 10 n).map (0x30 + ·)).map (· - 0x30)) = n := by
  have hsame : ((numeral 10 n).map (0x30 + ·)).map (· - 0x30) = numeral 10 n := by
    rw [List.map_map]
    refine (List.map_congr_left fun d _ => ?_).trans (List.map_id _)
    exact Nat.add_sub_cancel_left 0x30 d
  rw [hsame, numeralValue_numeral]

theorem ttoi_intText (v : DWORD) : ttoi (intText v) = v := by
  unfold intText
  simp only
  split
  · next hneg =>
    show BitVec.ofInt 32 (-(numeralValue 10 _ : ℤ)) = v
    rw [digits_value]
    have habs : (-(v.toInt.natAbs : ℤ)) = v.toInt := by omega
    rw [habs, BitVec.ofInt_toInt]
  · next hpos =>
    have habs : ((v.toInt.natAbs : ℕ) : ℤ) = v.toInt := by omega
    have hplain : ∀ s : CString, (∀ c ∈ s, isDigit c = true) →
        ttoi s = BitVec.ofInt 32 (numeralValue 10 (s.map (· - 0x30))) := by
      intro s hs
      unfold ttoi
      split
      · next t =>
        exact absurd (hs 0x2d List.mem_cons_self) (by decide)
      · rfl
    rw [hplain _ digits_chars, digits_value, habs, BitVec.ofInt_toInt]

theorem quoted_string (s : CString) : isString (0x22 :: s) = true := rfl

theorem digits_solid {s : CString} (hne : s ≠ []) (hs : ∀ c ∈ s, isDigit c = true) : Solid s := by
  have hspace : ∀ c : ℕ, isDigit c = true → isSpace c = false := by
    intro c hc
    have hc' : (0x30 : ℕ) ≤ c ∧ c ≤ 0x39 := of_decide_eq_true hc
    have hother : (c == 0x20) = false := beq_eq_false_iff_ne.2 (by omega)
    unfold isSpace
    have hrange : ¬ ((0x09 : ℕ) ≤ c ∧ c ≤ 0x0d) := by omega
    rw [hother, Bool.false_or]
    exact decide_eq_false hrange
  exact ⟨hne, fun c hc => hspace c (hs c (List.mem_of_mem_head? hc)),
    fun c hc => hspace c (hs c (List.mem_of_mem_getLast? hc))⟩

/-! ## Values -/

/-- The text after the equals sign. -/
def valueText : Value → CString
  | .dword v => intText v
  | .sz s => 0x22 :: s ++ [0x22]

/-- A line of a section, without its line feed. -/
def valueLine (v : CString × Value) : CString := v.1 ++ [0x20, 0x3d, 0x20] ++ valueText v.2

/-- Leading and trailing quotes are removed. -/
def unquote (sValue : CString) : CString :=
  if sValue.head? = some 0x22 ∧ sValue.getLast? = some 0x22 then (sValue.drop 1).take (sValue.length - 2) else sValue

/-- What a trimmed line sets: nothing without an equals sign or without a name. -/
def importValue (sLine : CString) : Option (CString × Value) :=
  let nEquals := sLine.idxOf 0x3d
  if 0 < nEquals ∧ nEquals < sLine.length then
    let sName := trim (sLine.take nEquals)
    let sValue := trim (sLine.drop (nEquals + 1))
    if sName = [] then none
    else some (sName, if isString sValue then .sz (unquote sValue) else .dword (ttoi sValue))
  else none

/-- A name that is not empty, without `=`, line breaks, a leading `[`, and spaces at its ends. -/
structure NameOk (n : CString) : Prop where
  solid : Solid n
  noEquals : 0x3d ∉ n
  noBreak : 0x0a ∉ n ∧ 0x0d ∉ n
  noBracket : n.head? ≠ some 0x5b

theorem valueText_solid (v : Value) : Solid (valueText v) := by
  have hquote : Solid [0x22] := ⟨List.cons_ne_nil _ _, by decide, by decide⟩
  cases v with
  | dword v =>
    unfold valueText intText
    simp only
    have hdigits : Solid ((numeral 10 v.toInt.natAbs).map (0x30 + ·)) :=
      digits_solid (fun h => numeral_ne_nil 10 _ (List.map_eq_nil_iff.1 h)) digits_chars
    split
    · have hminus : Solid [0x2d] := ⟨List.cons_ne_nil _ _, by decide, by decide⟩
      exact hminus.append hdigits []
    · exact hdigits
  | sz s => exact hquote.append hquote s

theorem valueLine_solid {v : CString × Value} (hv : NameOk v.1) : Solid (valueLine v) :=
  hv.solid.append (valueText_solid v.2) _

theorem unquote_quoted (s : CString) : unquote (0x22 :: s ++ [0x22]) = s := by
  have hlast : (0x22 :: s ++ [0x22]).getLast? = some 0x22 := List.getLast?_concat
  have hlength : (0x22 :: s ++ [0x22]).length - 2 = s.length := by simp
  unfold unquote
  rw [if_pos ⟨rfl, hlast⟩, hlength]
  exact List.take_left

/-- A line gives back its name and value. -/
theorem importValue_line {v : CString × Value} (hv : NameOk v.1) : importValue (valueLine v) = some v := by
  obtain ⟨n, v⟩ := v
  have hsplit : valueLine (n, v) = (n ++ [0x20]) ++ 0x3d :: (0x20 :: valueText v) := by
    unfold valueLine
    simp
  have hindex : (valueLine (n, v)).idxOf 0x3d = (n ++ [0x20]).length := by
    have hnot : 0x3d ∉ n ++ [0x20] := by
      rw [List.mem_append]
      rintro (h | h)
      · exact hv.noEquals h
      · exact absurd h (by decide)
    rw [hsplit, List.idxOf_append_of_notMem hnot, List.idxOf_cons_self, Nat.add_zero]
  have hname : trim ((valueLine (n, v)).take (n ++ [0x20]).length) = n := by
    rw [hsplit, List.take_left]
    exact hv.solid.trim_right
  have hvalue : trim ((valueLine (n, v)).drop ((n ++ [0x20]).length + 1)) = valueText v := by
    rw [hsplit, ← List.drop_drop, List.drop_left]
    exact (valueText_solid v).trim_left
  have hrange : 0 < (n ++ [0x20]).length ∧ (n ++ [0x20]).length < (valueLine (n, v)).length := by
    rw [hsplit]
    simp
  unfold importValue
  simp only
  rw [hindex, if_pos hrange, hname, hvalue, if_neg hv.solid.nonempty]
  cases v with
  | dword v =>
    show some (n, if isString (intText v) then _ else Value.dword (ttoi (intText v))) = _
    rw [intText_number, ttoi_intText]
    rfl
  | sz s =>
    show some (n, if isString (0x22 :: (s ++ [0x22])) then Value.sz (unquote (0x22 :: s ++ [0x22])) else _) = _
    rw [quoted_string, if_pos rfl, unquote_quoted]

/-! ## Lines -/

/-- What `CStdioFile::ReadString` returns, one call after the other. -/
def readLines : CString → List CString
  | [] => []
  | c :: s =>
    if c = 0x0a then [] :: readLines s
    else
      match readLines s with
      | [] => [[c]]
      | line :: file => (c :: line) :: file

theorem readLines_cons {c : TCHAR} (hc : c ≠ 0x0a) {s line : CString} {file : List CString}
    (hs : readLines s = line :: file) : readLines (c :: s) = (c :: line) :: file := by
  show (if c = 0x0a then _ else match readLines s with | [] => [[c]] | line :: file => (c :: line) :: file) = _
  rw [if_neg hc, hs]

theorem readLines_line {line : CString} (hline : 0x0a ∉ line) (rest : CString) :
    readLines (line ++ 0x0a :: rest) = line :: readLines rest := by
  induction line with
  | nil => rfl
  | cons c line ih =>
    have hc : c ≠ 0x0a := fun h => hline (h ▸ List.mem_cons_self)
    exact readLines_cons hc (ih fun h => hline (List.mem_cons_of_mem c h))

theorem readLines_lines {file : List CString} (hfile : ∀ line ∈ file, 0x0a ∉ line) :
    readLines (file.flatMap (· ++ [0x0a])) = file := by
  induction file with
  | nil => rfl
  | cons line file ih =>
    rw [List.flatMap_cons, List.append_assoc, List.singleton_append, readLines_line (hfile line List.mem_cons_self),
      ih fun l hl => hfile l (List.mem_cons_of_mem line hl)]

end StarLib.Regkey.IniFile
