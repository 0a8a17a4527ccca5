import StarLib.Ini.Split
import StarLib.Foundations.Keyed

/-! # Sections and keys of an ini file

`CopySection`, `CopyKey`, `MoveSection` and `MoveKey` with what they call, over a file in which every write may
fail. Names count up to case. A result is `none` where a loop is not done after as many turns as it was given.
-/

namespace StarLib.Ini
open Foundations
set_option autoImplicit false
set_option maxHeartbeats 250000
set_option maxRecDepth 120000

def lowerCase (c : TCHAR) : TCHAR := if 0x41 ≤ c ∧ c ≤ 0x5a then c + 0x20 else c

/-- Two names are one for `_tcsicmp` and for the profile calls when this is the same of both. -/
def fold (name : CString) : CString := name.map lowerCase

/-- What can stand before the `=` of a line. -/
abbrev KeyName := {s : CString // s ≠ [] ∧ 0x3d ∉ s ∧ 0 ∉ s}

/-- What can stand behind it. -/
abbrev Text := {s : CString // 0 ∉ s}

abbrev KeyLine := KeyName × Text

def foldKey (key : KeyName) : CString := fold key.1

def lineText (line : KeyLine) : CString := line.1.1 ++ 0x3d :: line.2.1

/-- The key lines of every section, by the folded name. -/
abbrev Sections := CString → Option (List KeyLine)

/-- The value that a file has for a key. -/
def Sections.value (f : Sections) (sec key : CString) : Option Text := (f sec).bind fun lines => Keyed.lookup foldKey lines key

def Sections.setValue (f : Sections) (sec : CString) (key : KeyName) (value : Text) : Sections :=
  Function.update f sec (some (Keyed.insert foldKey ((f sec).getD []) key value))

def Sections.removeKey (f : Sections) (sec key : CString) : Sections :=
  Function.update f sec ((f sec).map fun lines => Keyed.erase foldKey lines key)

/-- The file `m_pszPathName`, and how many writes there were. -/
structure Disk where
  file : Sections
  writes : ℕ

/-- A write; `ok` says of every one whether it succeeds. -/
def Disk.write (ok : ℕ → Bool) (change : Sections → Sections) (d : Disk) : Bool × Disk :=
  (ok d.writes, ⟨if ok d.writes then change d.file else d.file, d.writes + 1⟩)

/-! ## The profile calls -/

/-- The texts by section and key, as `GetPrivateProfileString` finds them. -/
def Disk.profile (d : Disk) : Profile := fun sec key => (d.file.value (fold sec) (fold key)).map Subtype.val

/-- The lines with their terminators. -/
def sectionText (lines : List KeyLine) : CString := image (lines.map lineText)

/-- `GetPrivateProfileSection`: the buffer, and the number of characters without the last terminator. -/
def getPrivateProfileSection (d : Disk) (lpSection : CString) (nSize : ℕ) : CString × ℕ :=
  let text := sectionText ((d.file (fold lpSection)).getD [])
  if text.length + 1 ≤ nSize then (text ++ [0], text.length) else (text.take (nSize - 2) ++ [0, 0], nSize - 2)

/-- The line of a text with a `=` in it. -/
def lineOf (s : CString) : Option KeyLine :=
  let name := s.takeWhile (· ≠ 0x3d)
  let value := s.drop (name.length + 1)
  if h : (name ≠ [] ∧ 0x3d ∉ name ∧ 0 ∉ name) ∧ 0 ∉ value then some (⟨name, h.1⟩, ⟨value, h.2⟩) else none

/-- `WritePrivateProfileSection`. -/
def writePrivateProfileSection (ok : ℕ → Bool) (lpSection lpString : CString) (d : Disk) : Bool × Disk :=
  d.write ok fun f => Function.update f (fold lpSection) (some ((parseDNTString lpString.length lpString).filterMap lineOf))

/-! ## `CIni` -/

def deleteSection (ok : ℕ → Bool) (lpSection : CString) (d : Disk) : Bool × Disk :=
  d.write ok fun f => Function.update f (fold lpSection) none

def deleteKey (ok : ℕ → Bool) (lpSection lpKey : CString) (d : Disk) : Bool × Disk :=
  d.write ok fun f => f.removeKey (fold lpSection) (fold lpKey)

/-- `WriteString`; the value ends at its terminator. -/
def writeText (ok : ℕ → Bool) (lpSection : CString) (lpKey : KeyName) (lpValue : CString) (d : Disk) : Bool × Disk :=
  d.write ok fun f => f.setValue (fold lpSection) lpKey ⟨lpValue.takeWhile (· ≠ 0), fun h => by simpa using List.mem_takeWhile_imp h⟩

def isSectionExist (d : Disk) (lpSection : CString) : Bool := (d.file (fold lpSection)).isSome

/-- `DEF_PROFILE_TESTSTRING` -/
def testString : CString := "{63788286-AE30-4D6B-95DF-3B451C1C79F9}".toList.map Char.toNat

def isKeyExist (fuel : ℕ) (d : Disk) (lpSection lpKey : CString) : Option Bool :=
  (getStringDynamic fuel d.profile (some lpSection) (some lpKey) (some testString)).map fun psz => psz != testString

structure LinesRun where
  dwLen : ℕ
  dwCopied : ℕ

def linesWith (d : Disk) (lpSection : CString) (dwLen : ℕ) : LinesRun := ⟨dwLen, (getPrivateProfileSection d lpSection dwLen).2⟩

def linesTruncated (s : LinesRun) : Bool := decide (s.dwLen ≤ dword (s.dwCopied + 2))

/-- `GetKeyLines` without a buffer: the size of one. -/
def keyLinesSize (fuel : ℕ) (d : Disk) (lpSection : CString) : Option ℕ :=
  let s := whileFuel linesTruncated (fun s => linesWith d lpSection (dword (s.dwLen + threshold))) fuel (linesWith d lpSection threshold)
  if linesTruncated s then none else some (dword (s.dwCopied + 2))

/-- `CopySection`. -/
def copySection (ok : ℕ → Bool) (fuel : ℕ) (lpSrcSection lpDestSection : Option CString) (bFailIfExist : Bool) (d : Disk) :
    Option (Bool × Disk) :=
  match lpSrcSection, lpDestSection with
  | some src, some dest =>
    if fold src = fold dest then some (false, d)
    else if !isSectionExist d src then some (false, d)
    else if bFailIfExist && isSectionExist d dest then some (false, d)
    else
      let d := (deleteSection ok dest d).2
      (keyLinesSize fuel d src).map fun SRC_LEN =>
        writePrivateProfileSection ok dest (getPrivateProfileSection d src SRC_LEN).1 d
  | _, _ => some (false, d)

/-- `CopyKey`. -/
def copyKey (ok : ℕ → Bool) (fuel : ℕ) (lpSrcSection lpSrcKey : Option CString) (lpDestSection : CString) (lpDestKey : Option KeyName)
    (bFailIfExist : Bool) (d : Disk) : Option (Bool × Disk) :=
  match lpSrcSection, lpSrcKey, lpDestKey with
  | some src, some srcKey, some destKey =>
    if fold src = fold lpDestSection ∧ fold srcKey = foldKey destKey then some (false, d)
    else (isKeyExist fuel d src srcKey).bind fun exist =>
      if !exist then some (false, d)
      else (if bFailIfExist then isKeyExist fuel d lpDestSection destKey.1 else some false).bind fun exist =>
        if exist then some (false, d)
        else (getStringDynamic fuel d.profile (some src) (some srcKey) none).map fun psz => writeText ok lpDestSection destKey psz d
  | _, _, _ => some (false, d)

/-- `MoveSection`. -/
def moveSection (ok : ℕ → Bool) (fuel : ℕ) (lpSrcSection lpDestSection : Option CString) (bFailIfExist : Bool) (d : Disk) :
    Option (Bool × Disk) :=
  (copySection ok fuel lpSrcSection lpDestSection bFailIfExist d).map fun r =>
    if r.1 then deleteSection ok (lpSrcSection.getD []) r.2 else (false, r.2)

/-- `MoveKey`. -/
def moveKey (ok : ℕ → Bool) (fuel : ℕ) (lpSrcSection lpSrcKey : Option CString) (lpDestSection : CString) (lpDestKey : Option KeyName)
    (bFailIfExist : Bool) (d : Disk) : Option (Bool × Disk) :=
  (copyKey ok fuel lpSrcSection lpSrcKey lpDestSection lpDestKey bFailIfExist d).map fun r =>
    if r.1 then deleteKey ok (lpSrcSection.getD []) (lpSrcKey.getD []) r.2 else (false, r.2)

/-! ## Lines as text -/

theorem lineText_ne_nil (line : KeyLine) : lineText line ≠ [] := by
  unfold lineText
  exact List.append_ne_nil_of_right_ne_nil _ (List.cons_ne_nil _ _)

theorem lineText_zero (line : KeyLine) : ∀ c ∈ lineText line, c ≠ 0 := by
  rintro c hc rfl
  unfold lineText at hc
  rcases List.mem_append.1 hc with hname | hvalue
  · exact line.1.2.2.2 hname
  · rcases List.mem_cons.1 hvalue with heq | hvalue
    · exact absurd heq (by decide)
    · exact line.2.2 hvalue

theorem lineOf_lineText (line : KeyLine) : lineOf (lineText line) = some line := by
  obtain ⟨⟨name, hname⟩, ⟨value, hvalue⟩⟩ := line
  have htake : (name ++ 0x3d :: value).takeWhile (· ≠ 0x3d) = name := by
    rw [takeWhile_stop name _ (by simp)]
    exact List.takeWhile_eq_self_iff.2 fun c hc => decide_eq_true fun heq => hname.2.1 (heq ▸ hc)
  have hdrop : (name ++ 0x3d :: value).drop (name.length + 1) = value := by
    rw [← List.drop_drop, List.drop_left]
    rfl
  unfold lineOf lineText
  simp only [htake, hdrop]
  exact dif_pos ⟨hname, hvalue⟩

/-- The text of a section is read back as its lines. -/
theorem lines_parsed (lines : List KeyLine) :
    (parseDNTString (sectionText lines ++ [0]).length (sectionText lines ++ [0])).filterMap lineOf = lines := by
  have hzero : ∀ t ∈ lines.map lineText, ∀ c ∈ t, c ≠ 0 := by
    intro t ht
    obtain ⟨line, _, rfl⟩ := List.mem_map.1 ht
    exact lineText_zero line
  have hne : (lines.map lineText).filter (· ≠ []) = lines.map lineText := by
    refine List.filter_eq_self.2 fun t ht => ?_
    obtain ⟨line, _, rfl⟩ := List.mem_map.1 ht
    exact decide_eq_true (lineText_ne_nil line)
  unfold sectionText
  rw [parse_image hzero [] (by rw [List.length_append]; exact Nat.lt_succ_self _), hne, List.filterMap_map]
  have hlines : lineOf ∘ lineText = some := funext lineOf_lineText
  rw [hlines, List.filterMap_some]

theorem getPrivateProfileSection_room {d : Disk} {sec : CString} {lines : List KeyLine} (hlines : d.file (fold sec) = some lines)
    {n : ℕ} (h : (sectionText lines).length + 1 ≤ n) :
    getPrivateProfileSection d sec n = (sectionText lines ++ [0], (sectionText lines).length) := by
  unfold getPrivateProfileSection
  rw [hlines]
  exact if_pos h

end StarLib.Ini
