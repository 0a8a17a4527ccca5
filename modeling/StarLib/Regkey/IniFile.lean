import StarLib.Regkey.IniText

/-! # `CRegKey::ExportToIni` and `ImportFromIni`

The export writes a section for every key with values, from a tree; the import reads line by line and sets values
of the keys that it creates. Reading a string goes through a buffer of 200 bytes, enumerating through a buffer of 512
characters.
-/

namespace StarLib.Regkey.IniFile
open Foundations
set_option autoImplicit false
set_option maxHeartbeats 250000
set_option maxRecDepth 120000

/-- The keys below a key with their values and sub-keys, in the order of their enumeration. -/
inductive Subkeys where
  | none
  | key (name : CString) (values : List (CString × Value)) (subkeys rest : Subkeys)

/-- `CharacterSet` of the build. -/
inductive CharSet where
  | multiByte
  | unicode
  deriving DecidableEq

/-- `sizeof(TCHAR)` -/
def CharSet.size : CharSet → ℕ
  | .multiByte => 1
  | .unicode => 2

/-! ## Export -/

/-- `CRegKey::Read` of a string, into `char string[200]`; a string that is too long leaves the result empty. -/
def readString (cs : CharSet) (s : CString) : CString := if (s.length + 1) * cs.size ≤ 200 then s else []

/-- The value as `ExportValueToIni` reads it. -/
def readValue (cs : CharSet) : Value → Value
  | .dword v => .dword v
  | .sz s => .sz (readString cs s)

/-- `RegEnumValue` and `RegEnumKey` into `TCHAR szName[512]` succeed. -/
def enumerated (name : CString) : Bool := decide (name.length < 512)

/-- `CRegKey::ExportValueToIni`. -/
def exportValueToIni (cs : CharSet) (v : CString × Value) : CString := valueLine (v.1, readValue cs v.2) ++ [0x0a]

/-- `CRegKey::HasValues`. -/
def hasValues : List (CString × Value) → Bool
  | [] => false
  | v :: _ => enumerated v.1

/-- `[%s]` -/
def sectionHeading (pszKey : CString) : CString := 0x5b :: pszKey ++ [0x5d]

/-- `%s\\%s` below another key, and the name alone below the exported one. -/
def keyName (pszParent : Option CString) (name : CString) : CString :=
  match pszParent with
  | none => name
  | some parent => parent ++ 0x5c :: name

/-- `CRegKey::ExportKeyToIni` of the keys of a list, up to the first that is not enumerated. `pszParent` is the key
that the list belongs to, if that is not the exported key itself. -/
def exportKeysToIni (cs : CharSet) : Option CString → Subkeys → CString
  | _, .none => []
  | pszParent, .key name values subkeys rest =>
    if enumerated name then
      let pszKey := keyName pszParent name
      (if hasValues values then
        sectionHeading pszKey ++ [0x0a] ++ (values.takeWhile fun v => enumerated v.1).flatMap (exportValueToIni cs)
      else []) ++ exportKeysToIni cs (some pszKey) subkeys ++ exportKeysToIni cs pszParent rest
    else []

/-- `CRegKey::ExportToIni`: the file. -/
def exportToIni (cs : CharSet) (t : Subkeys) : CString := exportKeysToIni cs none t

/-! ## Import -/

/-- The keys there are, by the names from the exported key on, with their values by name. -/
abbrev Keys := List CString → Option (CString → Option Value)

/-- `RegCreateKeyEx`: the key and those above it that do not exist. -/
def createKey (keys : Keys) (path : List CString) : Keys := fun p =>
  match keys p with
  | some values => some values
  | none => if p.isPrefixOf path then some fun _ => none else none

/-- `RegSetValueEx`. -/
def setValue (keys : Keys) (path : List CString) (v : CString × Value) : Keys :=
  Function.update keys path ((keys path).map fun values => Function.update values v.1 (some v.2))

/-- The result, `sNextSection`, the lines not read yet and the keys. -/
structure SectionResult where
  bRes : Bool
  sNextSection : CString
  file : List CString
  keys : Keys

/-- The loop over the lines; in the root there is no key. -/
def importLines (key : Option (List CString)) : List CString → Keys → SectionResult
  | [], keys => ⟨true, [], [], keys⟩
  | line :: file, keys =>
    let sLine := trim line
    if sLine = [] then importLines key file keys
    else if sLine.head? = some 0x5b then
      if sLine.getLast? = some 0x5d then ⟨true, (sLine.drop 1).take (sLine.length - 2), file, keys⟩
      else ⟨false, [], file, keys⟩
    else
      match key with
      | some path =>
        match importValue sLine with
        | some v => importLines key file (setValue keys path v)
        | none => importLines key file keys
      | none => ⟨false, [], file, keys⟩

/-- `CRegKey::ImportSectionFromIni`. -/
def importSectionFromIni (sSection : CString) (file : List CString) (keys : Keys) : SectionResult :=
  if sSection = [] then importLines none file keys
  else
    let path := sSection.splitOn 0x5c
    importLines (some path) file (createKey keys path)

/-- The loop over the sections. -/
def importSections : ℕ → CString → List CString → Keys → Option (Bool × Keys)
  | 0, _, _, _ => none
  | fuel + 1, sSection, file, keys =>
    let r := importSectionFromIni sSection file keys
    if r.bRes ∧ r.sNextSection ≠ [] then importSections fuel r.sNextSection r.file r.keys
    else some (r.bRes, r.keys)

/-- `CRegKey::ImportFromIni`: the result, and the keys afterwards. Each turn but the last reads a line. -/
def importFromIni (file : CString) (keys : Keys) : Option (Bool × Keys) :=
  importSections ((readLines file).length + 1) [] (readLines file) keys

/-! ## The sections that are written -/

/-- A key with the values that are written of it. -/
abbrev Section := List CString × List (CString × Value)

/-- The sections below the key with the names `pre`. -/
def written (cs : CharSet) : List CString → Subkeys → List Section
  | _, .none => []
  | pre, .key name values subkeys rest =>
    if enumerated name then
      (if hasValues values then
        [(pre ++ [name], (values.takeWhile fun v => enumerated v.1).map fun v => (v.1, readValue cs v.2))]
      else []) ++ written cs (pre ++ [name]) subkeys ++ written cs pre rest
    else []

/-- The key of a section as it is written. -/
def pathText (path : List CString) : CString := [0x5c].intercalate path

def sectionLines (s : Section) : List CString := sectionHeading (pathText s.1) :: s.2.map valueLine

theorem pathText_concat {path : List CString} (hpath : path ≠ []) (name : CString) :
    pathText (path ++ [name]) = pathText path ++ 0x5c :: name := by
  unfold pathText
  induction path with
  | nil => exact absurd rfl hpath
  | cons n path ih =>
    cases path with
    | nil =>
      rw [List.singleton_append, List.intercalate_cons_cons, List.intercalate_singleton, List.intercalate_singleton,
        List.append_assoc]
      rfl
    | cons m path =>
      have hrest := ih (List.cons_ne_nil m path)
      rw [List.cons_append, List.cons_append, List.intercalate_cons_cons, ← List.cons_append, hrest,
        List.intercalate_cons_cons, List.append_assoc, List.append_assoc, List.append_assoc]

/-- The file is the lines of the sections. -/
theorem exportKeysToIni_eq (cs : CharSet) (t : Subkeys) (pre : List CString) (pszParent : Option CString)
    (hparent : ∀ name, pathText (pre ++ [name]) = keyName pszParent name) :
    exportKeysToIni cs pszParent t = ((written cs pre t).flatMap sectionLines).flatMap (· ++ [0x0a]) := by
  induction t generalizing pre pszParent with
  | none => rfl
  | key name values subkeys rest ihSub ihRest =>
    unfold exportKeysToIni written
    by_cases henum : enumerated name = true
    · simp only
      rw [if_pos henum, if_pos henum, ← hparent name, ihRest pre pszParent hparent,
        ihSub (pre ++ [name]) (some (pathText (pre ++ [name]))) fun n => pathText_concat (by simp) n]
      rw [List.flatMap_append, List.flatMap_append, List.flatMap_append, List.flatMap_append]
      congr 2
      by_cases hvalues : hasValues values = true
      · rw [if_pos hvalues, if_pos hvalues, List.flatMap_singleton]
        show _ = ((sectionHeading (pathText (pre ++ [name])) :: _) : List CString).flatMap _
        rw [List.flatMap_cons, List.map_map, List.flatMap_map]
        rfl
      · rw [if_neg hvalues, if_neg hvalues]
        rfl
    · rw [if_neg henum, if_neg henum]
      rfl

end StarLib.Regkey.IniFile
