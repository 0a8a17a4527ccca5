import StarLib.FileMisc.Validate
import StarLib.FileMisc.Sizes

/-! # `IsSameFile`

`SplitPath` and `MakePath` are `_splitpath_s` and `_makepath_s`, which end the program where a part or the path does not
fit its buffer. `IsSameFile` completes both paths, and then compares the first one as it was given.
-/

namespace StarLib.FileMisc
open Foundations
set_option autoImplicit false
set_option maxHeartbeats 250000
set_option maxRecDepth 120000

def _MAX_DIR : ℕ := 256

def _MAX_FNAME : ℕ := 256

def _MAX_EXT : ℕ := 256

def isSlash (c : TCHAR) : Bool := c == 0x2f || c == 0x5c

def dot : TCHAR := 0x2e

structure PathParts where
  szDrive : CString
  szFolder : CString
  szFile : CString
  szExt : CString

/-- The text in front of the last dot, and the rest. -/
def splitName (name : CString) : CString × CString :=
  match reverseFind dot name with
  | none => (name, [])
  | some n => (name.take n, name.drop n)

/-- The parts of a path. A second letter that is a colon makes a drive of the first. -/
def parts (szPath : CString) : PathParts :=
  let rest := if szPath[1]? = some colon then szPath.drop 2 else szPath
  let name := splitName (rest.rtakeWhile fun c => !isSlash c)
  ⟨if szPath[1]? = some colon then szPath.take 2 else [], rest.rdropWhile fun c => !isSlash c, name.1, name.2⟩

/-- `SplitPath`. -/
def splitPath (szPath : CString) : Option PathParts :=
  let p := parts szPath
  if p.szFolder.length < _MAX_DIR ∧ p.szFile.length < _MAX_FNAME ∧ p.szExt.length < _MAX_EXT then some p else none

def drivePart : CString → CString
  | [] => []
  | c :: _ => [c, colon]

def dirPart (szDir : CString) : CString := if szDir.getLast?.all isSlash then szDir else szDir ++ [0x5c]

def extPart : CString → CString
  | [] => []
  | c :: szExt => if c == dot then c :: szExt else dot :: c :: szExt

/-- `MakePath`; an empty text is the same as `NULL`. -/
def makePath (szDrive szDir szFName szExt : CString) : Option CString :=
  let szPath := drivePart szDrive ++ dirPart szDir ++ szFName ++ extPart szExt
  if szPath.length < MAX_PATH then some szPath else none

/-- What a search returns, with -1 for no place. -/
def position : Option ℕ → ℤ
  | none => -1
  | some n => n

/-- `TerminatePath`. -/
def terminatePath (isspace : TCHAR → Bool) (sPath : CString) : CString :=
  let s := sPath.rdropWhile isspace
  if position (reverseFind 0x5c s) = (s.length : ℤ) - 1 then s else s ++ [0x5c]

/-- `CString::Find` of a text. -/
def find (lpszSub : CString) : CString → Option ℕ
  | [] => if lpszSub.isEmpty then some 0 else none
  | c :: s => if lpszSub.isPrefixOf (c :: s) then some 0 else (find lpszSub s).map (· + 1)

/-- The two functions of the shell that complete a path. -/
structure Shell where
  PathIsRelative : CString → Bool
  PathCanonicalize : CString → Option CString

section Completion
variable (shell : Shell) (isspace : TCHAR → Bool)

/-- `GetFullPath`. -/
def getFullPath (sFilePath sRelativeToFolder : CString) : Option CString :=
  if !shell.PathIsRelative sFilePath then
    if find [0x3a, 0x5c] sFilePath = none ∧ find [0x5c, 0x5c] sFilePath = none then do
      let p ← splitPath sRelativeToFolder
      makePath p.szDrive [] sFilePath []
    else some sFilePath
  else
    let sSrcPath := terminatePath isspace sRelativeToFolder ++ sFilePath
    match shell.PathCanonicalize sSrcPath with
    | some szFullPath => some szFullPath
    | none => some sSrcPath

/-- `CompareNoCase` says that the texts are equal. -/
def equalNoCase (lower : TCHAR → TCHAR) (s t : CString) : Bool := s.map lower == t.map lower

/-- `IsSameFile`, in a current folder. -/
def isSameFile (lower : TCHAR → TCHAR) (cwd sFilePath1 sFilePath2 : CString) : Option Bool := do
  let _sFullPath1 ← getFullPath shell isspace sFilePath1 cwd
  let sFullPath2 ← getFullPath shell isspace sFilePath2 cwd
  return equalNoCase lower sFilePath1 sFullPath2

end Completion

/-- What is known of the two functions. An absolute path is one for its beginning, whatever the case of its letters. -/
structure Shell.Documented (shell : Shell) (lower : TCHAR → TCHAR) : Prop where
  ignoresCase : ∀ s t, equalNoCase lower s t = true → shell.PathIsRelative s = shell.PathIsRelative t
  beginning : ∀ s t, shell.PathIsRelative s = false → shell.PathIsRelative (s ++ t) = false
  canonical : ∀ s t, shell.PathIsRelative s = false → shell.PathCanonicalize s = some t → shell.PathIsRelative t = false

/-- `GetFullPath` leaves the path as it is: it is absolute, and has a drive or a server, or the current folder has no
drive. -/
def Complete (shell : Shell) (cwd sFilePath : CString) : Prop :=
  shell.PathIsRelative sFilePath = false ∧
    ((find [0x3a, 0x5c] sFilePath).isSome ∨ (find [0x5c, 0x5c] sFilePath).isSome ∨ (parts cwd).szDrive = [])

section Same
variable {shell : Shell} {isspace : TCHAR → Bool} {lower : TCHAR → TCHAR} {cwd a b fa fb : CString}

theorem equalNoCase_refl : equalNoCase lower a a = true := beq_self_eq_true _

theorem equalNoCase_comm : equalNoCase lower a b = equalNoCase lower b a := Bool.beq_comm

theorem equalNoCase_trans (h : equalNoCase lower a fa = true) : equalNoCase lower a b = equalNoCase lower fa b := by
  have hmap : a.map lower = fa.map lower := eq_of_beq h
  unfold equalNoCase
  rw [hmap]

theorem equalNoCase_length (h : equalNoCase lower a b = true) : a.length = b.length := by
  have hlength := congrArg List.length (eq_of_beq h)
  rw [List.length_map, List.length_map] at hlength
  exact hlength

theorem splitPath_parts {p : PathParts} (h : splitPath a = some p) : p = parts a := by
  unfold splitPath at h
  dsimp only at h
  split at h
  · exact (Option.some.inj h).symm
  · exact absurd h (by simp)

theorem makePath_some {szDrive szDir szFName szExt result : CString}
    (h : makePath szDrive szDir szFName szExt = some result) :
    result = drivePart szDrive ++ dirPart szDir ++ szFName ++ extPart szExt := by
  unfold makePath at h
  dsimp only at h
  split at h
  · exact (Option.some.inj h).symm
  · exact absurd h (by simp)

/-- A path without a drive and a server gets the drive of the folder. -/
theorem getFullPath_drive (hrel : shell.PathIsRelative a = false) (hdrive : find [0x3a, 0x5c] a = none)
    (hserver : find [0x5c, 0x5c] a = none) (ha : getFullPath shell isspace a cwd = some fa) :
    fa = drivePart (parts cwd).szDrive ++ a := by
  unfold getFullPath at ha
  rw [hrel, Bool.not_false, if_pos rfl, if_pos ⟨hdrive, hserver⟩] at ha
  obtain ⟨p, hp, hmake⟩ := Option.bind_eq_some_iff.1 ha
  rw [splitPath_parts hp] at hmake
  rw [makePath_some hmake]
  exact (List.append_nil _).trans (congrArg (· ++ a) (List.append_nil _))

theorem getFullPath_absolute (hrel : shell.PathIsRelative a = false)
    (hfind : ¬ (find [0x3a, 0x5c] a = none ∧ find [0x5c, 0x5c] a = none)) : getFullPath shell isspace a cwd = some a := by
  unfold getFullPath
  rw [hrel, Bool.not_false, if_pos rfl, if_neg hfind]

theorem getFullPath_relative (h : shell.Documented lower)
    (hcwd : shell.PathIsRelative (terminatePath isspace cwd) = false)
    (hrel : shell.PathIsRelative a = true) (ha : getFullPath shell isspace a cwd = some fa) :
    shell.PathIsRelative fa = false := by
  have hsource : shell.PathIsRelative (terminatePath isspace cwd ++ a) = false := h.beginning _ a hcwd
  unfold getFullPath at ha
  rw [hrel, Bool.not_true, if_neg Bool.false_ne_true] at ha
  dsimp only at ha
  cases hcanon : shell.PathCanonicalize (terminatePath isspace cwd ++ a) with
  | none =>
    rw [hcanon] at ha
    rw [← Option.some.inj ha]
    exact hsource
  | some t =>
    rw [hcanon] at ha
    rw [← Option.some.inj ha]
    exact h.canonical _ t hsource hcanon

theorem drivePart_length {s : CString} (h : s ≠ []) : (drivePart s).length = 2 := by
  cases s with
  | nil => exact absurd rfl h
  | cons c s => rfl

/-- A path is its own full path exactly when it is complete. -/
theorem equal_fullPath_iff (h : shell.Documented lower)
    (hcwd : shell.PathIsRelative (terminatePath isspace cwd) = false) (ha : getFullPath shell isspace a cwd = some fa) :
    equalNoCase lower a fa = true ↔ Complete shell cwd a := by
  unfold Complete
  cases hrel : shell.PathIsRelative a with
  | true =>
    refine iff_of_false (fun hequal => ?_) fun hcomplete => Bool.noConfusion hcomplete.1
    have habsolute := getFullPath_relative h hcwd hrel ha
    rw [← h.ignoresCase a fa hequal, hrel] at habsolute
    exact Bool.noConfusion habsolute
  | false =>
    rw [eq_self, true_and]
    by_cases hfind : find [0x3a, 0x5c] a = none ∧ find [0x5c, 0x5c] a = none
    · have hfull := getFullPath_drive hrel hfind.1 hfind.2 ha
      have hno : ¬ (none : Option ℕ).isSome = true := Bool.false_ne_true
      rw [hfind.1, hfind.2, or_iff_right hno, or_iff_right hno, hfull]
      constructor
      · intro hequal
        by_contra hne
        have hlength := equalNoCase_length hequal
        rw [List.length_append, drivePart_length hne] at hlength
        omega
      · intro hnil
        rw [hnil]
        exact equalNoCase_refl
    · rw [getFullPath_absolute hrel hfind, Option.some_inj] at ha
      rw [← ha]
      refine iff_of_true equalNoCase_refl ?_
      rw [← or_assoc]
      refine Or.inl ?_
      rw [not_and_or] at hfind
      exact hfind.imp Option.isSome_iff_ne_none.2 Option.isSome_iff_ne_none.2

theorem isSameFile_eq (ha : getFullPath shell isspace a cwd = some fa) (hb : getFullPath shell isspace b cwd = some fb) :
    isSameFile shell isspace lower cwd a b = some (equalNoCase lower a fb) := by
  unfold isSameFile
  rw [ha, hb]
  rfl

/-- A complete first path is compared rightly with every other. Another one is not the same as itself, and it is
compared rightly with those whose full path is neither it nor its own full path. -/
theorem isSameFile_iff (h : shell.Documented lower) (hcwd : shell.PathIsRelative (terminatePath isspace cwd) = false)
    (ha : getFullPath shell isspace a cwd = some fa) :
    (isSameFile shell isspace lower cwd a a = some true ↔ Complete shell cwd a) ∧
      ((∀ b fb, getFullPath shell isspace b cwd = some fb →
        isSameFile shell isspace lower cwd a b = some (equalNoCase lower fa fb)) ↔ Complete shell cwd a) ∧
      ∀ b fb, getFullPath shell isspace b cwd = some fb →
        (isSameFile shell isspace lower cwd a b = some (equalNoCase lower fa fb) ↔
          Complete shell cwd a ∨ equalNoCase lower a fb = false ∧ equalNoCase lower fa fb = false) := by
  have hsame := equal_fullPath_iff h hcwd ha
  have hself : isSameFile shell isspace lower cwd a a = some true ↔ Complete shell cwd a := by
    rw [isSameFile_eq ha ha, Option.some_inj, hsame]
  refine ⟨hself, ⟨fun hall => ?_, fun hcomplete b fb hb => ?_⟩, fun b fb hb => ?_⟩
  · rw [← hself, hall a fa ha, equalNoCase_refl]
  · rw [isSameFile_eq ha hb, equalNoCase_trans (hsame.2 hcomplete)]
  · rw [isSameFile_eq ha hb, Option.some_inj, ← hsame]
    constructor
    · intro heq
      cases hfull : equalNoCase lower fa fb with
      | false => exact Or.inr ⟨heq.trans hfull, rfl⟩
      | true =>
        left
        have hfirst : equalNoCase lower a fb = true := heq.trans hfull
        rw [equalNoCase_trans hfirst, equalNoCase_comm]
        exact hfull
    · rintro (hequal | ⟨hfirst, hfull⟩)
      · exact equalNoCase_trans hequal
      · rw [hfirst, hfull]

theorem isSameFile_comm (h : shell.Documented lower) (hcwd : shell.PathIsRelative (terminatePath isspace cwd) = false)
    (ha : Complete shell cwd a) (hb : Complete shell cwd b) (hfa : getFullPath shell isspace a cwd = some fa)
    (hfb : getFullPath shell isspace b cwd = some fb) :
    isSameFile shell isspace lower cwd a b = isSameFile shell isspace lower cwd b a := by
  have hsame := (equal_fullPath_iff h hcwd hfa).2 ha
  have hsame' := (equal_fullPath_iff h hcwd hfb).2 hb
  rw [isSameFile_eq hfa hfb, isSameFile_eq hfb hfa, equalNoCase_trans hsame, equalNoCase_trans hsame', equalNoCase_comm]

/-- A relative path is the same file as no other, in any spelling. -/
theorem isSameFile_relative (h : shell.Documented lower) (hcwd : shell.PathIsRelative (terminatePath isspace cwd) = false)
    (hrel : shell.PathIsRelative a = true) (ha : getFullPath shell isspace a cwd = some fa)
    (hb : getFullPath shell isspace b cwd = some fb) (habsolute : shell.PathIsRelative b = true ∨ Complete shell cwd b) :
    isSameFile shell isspace lower cwd a b = some false := by
  rw [isSameFile_eq ha hb, Option.some_inj]
  by_contra hne
  have hequal : equalNoCase lower a fb = true := eq_true_of_ne_false hne
  have hfb : shell.PathIsRelative fb = false := by
    rcases habsolute with hrelb | hcomplete
    · exact getFullPath_relative h hcwd hrelb hb
    · rw [← h.ignoresCase b fb ((equal_fullPath_iff h hcwd hb).2 hcomplete)]
      exact hcomplete.1
  rw [← h.ignoresCase a fb hequal, hrel] at hfb
  exact Bool.noConfusion hfb

end Same

/-! ## A shell -/

def lowerLetter (c : ℕ) : ℕ := if 0x41 ≤ c ∧ c ≤ 0x5a then c + 0x20 else c

theorem lowerLetter_eq {c d : ℕ} (hd : d < 0x41 ∨ 0x5a < d ∧ d < 0x61) : lowerLetter c = d ↔ c = d := by
  unfold lowerLetter
  split <;> omega

/-- A path is absolute when it begins with a backslash or has a drive; paths without dots are canonical. -/
def sampleShell : Shell :=
  ⟨fun s => !(s[0]? == some 0x5c || s[1]? == some colon), fun s => if s.length < MAX_PATH then some s else none⟩

theorem sampleShell_absolute {s : CString} :
    sampleShell.PathIsRelative s = false ↔ s[0]? = some 0x5c ∨ s[1]? = some colon := by
  show (!(s[0]? == some 0x5c || s[1]? == some colon)) = false ↔ _
  rw [Bool.not_eq_false', Bool.or_eq_true, beq_iff_eq, beq_iff_eq]

theorem sampleShell_documented : sampleShell.Documented lowerLetter := by
  constructor
  · intro s t hequal
    have hletter : ∀ (d : TCHAR) (i : ℕ), (d < 0x41 ∨ 0x5a < d ∧ d < 0x61) → (s[i]? = some d ↔ t[i]? = some d) := by
      intro d i hd
      have hmapped : s.map lowerLetter = t.map lowerLetter := eq_of_beq hequal
      have hi : (s.map lowerLetter)[i]? = (t.map lowerLetter)[i]? := congrArg (fun l => l[i]?) hmapped
      rw [List.getElem?_map, List.getElem?_map] at hi
      have hmap : ∀ x : Option TCHAR, x = some d ↔ x.map lowerLetter = some d := by
        intro x
        cases x with
        | none => simp
        | some c => simp [lowerLetter_eq hd]
      rw [hmap, hi, ← hmap]
    show (!(s[0]? == some 0x5c || s[1]? == some colon)) = !(t[0]? == some 0x5c || t[1]? == some colon)
    rw [Bool.eq_iff_iff]
    simp [hletter 0x5c 0 (by decide), hletter colon 1 (by decide)]
  · intro s t hs
    have hbegin : ∀ (d : TCHAR) (i : ℕ), s[i]? = some d → (s ++ t)[i]? = some d := by
      intro d i hd
      obtain ⟨hi, -⟩ := List.getElem?_eq_some_iff.1 hd
      rw [List.getElem?_append_left hi, hd]
    have hst := (sampleShell_absolute.1 hs).imp (hbegin 0x5c 0) (hbegin colon 1)
    exact sampleShell_absolute.2 hst
  · intro s t hs ht
    have hst : s = t := by
      have ht' : (if s.length < MAX_PATH then some s else none) = some t := ht
      split at ht'
      · exact Option.some.inj ht'
      · exact absurd ht' (by simp)
    rw [← hst]
    exact hs

/-- The folder `C:\d`. -/
def driveFolder : CString := [0x43, 0x3a, 0x5c, 0x64]

theorem driveFolder_absolute : sampleShell.PathIsRelative (terminatePath isBlank driveFolder) = false := by decide

theorem fullPath_sample :
    getFullPath sampleShell isBlank [0x61] driveFolder = some [0x43, 0x3a, 0x5c, 0x64, 0x5c, 0x61] := by decide

theorem isSameFile_sample :
    (isSameFile sampleShell isBlank lowerLetter driveFolder [0x61] [0x61] = some true ↔
        Complete sampleShell driveFolder [0x61]) ∧
      ((∀ b fb, getFullPath sampleShell isBlank b driveFolder = some fb →
        isSameFile sampleShell isBlank lowerLetter driveFolder [0x61] b =
          some (equalNoCase lowerLetter [0x43, 0x3a, 0x5c, 0x64, 0x5c, 0x61] fb)) ↔
        Complete sampleShell driveFolder [0x61]) ∧
      ∀ b fb, getFullPath sampleShell isBlank b driveFolder = some fb →
        (isSameFile sampleShell isBlank lowerLetter driveFolder [0x61] b =
            some (equalNoCase lowerLetter [0x43, 0x3a, 0x5c, 0x64, 0x5c, 0x61] fb) ↔
          Complete sampleShell driveFolder [0x61] ∨ equalNoCase lowerLetter [0x61] fb = false ∧
            equalNoCase lowerLetter [0x43, 0x3a, 0x5c, 0x64, 0x5c, 0x61] fb = false) :=
  isSameFile_iff sampleShell_documented driveFolder_absolute fullPath_sample

/-- A relative path is not even the same file as itself. -/
theorem relative_differs : ¬ ∀ (shell : Shell) (isspace : TCHAR → Bool) (lower : TCHAR → TCHAR) (cwd a b fa fb : CString),
    shell.Documented lower → shell.PathIsRelative (terminatePath isspace cwd) = false →
    getFullPath shell isspace a cwd = some fa → getFullPath shell isspace b cwd = some fb →
    isSameFile shell isspace lower cwd a b = some (equalNoCase lower fa fb) := by
  intro hall
  have hself := hall sampleShell isBlank lowerLetter driveFolder [0x61] [0x61] _ _ sampleShell_documented
    driveFolder_absolute fullPath_sample fullPath_sample
  exact absurd hself (by decide)

end StarLib.FileMisc
