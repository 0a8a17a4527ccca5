import StarLib.FileMisc.Paths

/-! # `BuildBackupPath`

The name of the backup is that of the file with a text in front of its extension. That text is empty when a folder is
given, but no time stamp and no extension.
-/

namespace StarLib.FileMisc
open Foundations
set_option autoImplicit false
set_option maxHeartbeats 250000
set_option maxRecDepth 120000

/-- `ReplaceExtension`. -/
def replaceExtension (sFilePath szExt : CString) : Option CString := do
  let p ← splitPath sFilePath
  makePath p.szDrive p.szFolder p.szFile szExt

/-- The folder's part of `BuildBackupPath`. -/
def handleFolder (shell : Shell) (isspace : TCHAR → Bool) (sFile sFolder : CString) : Option CString :=
  if sFolder.isEmpty then some (sFile.rdropWhile isspace)
  else do
    let p ← splitPath sFile
    if shell.PathIsRelative sFolder then makePath p.szDrive (p.szFolder ++ sFolder) p.szFile p.szExt
    else makePath [] sFolder p.szFile p.szExt

/-- The time stamp and the extension in front of the one of the file; `sDate` is the formatted time. -/
def newExtension (sDate sFolder : CString) (bTimeStamp : Bool) (sExt sFExt : CString) : CString :=
  let sFExt := if bTimeStamp then dot :: sDate ++ sFExt else sFExt
  if sExt.isEmpty then
    if sFolder.isEmpty && !bTimeStamp then [0x2e, 0x62, 0x61, 0x6b] ++ sFExt else sFExt
  else if !sExt.contains dot then dot :: sExt ++ sFExt
  else sExt ++ sFExt

/-- `CFileBackup::BuildBackupPath`. -/
def buildBackupPath (shell : Shell) (isspace : TCHAR → Bool) (sDate sFile sFolder : CString) (bTimeStamp : Bool)
    (sExt : CString) : Option CString := do
  let sBackup ← handleFolder shell isspace sFile sFolder
  let p ← splitPath sBackup
  replaceExtension sBackup (newExtension sDate sFolder bTimeStamp sExt p.szExt)

/-! ## The parts of a path -/

def folderText (szPath : CString) : CString := (parts szPath).szDrive ++ (parts szPath).szFolder

def nameText (szPath : CString) : CString := (parts szPath).szFile ++ (parts szPath).szExt

section Parts
variable {s t D name szExt : CString} {c : TCHAR}

theorem splitName_join (name : CString) : (splitName name).1 ++ (splitName name).2 = name := by
  unfold splitName
  cases reverseFind dot name with
  | none => exact List.append_nil name
  | some n => exact List.take_append_drop n name

theorem extPart_dotted (h : ∀ c ∈ szExt.head?, c = dot) : extPart szExt = szExt := by
  cases szExt with
  | nil => rfl
  | cons c szExt =>
    rw [h c rfl]
    rfl

theorem splitName_ext (name : CString) : ∀ c ∈ (splitName name).2.head?, c = dot := by
  induction name with
  | nil => exact fun c hc => absurd hc (by simp [splitName, reverseFind])
  | cons d name ih =>
    unfold splitName at ih ⊢
    unfold reverseFind
    cases hfind : reverseFind dot name with
    | some n =>
      rw [hfind] at ih
      exact ih
    | none =>
      by_cases hd : d = dot
      · intro c hc
        rw [hd] at hc
        exact (Option.some.inj hc).symm
      · have hbeq : (d == dot) = false := beq_eq_false_iff_ne.2 hd
        rw [hbeq]
        exact fun c hc => absurd hc (by simp)

/-- The parts of a path whose letters behind the drive are `rest`. -/
def partsBehind (szDrive rest : CString) : PathParts :=
  ⟨szDrive, rest.rdropWhile fun c => !isSlash c, (splitName (rest.rtakeWhile fun c => !isSlash c)).1,
    (splitName (rest.rtakeWhile fun c => !isSlash c)).2⟩

theorem parts_plain (h : s[1]? ≠ some colon) : parts s = partsBehind [] s := by
  unfold parts
  rw [if_neg h, if_neg h]
  rfl

theorem folder_name_join (s : CString) : folderText s ++ nameText s = s := by
  have hbehind : ∀ szDrive rest : CString, (partsBehind szDrive rest).szDrive ++ (partsBehind szDrive rest).szFolder ++
      ((partsBehind szDrive rest).szFile ++ (partsBehind szDrive rest).szExt) = szDrive ++ rest := by
    intro szDrive rest
    unfold partsBehind
    rw [splitName_join, List.append_assoc, List.rdropWhile_append_rtakeWhile]
  unfold folderText nameText
  rcases drive_cases s with ⟨x, t, rfl⟩ | hno
  · exact hbehind [x, colon] t
  · rw [parts_plain hno]
    exact hbehind [] s

theorem stem_join (s : CString) : folderText s ++ (parts s).szFile ++ (parts s).szExt = s := by
  rw [List.append_assoc]
  exact folder_name_join s

theorem drivePart_parts (s : CString) : drivePart (parts s).szDrive = (parts s).szDrive := by
  rcases drive_cases s with ⟨x, t, rfl⟩ | hno
  · rfl
  · rw [parts_plain hno]
    rfl

theorem dirPart_slashed (h : ∀ c ∈ s.getLast?, isSlash c = true) : dirPart s = s := by
  unfold dirPart
  rw [if_pos]
  cases hlast : s.getLast? with
  | none => rfl
  | some c => exact h c hlast

theorem dirPart_last (h : s ≠ []) : ∃ c ∈ (dirPart s).getLast?, isSlash c = true := by
  unfold dirPart
  cases hlast : s.getLast? with
  | none => exact absurd (List.getLast?_eq_none_iff.1 hlast) h
  | some c =>
    cases hc : isSlash c with
    | true =>
      rw [Option.all_some, hc, if_pos rfl]
      exact ⟨c, hlast, hc⟩
    | false =>
      rw [Option.all_some, hc, if_neg Bool.false_ne_true]
      exact ⟨0x5c, List.getLast?_concat, rfl⟩

theorem dirPart_length (s : CString) : s.length ≤ (dirPart s).length := by
  unfold dirPart
  split
  · exact le_refl _
  · rw [List.length_append]
    exact Nat.le_add_right _ _

theorem rdropWhile_last (s : CString) : ∀ c ∈ (s.rdropWhile fun c => !isSlash c).getLast?, isSlash c = true := by
  intro c hc
  have hnot := getLast_rdropWhile c hc
  simpa using hnot

theorem dirPart_parts (s : CString) : dirPart (parts s).szFolder = (parts s).szFolder :=
  dirPart_slashed (rdropWhile_last _)

theorem makeParts (s szExt : CString) :
    drivePart (parts s).szDrive ++ dirPart (parts s).szFolder ++ (parts s).szFile ++ szExt =
      folderText s ++ (parts s).szFile ++ szExt := by
  rw [drivePart_parts, dirPart_parts]
  rfl

theorem name_plain (s : CString) : ∀ c ∈ nameText s, isSlash c = false := by
  have hbehind : ∀ szDrive rest : CString, ∀ c ∈ (partsBehind szDrive rest).szFile ++ (partsBehind szDrive rest).szExt,
      isSlash c = false := by
    intro szDrive rest c hc
    unfold partsBehind at hc
    rw [splitName_join] at hc
    simpa using List.mem_rtakeWhile_imp hc
  unfold nameText
  rcases drive_cases s with ⟨x, t, rfl⟩ | hno
  · exact hbehind [x, colon] t
  · rw [parts_plain hno]
    exact hbehind [] s

theorem cut_append (hD : ∀ c ∈ D.getLast?, isSlash c = true) (hname : ∀ c ∈ name, isSlash c = false) :
    ((D ++ name).rdropWhile fun c => !isSlash c) = D ∧ ((D ++ name).rtakeWhile fun c => !isSlash c) = name := by
  induction name using List.reverseRecOn with
  | nil =>
    rw [List.append_nil, List.rdropWhile_eq_self_iff, List.rtakeWhile_eq_nil_iff]
    have hlast : ∀ hne : D ≠ [], ¬ (!isSlash (D.getLast hne)) = true := by
      intro hne
      rw [hD _ (List.getLast?_eq_some_getLast hne)]
      exact Bool.false_ne_true
    exact ⟨hlast, hlast⟩
  | append_singleton name c ih =>
    have hc : (!isSlash c) = true := by
      rw [hname c (List.mem_append_right name List.mem_cons_self)]
      rfl
    obtain ⟨hdrop, htake⟩ := ih fun d hd => hname d (List.mem_append_left [c] hd)
    rw [← List.append_assoc, List.rdropWhile_concat_pos (fun c => !isSlash c) _ c hc,
      List.rtakeWhile_concat_pos (fun c => !isSlash c) _ c hc, hdrop, htake]
    exact ⟨rfl, rfl⟩

/-- A text that names a folder: nothing, a drive, or one that ends with a separator. -/
def IsFolderText (D : CString) : Prop := (∃ x, D = [x, colon]) ∨ ∀ c ∈ D.getLast?, isSlash c = true

theorem isFolderText_slashed (hD : ∃ c ∈ D.getLast?, isSlash c = true) : IsFolderText D := by
  obtain ⟨c, hc, hslash⟩ := hD
  right
  intro d hd
  rw [Option.mem_unique hd hc]
  exact hslash

theorem parts_append (hD : IsFolderText D) (hname : ∀ c ∈ name, isSlash c = false)
    (hcolon : (D ++ name)[1]? = some colon → 2 ≤ D.length) :
    folderText (D ++ name) = D ∧ nameText (D ++ name) = name ∧ (parts (D ++ name)).szExt = (splitName name).2 := by
  have hbehind : ∀ szDrive t : CString, (∀ c ∈ t.getLast?, isSlash c = true) →
      partsBehind szDrive (t ++ name) = ⟨szDrive, t, (splitName name).1, (splitName name).2⟩ := by
    intro szDrive t ht
    obtain ⟨hdrop, htake⟩ := cut_append ht hname
    unfold partsBehind
    rw [hdrop, htake]
  unfold folderText nameText
  by_cases hdrive : (D ++ name)[1]? = some colon
  · have hlength := hcolon hdrive
    match D, hlength, hdrive, hD with
    | x :: y :: t, _, hdrive, hD =>
      have hy : y = colon := Option.some.inj hdrive
      have ht : ∀ c ∈ t.getLast?, isSlash c = true := by
        rcases hD with ⟨z, hz⟩ | hlast
        · rw [List.cons.injEq, List.cons.injEq] at hz
          rw [hz.2.2]
          exact fun c hc => absurd hc (by simp)
        · intro c hc
          apply hlast
          show c ∈ ([x, y] ++ t).getLast?
          exact List.mem_getLast?_append_of_mem_getLast? hc
      rw [hy]
      have hparts : parts (x :: colon :: t ++ name) = partsBehind [x, colon] (t ++ name) := rfl
      rw [hparts, hbehind [x, colon] t ht]
      exact ⟨rfl, splitName_join name, rfl⟩
  · have hlast : ∀ c ∈ D.getLast?, isSlash c = true := by
      rcases hD with ⟨x, rfl⟩ | hlast
      · exact absurd rfl hdrive
      · exact hlast
    rw [parts_plain hdrive, hbehind [] D hlast]
    exact ⟨rfl, splitName_join name, rfl⟩

theorem isFolderText_parts (s : CString) : IsFolderText (folderText s) := by
  unfold folderText
  rcases drive_cases s with ⟨x, t, rfl⟩ | hno
  · show IsFolderText ([x, colon] ++ t.rdropWhile fun c => !isSlash c)
    by_cases hnil : (t.rdropWhile fun c => !isSlash c) = []
    · rw [hnil]
      exact Or.inl ⟨x, rfl⟩
    · right
      rw [List.getLast?_append_of_ne_nil _ hnil]
      exact rdropWhile_last t
  · rw [parts_plain hno]
    exact Or.inr (rdropWhile_last s)

theorem parts_ext (s : CString) : ∀ c ∈ (parts s).szExt.head?, c = dot := splitName_ext _

theorem parts_nameExt (s : CString) : (parts s).szExt = (splitName (nameText s)).2 := by
  have hbehind : ∀ szDrive rest : CString, (partsBehind szDrive rest).szExt =
      (splitName ((partsBehind szDrive rest).szFile ++ (partsBehind szDrive rest).szExt)).2 := by
    intro szDrive rest
    unfold partsBehind
    rw [splitName_join]
  unfold nameText
  rcases drive_cases s with ⟨x, t, rfl⟩ | hno
  · exact hbehind [x, colon] t
  · rw [parts_plain hno]
    exact hbehind [] s

theorem splitName_cons_ext (hc : c ≠ dot) (name : CString) : (splitName (c :: name)).2 = (splitName name).2 := by
  unfold splitName
  rw [reverseFind]
  cases reverseFind dot name with
  | some n => rfl
  | none =>
    have hbeq : (c == dot) = false := beq_eq_false_iff_ne.2 hc
    rw [hbeq]
    rfl

/-- The extension is that of the name, also where a separator and a colon are taken for a drive. -/
theorem ext_append (hD : ∃ c ∈ D.getLast?, isSlash c = true) (hname : ∀ c ∈ name, isSlash c = false) :
    (parts (D ++ name)).szExt = (splitName name).2 := by
  have hfolder := isFolderText_slashed hD
  obtain ⟨c, hc, -⟩ := hD
  by_cases hcolon : (D ++ name)[1]? = some colon → 2 ≤ D.length
  · exact (parts_append hfolder hname hcolon).2.2
  · rw [Classical.not_imp] at hcolon
    match D, hc, hcolon with
    | [x], _, hcolon =>
      obtain ⟨y, name, rfl⟩ := List.exists_cons_of_ne_nil (l := name) fun hnil => by
        rw [hnil] at hcolon
        exact absurd hcolon.1 (by simp)
      have hy : y = colon := Option.some.inj hcolon.1
      have hnodot : y ≠ dot := by
        rw [hy]
        decide
      have hrest := (parts_append (show IsFolderText [x, y] from Or.inl ⟨x, by rw [hy]⟩)
        (fun d hd => hname d (List.mem_cons_of_mem y hd)) fun _ => le_refl 2).2.2
      rw [splitName_cons_ext hnodot]
      exact hrest
    | x :: y :: D, _, hcolon => exact absurd (Nat.le_add_left 2 D.length) hcolon.2

theorem drive_length (h : s[1]? = some colon) : 2 ≤ (folderText s).length := by
  rcases drive_cases s with ⟨x, t, rfl⟩ | hno
  · show 2 ≤ ([x, colon] ++ t.rdropWhile fun c => !isSlash c).length
    rw [List.length_append]
    exact Nat.le_add_right 2 _
  · exact absurd h hno

end Parts

/-! ## The path of the backup -/

/-- The text in front of the extension. -/
def inserted (sDate sFolder : CString) (bTimeStamp : Bool) (sExt : CString) : CString :=
  extPart ((if sExt.isEmpty then if sFolder.isEmpty && !bTimeStamp then [0x2e, 0x62, 0x61, 0x6b] else []
    else if !sExt.contains dot then dot :: sExt else sExt) ++ if bTimeStamp then dot :: sDate else [])

/-- The folder of the backup, where one is given. -/
def targetFolder (shell : Shell) (sFile sFolder : CString) : CString :=
  if shell.PathIsRelative sFolder then (parts sFile).szDrive ++ dirPart ((parts sFile).szFolder ++ sFolder)
  else dirPart sFolder

/-- The path before its extension is replaced. -/
def copyPath (shell : Shell) (isspace : TCHAR → Bool) (sFile sFolder : CString) : CString :=
  if sFolder.isEmpty then sFile.rdropWhile isspace else targetFolder shell sFile sFolder ++ nameText sFile

section Backup
variable {shell : Shell} {isspace : TCHAR → Bool} {sDate sFile sFolder sExt result : CString} {bTimeStamp : Bool}

theorem extPart_cons (c : TCHAR) (s : CString) : extPart (c :: s) = if c == dot then c :: s else dot :: c :: s := rfl

theorem extPart_append {s szExt : CString} (h : ∀ c ∈ szExt.head?, c = dot) :
    extPart (s ++ szExt) = extPart s ++ szExt := by
  cases s with
  | nil => exact extPart_dotted h
  | cons c s =>
    rw [List.cons_append, extPart_cons, extPart_cons]
    split <;> rfl

theorem replaceExtension_some {s szExt : CString} (h : replaceExtension s szExt = some result) :
    result = folderText s ++ (parts s).szFile ++ extPart szExt := by
  obtain ⟨p, hp, hmake⟩ := Option.bind_eq_some_iff.1 h
  rw [makePath_some hmake, splitPath_parts hp, makeParts]

theorem newExtension_eq {szExt : CString} (h : ∀ c ∈ szExt.head?, c = dot) :
    extPart (newExtension sDate sFolder bTimeStamp sExt szExt) = inserted sDate sFolder bTimeStamp sExt ++ szExt := by
  unfold inserted
  rw [← extPart_append h]
  unfold newExtension
  cases bTimeStamp <;> cases sExt.isEmpty <;> cases sFolder.isEmpty <;> cases sExt.contains dot <;> simp

theorem handleFolder_some (h : handleFolder shell isspace sFile sFolder = some result) :
    result = copyPath shell isspace sFile sFolder := by
  unfold handleFolder at h
  unfold copyPath targetFolder nameText
  split at h
  · rename_i hempty
    rw [if_pos hempty]
    exact (Option.some.inj h).symm
  · rename_i hne
    rw [if_neg hne]
    obtain ⟨p, hp, hmake⟩ := Option.bind_eq_some_iff.1 h
    rw [splitPath_parts hp] at hmake
    split at hmake
    · rename_i hrel
      rw [if_pos hrel, makePath_some hmake, drivePart_parts, extPart_dotted (parts_ext sFile), List.append_assoc]
    · rename_i habsolute
      rw [if_neg habsolute, makePath_some hmake, extPart_dotted (parts_ext sFile), List.append_assoc]
      rfl

theorem buildBackupPath_eq (h : buildBackupPath shell isspace sDate sFile sFolder bTimeStamp sExt = some result) :
    result = folderText (copyPath shell isspace sFile sFolder) ++ (parts (copyPath shell isspace sFile sFolder)).szFile ++
      (inserted sDate sFolder bTimeStamp sExt ++ (parts (copyPath shell isspace sFile sFolder)).szExt) := by
  obtain ⟨sBackup, hcopy, h⟩ := Option.bind_eq_some_iff.1 h
  obtain ⟨p, hp, hreplace⟩ := Option.bind_eq_some_iff.1 h
  rw [splitPath_parts hp, handleFolder_some hcopy] at hreplace
  rw [replaceExtension_some hreplace, newExtension_eq (parts_ext _)]

theorem extPart_head (s : CString) : ∀ c ∈ (extPart s).head?, c = dot := by
  cases s with
  | nil => exact fun c hc => absurd hc (by simp [extPart])
  | cons d s =>
    intro c hc
    rw [extPart_cons] at hc
    split at hc
    · rename_i hd
      rw [← Option.some.inj hc]
      exact eq_of_beq hd
    · exact (Option.some.inj hc).symm

theorem extPart_eq_nil {s : CString} : extPart s = [] ↔ s = [] := by
  cases s with
  | nil => exact iff_of_true rfl rfl
  | cons c s =>
    rw [extPart_cons]
    split <;> simp

/-- Nothing is put in only where a folder is given, and nothing else. -/
theorem inserted_eq_nil :
    inserted sDate sFolder bTimeStamp sExt = [] ↔ bTimeStamp = false ∧ sExt = [] ∧ sFolder ≠ [] := by
  unfold inserted
  rw [extPart_eq_nil, List.append_eq_nil_iff]
  cases bTimeStamp with
  | true => simp
  | false =>
    cases sExt with
    | nil =>
      cases sFolder with
      | nil => simp
      | cons c sFolder => simp
    | cons c sExt =>
      have hne : ¬ (if !(c :: sExt).contains dot then dot :: c :: sExt else c :: sExt) = [] := by
        split <;> exact List.cons_ne_nil _ _
      rw [List.isEmpty_cons, if_neg Bool.false_ne_true]
      exact iff_of_false (fun h => hne h.1) fun h => List.cons_ne_nil c sExt h.2.1

theorem targetFolder_last (shell : Shell) (sFile : CString) (h : sFolder ≠ []) :
    ∃ c ∈ (targetFolder shell sFile sFolder).getLast?, isSlash c = true := by
  unfold targetFolder
  split
  · obtain ⟨c, hc, hslash⟩ := dirPart_last (List.append_ne_nil_of_right_ne_nil (parts sFile).szFolder h)
    exact ⟨c, List.mem_getLast?_append_of_mem_getLast? hc, hslash⟩
  · exact dirPart_last h

/-- In another folder the name is the file's, with the text in front of its extension. -/
theorem buildBackupPath_folder (hfolder : sFolder ≠ [])
    (h : buildBackupPath shell isspace sDate sFile sFolder bTimeStamp sExt = some result) :
    result = targetFolder shell sFile sFolder ++
      ((parts sFile).szFile ++ inserted sDate sFolder bTimeStamp sExt ++ (parts sFile).szExt) := by
  have hempty : ¬ sFolder.isEmpty = true := fun hnil => hfolder (List.isEmpty_iff.1 hnil)
  have hcopy : copyPath shell isspace sFile sFolder = targetFolder shell sFile sFolder ++ nameText sFile := if_neg hempty
  have hext := ext_append (targetFolder_last shell sFile hfolder) (name_plain sFile)
  rw [← parts_nameExt] at hext
  have hjoin := stem_join (targetFolder shell sFile sFolder ++ nameText sFile)
  have hbase : folderText (targetFolder shell sFile sFolder ++ nameText sFile) ++
      (parts (targetFolder shell sFile sFolder ++ nameText sFile)).szFile =
      targetFolder shell sFile sFolder ++ (parts sFile).szFile := by
    rw [hext] at hjoin
    refine List.append_cancel_right (hjoin.trans ?_)
    rw [List.append_assoc]
    rfl
  rw [buildBackupPath_eq h, hcopy, hbase, hext]
  simp only [List.append_assoc]

theorem targetFolder_relative (sFile : CString) (hfolder : sFolder ≠ []) (hrel : shell.PathIsRelative sFolder = true) :
    (folderText sFile).length < (targetFolder shell sFile sFolder).length := by
  have hlength := dirPart_length ((parts sFile).szFolder ++ sFolder)
  have hpos := List.length_pos_iff.2 hfolder
  unfold targetFolder folderText
  rw [if_pos hrel, List.length_append, List.length_append]
  rw [List.length_append] at hlength
  omega

/-- A text that begins with a dot is not put in front of an extension by blanks behind it. -/
theorem blanks_differ {f : TCHAR → TCHAR} (hf : ∀ c, isspace (f c) = isspace c) (hdot : isspace dot = false)
    {u szExt blanks : CString} (hext : ∀ c ∈ szExt.getLast?, isspace c = false)
    (hblanks : ∀ c ∈ blanks, isspace c = true) :
    (dot :: u ++ szExt).map f ≠ (szExt ++ blanks).map f := by
  intro heq
  have hclash : ∀ c d, isspace c = false → isspace d = true → f c = f d → False := by
    intro c d hc hd hcd
    have hsame := hf c
    rw [hcd, hf d, hc, hd] at hsame
    exact Bool.noConfusion hsame
  have hlength := congrArg List.length heq
  simp only [List.length_map, List.length_append, List.length_cons] at hlength
  cases hlast : szExt.getLast? with
  | none =>
    rw [List.getLast?_eq_none_iff.1 hlast] at heq
    cases blanks with
    | nil => exact absurd heq (by simp)
    | cons b blanks =>
      rw [List.append_nil, List.nil_append, List.map_cons, List.map_cons, List.cons.injEq] at heq
      exact hclash dot b hdot (hblanks b List.mem_cons_self) heq.1
  | some c =>
    cases hblank : blanks.getLast? with
    | none =>
      rw [List.getLast?_eq_none_iff.1 hblank] at hlength
      rw [List.length_nil] at hlength
      omega
    | some b =>
      have hends := congrArg List.getLast? heq
      rw [List.getLast?_map, List.getLast?_map, List.getLast?_append, List.getLast?_append, hlast, hblank] at hends
      exact hclash c b (hext c hlast) (hblanks b (List.mem_of_getLast? hblank)) (Option.some.inj hends)

/-- A path whose letters fit a buffer is split, and put together again. -/
theorem splitPath_short {s : CString} (h : s.length < 256) : splitPath s = some (parts s) := by
  have hlength := congrArg List.length (stem_join s)
  unfold folderText at hlength
  rw [List.length_append, List.length_append, List.length_append] at hlength
  unfold splitPath
  dsimp only
  rw [if_pos]
  unfold _MAX_DIR _MAX_FNAME _MAX_EXT
  omega

theorem makePath_short {szDrive szDir szFName szExt : CString}
    (h : (drivePart szDrive ++ dirPart szDir ++ szFName ++ extPart szExt).length < 256) :
    makePath szDrive szDir szFName szExt = some (drivePart szDrive ++ dirPart szDir ++ szFName ++ extPart szExt) := by
  have hfits : (drivePart szDrive ++ dirPart szDir ++ szFName ++ extPart szExt).length < MAX_PATH :=
    lt_of_lt_of_le h (by decide)
  unfold makePath
  dsimp only
  rw [if_pos hfits]

theorem handleFolder_short (hfile : sFile.length < 256) (hcopy : (copyPath shell isspace sFile sFolder).length < 256) :
    handleFolder shell isspace sFile sFolder = some (copyPath shell isspace sFile sFolder) := by
  unfold copyPath targetFolder nameText at hcopy ⊢
  unfold handleFolder
  split
  · rfl
  · rename_i hne
    rw [if_neg hne, ← List.append_assoc] at hcopy
    rw [splitPath_short hfile, ← List.append_assoc]
    show (if _ then _ else _) = _
    split
    · rename_i hrel
      rw [if_pos hrel] at hcopy
      rw [← drivePart_parts, ← extPart_dotted (parts_ext sFile)] at hcopy
      rw [makePath_short hcopy, drivePart_parts, extPart_dotted (parts_ext sFile)]
    · rename_i habsolute
      rw [if_neg habsolute, ← extPart_dotted (parts_ext sFile)] at hcopy
      rw [makePath_short hcopy, extPart_dotted (parts_ext sFile)]
      rfl

/-- Paths of fewer than 256 letters have a backup path, when it is as short. -/
theorem buildBackupPath_returns (hfile : sFile.length < 256)
    (hresult : (folderText (copyPath shell isspace sFile sFolder) ++
      (parts (copyPath shell isspace sFile sFolder)).szFile ++ (inserted sDate sFolder bTimeStamp sExt ++
      (parts (copyPath shell isspace sFile sFolder)).szExt)).length < 256) :
    ∃ result, buildBackupPath shell isspace sDate sFile sFolder bTimeStamp sExt = some result := by
  have hcopy : (copyPath shell isspace sFile sFolder).length < 256 := by
    have hjoin := congrArg List.length (stem_join (copyPath shell isspace sFile sFolder))
    simp only [List.length_append] at hjoin hresult
    omega
  unfold buildBackupPath
  rw [handleFolder_short hfile hcopy]
  show ∃ result, (splitPath _ >>= _) = some result
  rw [splitPath_short hcopy]
  show ∃ result, replaceExtension _ _ = some result
  unfold replaceExtension
  rw [splitPath_short hcopy]
  refine ⟨_, makePath_short ?_⟩
  rw [makeParts, newExtension_eq (parts_ext _)]
  exact hresult

end Backup

/-! ## The file itself -/

/-- The same folder, and the same name in it but for the case. What folder a text denotes is the system's business. -/
structure SamePath {φ : Type} (folderAt : CString → φ) (lower : TCHAR → TCHAR) (p q : CString) : Prop where
  folder : folderAt (folderText p) = folderAt (folderText q)
  name : equalNoCase lower (nameText p) (nameText q) = true

def PlainText (s : CString) : Prop := ∀ c ∈ s, isSlash c = false ∧ c ≠ colon

/-- Blanks are neither dots nor separators nor colons, in either case, and what makes a name has no separator. -/
structure Usual (isspace : TCHAR → Bool) (lower : TCHAR → TCHAR) (sDate sFile sExt : CString) : Prop where
  slash : ∀ c, isSlash c = true → isspace c = false
  colon : isspace colon = false
  lower : ∀ c, isspace (lower c) = isspace c
  date : PlainText sDate
  ext : PlainText sExt
  name : (parts sFile).szFile.head? ≠ some FileMisc.colon

section Overwrites
variable {shell : Shell} {isspace : TCHAR → Bool} {lower : TCHAR → TCHAR} {sDate sFile sFolder sExt result : CString}
variable {bTimeStamp : Bool} {φ : Type} {folderAt : CString → φ}

theorem plain_inserted (sFolder : CString) (bTimeStamp : Bool) (hdate : PlainText sDate) (hext : PlainText sExt) :
    PlainText (inserted sDate sFolder bTimeStamp sExt) := by
  have hdot : isSlash dot = false ∧ dot ≠ colon := by decide
  have happend : ∀ s t : CString, PlainText s → PlainText t → PlainText (s ++ t) := by
    intro s t hs ht c hc
    exact (List.mem_append.1 hc).elim (hs c) (ht c)
  have hcons : ∀ s : CString, PlainText s → PlainText (dot :: s) := by
    intro s hs c hc
    rcases List.mem_cons.1 hc with rfl | hc
    · exact hdot
    · exact hs c hc
  have hpart : ∀ s : CString, PlainText s → PlainText (extPart s) := by
    intro s hs
    cases s with
    | nil => exact hs
    | cons c s =>
      rw [extPart_cons]
      split
      · exact hs
      · exact hcons _ hs
  have hnil : PlainText [] := fun c hc => absurd hc List.not_mem_nil
  unfold inserted
  refine hpart _ (happend _ _ ?_ ?_)
  · split
    · split
      · have hbak : ∀ c ∈ [0x2e, 0x62, 0x61, 0x6b], isSlash c = false ∧ c ≠ colon := by decide
        exact hbak
      · exact hnil
    · split
      · exact hcons _ hext
      · exact hext
  · split
    · exact hcons _ hdate
    · exact hnil

theorem equal_inserted {s t u : CString} (h : equalNoCase lower (s ++ u ++ t) (s ++ t) = true) : u = [] := by
  have hlength := equalNoCase_length h
  simp only [List.length_append] at hlength
  exact List.length_eq_zero_iff.1 (by omega)

/-- In another folder the backup is the file when the folder is the file's, and nothing is put into the name. -/
theorem samePath_folder_iff (husual : Usual isspace lower sDate sFile sExt) (hfolder : sFolder ≠ [])
    (h : buildBackupPath shell isspace sDate sFile sFolder bTimeStamp sExt = some result) :
    SamePath folderAt lower result sFile ↔ folderAt (targetFolder shell sFile sFolder) = folderAt (folderText sFile) ∧
      inserted sDate sFolder bTimeStamp sExt = [] := by
  have htarget := isFolderText_slashed (targetFolder_last shell sFile hfolder)
  obtain ⟨c, hc, -⟩ := targetFolder_last shell sFile hfolder
  have hplain : ∀ c ∈ (parts sFile).szFile ++ inserted sDate sFolder bTimeStamp sExt ++ (parts sFile).szExt,
      isSlash c = false := by
    intro d hd
    rw [List.append_assoc, List.mem_append, List.mem_append] at hd
    rcases hd with hd | hd | hd
    · exact name_plain sFile d (List.mem_append_left _ hd)
    · exact (plain_inserted _ _ husual.date husual.ext d hd).1
    · exact name_plain sFile d (List.mem_append_right _ hd)
  have hcolon : (targetFolder shell sFile sFolder ++ ((parts sFile).szFile ++ inserted sDate sFolder bTimeStamp sExt ++
      (parts sFile).szExt))[1]? = some colon → 2 ≤ (targetFolder shell sFile sFolder).length := by
    intro hsecond
    by_contra hshort
    match hD : targetFolder shell sFile sFolder, hc, hshort with
    | [x], _, _ =>
      rw [hD] at hsecond
      have hhead : ((parts sFile).szFile ++ (inserted sDate sFolder bTimeStamp sExt ++ (parts sFile).szExt)).head? =
          some colon := by
        rw [← List.append_assoc, List.head?_eq_getElem?]
        exact hsecond
      rw [List.head?_append, List.head?_append] at hhead
      rcases Option.or_eq_some_iff.1 hhead with hname | ⟨-, hhead⟩
      · exact husual.name hname
      · rcases Option.or_eq_some_iff.1 hhead with hins | ⟨-, hext⟩
        · exact absurd (extPart_head _ colon hins) (by decide)
        · exact absurd (parts_ext sFile colon hext) (by decide)
    | x :: y :: D, _, hshort => exact hshort (Nat.le_add_left 2 D.length)
  obtain ⟨hresult, hname, -⟩ := parts_append htarget hplain hcolon
  rw [← buildBackupPath_folder hfolder h] at hresult hname
  constructor
  · rintro ⟨hat, hsame⟩
    rw [hresult] at hat
    rw [hname] at hsame
    exact ⟨hat, equal_inserted hsame⟩
  · rintro ⟨hat, hnil⟩
    refine ⟨by rw [hresult, hat], ?_⟩
    rw [hname, hnil, List.append_nil]
    exact equalNoCase_refl

/-- Where the second letter of a longer text is a colon, it is that of the drive. -/
theorem second_colon {t P w : CString} (hP : P <+: t) (hw : w[0]? ≠ some colon ∧ w[1]? ≠ some colon)
    (h : (P ++ w)[1]? = some colon) : 2 ≤ (folderText t).length := by
  obtain ⟨rest, rfl⟩ := hP
  match P, h with
  | [], h => exact absurd h hw.2
  | [x], h => exact absurd h hw.1
  | x :: y :: P, h => exact drive_length (s := x :: y :: P ++ rest) h

theorem inserted_here (sDate : CString) (bTimeStamp : Bool) (sExt : CString) :
    ∃ u, inserted sDate [] bTimeStamp sExt = dot :: u := by
  cases hins : inserted sDate [] bTimeStamp sExt with
  | nil => exact absurd rfl (inserted_eq_nil.1 hins).2.2
  | cons c u =>
    have hhead := extPart_head _ c (congrArg List.head? hins)
    exact ⟨u, by rw [hhead]⟩

/-- The path without the blanks at its end. -/
structure Cut (isspace : TCHAR → Bool) (sFile t blanks : CString) : Prop where
  join : sFile = t ++ blanks
  blank : ∀ c ∈ blanks, isspace c = true
  last : ∀ c ∈ t.getLast?, isspace c = false

theorem cut_trimRight (isspace : TCHAR → Bool) (sFile : CString) :
    Cut isspace sFile (sFile.rdropWhile isspace) (sFile.rtakeWhile isspace) := by
  refine ⟨?_, fun c hc => List.mem_rtakeWhile_imp hc, getLast_rdropWhile⟩
  rw [List.rdropWhile_append_rtakeWhile]

theorem Cut.ext_last {t blanks : CString} (h : Cut isspace sFile t blanks) :
    ∀ c ∈ (parts t).szExt.getLast?, isspace c = false := by
  intro c hc
  apply h.last
  rw [← stem_join t]
  exact List.mem_getLast?_append_of_mem_getLast? hc

theorem Cut.nameText {t blanks : CString} (h : Cut isspace sFile t blanks)
    (husual : Usual isspace lower sDate sFile sExt) :
    nameText sFile = nameText t ++ blanks := by
  have hjoin : sFile = folderText t ++ (FileMisc.nameText t ++ blanks) := by
    rw [← List.append_assoc, folder_name_join]
    exact h.join
  have hplain : ∀ c ∈ FileMisc.nameText t ++ blanks, isSlash c = false := by
    intro c hc
    rcases List.mem_append.1 hc with hc | hc
    · exact name_plain t c hc
    · by_contra hslash
      have hnot := husual.slash c (eq_true_of_ne_false hslash)
      rw [h.blank c hc] at hnot
      exact Bool.noConfusion hnot
  have hblank : ∀ i : ℕ, blanks[i]? ≠ some colon := by
    intro i hi
    have hnot := husual.colon
    rw [h.blank colon (List.mem_of_getElem? hi)] at hnot
    exact Bool.noConfusion hnot
  have hname := (parts_append (isFolderText_parts t) hplain fun hsecond => by
    rw [← hjoin, h.join] at hsecond
    exact second_colon (List.prefix_refl t) ⟨hblank 0, hblank 1⟩ hsecond).2.1
  rw [← hjoin] at hname
  exact hname

/-- Beside the file the name is the file's without its blanks, with a dot and more in front of its extension. -/
theorem buildBackupPath_here (h : buildBackupPath shell isspace sDate sFile [] bTimeStamp sExt = some result) :
    ∃ t blanks u, Cut isspace sFile t blanks ∧ inserted sDate [] bTimeStamp sExt = dot :: u ∧
      result = folderText t ++ (parts t).szFile ++ (dot :: u ++ (parts t).szExt) := by
  have hcopy : copyPath shell isspace sFile [] = sFile.rdropWhile isspace := rfl
  obtain ⟨u, hu⟩ := inserted_here sDate bTimeStamp sExt
  have hresult := buildBackupPath_eq h
  rw [hcopy, hu] at hresult
  exact ⟨_, _, u, cut_trimRight isspace sFile, hu, hresult⟩

/-- What stands from the dot on has no colon in its second place. -/
theorem insertion_second {t u : CString} (hu : ∀ c ∈ u, c ≠ colon) : (dot :: u ++ (parts t).szExt)[1]? ≠ some colon := by
  intro hsecond
  have hhead : (u ++ (parts t).szExt).head? = some colon := by
    rw [List.head?_eq_getElem?]
    exact hsecond
  rw [List.head?_append] at hhead
  rcases Option.or_eq_some_iff.1 hhead with hhead | ⟨-, hhead⟩
  · exact hu colon (List.mem_of_mem_head? hhead) rfl
  · exact absurd (parts_ext t colon hhead) (by decide)

/-- Beside the file the name has another letter where the dot is put, or at its end. -/
theorem not_samePath_here (hdot : isspace dot = false) (husual : Usual isspace lower sDate sFile sExt)
    (h : buildBackupPath shell isspace sDate sFile [] bTimeStamp sExt = some result) :
    ¬ SamePath folderAt lower result sFile := by
  obtain ⟨t, blanks, u, hcut, hu, hresult⟩ := buildBackupPath_here h
  have hins := plain_inserted [] bTimeStamp husual.date husual.ext
  rw [hu] at hins
  have hplain : ∀ c ∈ (parts t).szFile ++ (dot :: u ++ (parts t).szExt), isSlash c = false := by
    intro c hc
    rw [List.mem_append, List.mem_append] at hc
    rcases hc with hc | hc | hc
    · exact name_plain t c (List.mem_append_left _ hc)
    · exact (hins c hc).1
    · exact name_plain t c (List.mem_append_right _ hc)
  have hfirst : some dot ≠ some colon := by decide
  have hcolon : (dot :: u ++ (parts t).szExt)[1]? ≠ some colon :=
    insertion_second fun c hc => (hins c (List.mem_cons_of_mem dot hc)).2
  rw [List.append_assoc] at hresult
  have hname := (parts_append (isFolderText_parts t) hplain fun hsecond => by
    rw [← List.append_assoc] at hsecond
    exact second_colon ⟨(parts t).szExt, stem_join t⟩ ⟨hfirst, hcolon⟩ hsecond).2.1
  rw [← hresult] at hname
  intro hsame
  have hletters : (nameText result).map lower = (nameText sFile).map lower := eq_of_beq hsame.name
  rw [hname, hcut.nameText husual] at hletters
  unfold nameText at hletters
  have hsplit : ∀ x y : CString, (x ++ y).map lower = x.map lower ++ y.map lower := fun x y => List.map_append
  rw [List.append_assoc, hsplit, hsplit (parts t).szFile (_ ++ blanks)] at hletters
  exact blanks_differ husual.lower hdot hcut.ext_last hcut.blank (List.append_cancel_left hletters)

theorem backup_ne_here (hdot : isspace dot = false)
    (h : buildBackupPath shell isspace sDate sFile [] bTimeStamp sExt = some result) : result ≠ sFile := by
  obtain ⟨t, blanks, u, hcut, -, hresult⟩ := buildBackupPath_here h
  intro hsame
  rw [hsame, hcut.join] at hresult
  have hletters : dot :: u ++ (parts t).szExt = (parts t).szExt ++ blanks := by
    rw [← congrArg (· ++ blanks) (stem_join t), List.append_assoc] at hresult
    exact (List.append_cancel_left hresult).symm
  exact blanks_differ (fun c => rfl) hdot hcut.ext_last hcut.blank (congrArg (List.map fun c => c) hletters)

theorem backup_eq_iff (hfolder : sFolder ≠ [])
    (h : buildBackupPath shell isspace sDate sFile sFolder bTimeStamp sExt = some result) :
    result = sFile ↔ targetFolder shell sFile sFolder ++ (parts sFile).szFile ++ inserted sDate sFolder bTimeStamp sExt =
      folderText sFile ++ (parts sFile).szFile := by
  have hresult := buildBackupPath_folder hfolder h
  rw [← List.append_assoc, ← List.append_assoc] at hresult
  constructor
  · intro hsame
    exact List.append_cancel_right (hresult.symm.trans (hsame.trans (stem_join sFile).symm))
  · intro hstem
    rw [hresult, hstem]
    exact stem_join sFile

/-- The backup path differs from that of the file, unless an absolute folder and the name with what is put into it are
the text in front of the file's extension; and it is another file, unless the folder is the file's own and there is
neither a time stamp nor an extension. -/
theorem buildBackupPath_iff (folderAt : CString → φ) (lower : TCHAR → TCHAR) (hdot : isspace dot = false)
    (h : buildBackupPath shell isspace sDate sFile sFolder bTimeStamp sExt = some result) :
    (result ≠ sFile ↔ ¬ (sFolder ≠ [] ∧ shell.PathIsRelative sFolder = false ∧
      dirPart sFolder ++ (parts sFile).szFile ++ inserted sDate sFolder bTimeStamp sExt =
        folderText sFile ++ (parts sFile).szFile)) ∧
    (Usual isspace lower sDate sFile sExt → (¬ SamePath folderAt lower result sFile ↔
      bTimeStamp = true ∨ sExt ≠ [] ∨ sFolder = [] ∨
        folderAt (targetFolder shell sFile sFolder) ≠ folderAt (folderText sFile))) := by
  by_cases hfolder : sFolder = []
  · subst hfolder
    refine ⟨iff_of_true (backup_ne_here hdot h) fun hbad => hbad.1 rfl, fun husual => ?_⟩
    exact iff_of_true (not_samePath_here hdot husual h) (Or.inr (Or.inr (Or.inl rfl)))
  · refine ⟨not_congr ?_, fun husual => ?_⟩
    · rw [backup_eq_iff hfolder h]
      cases hrel : shell.PathIsRelative sFolder with
      | true =>
        -- the folder makes the text longer
        refine iff_of_false (fun hstem => ?_) fun hbad => Bool.noConfusion hbad.2.1
        have hlonger := targetFolder_relative sFile hfolder hrel
        have hlength := congrArg List.length hstem
        simp only [List.length_append] at hlength
        omega
      | false =>
        have htarget : targetFolder shell sFile sFolder = dirPart sFolder :=
          if_neg (by rw [hrel]; exact Bool.false_ne_true)
        rw [htarget]
        exact ⟨fun hstem => ⟨hfolder, rfl, hstem⟩, fun hbad => hbad.2.2⟩
    · rw [samePath_folder_iff husual hfolder h, inserted_eq_nil]
      have hnone : (bTimeStamp = false ∧ sExt = [] ∧ sFolder ≠ []) ↔ ¬ (bTimeStamp = true ∨ sExt ≠ []) := by
        rw [not_or, not_not, Bool.not_eq_true]
        exact and_congr_right fun _ => and_iff_left hfolder
      rw [hnone, not_and_or, not_not, or_comm, or_assoc, or_iff_right hfolder]

end Overwrites

/-- The file `C:\d\f.t`. -/
def sampleFile : CString := [0x43, 0x3a, 0x5c, 0x64, 0x5c, 0x66, 0x2e, 0x74]

theorem sampleBackup :
    buildBackupPath sampleShell isBlank [] sampleFile driveFolder false [] = some sampleFile := by decide

theorem buildBackupPath_sample :
    (sampleFile ≠ sampleFile ↔ ¬ (driveFolder ≠ [] ∧ sampleShell.PathIsRelative driveFolder = false ∧
      dirPart driveFolder ++ (parts sampleFile).szFile ++ inserted [] driveFolder false [] =
        folderText sampleFile ++ (parts sampleFile).szFile)) ∧
    (Usual isBlank lowerLetter [] sampleFile [] → (¬ SamePath (fun D => D) lowerLetter sampleFile sampleFile ↔
      false = true ∨ ([] : CString) ≠ [] ∨ driveFolder = [] ∨
        targetFolder sampleShell sampleFile driveFolder ≠ folderText sampleFile)) :=
  buildBackupPath_iff (fun D => D) lowerLetter (by decide) sampleBackup

/-- With the file's own folder and nothing else the backup is the file. -/
theorem ownFolder_overwrites : ¬ ∀ (shell : Shell) (isspace : TCHAR → Bool) (sDate sFile sFolder : CString)
    (bTimeStamp : Bool) (sExt result : CString), isspace dot = false →
    buildBackupPath shell isspace sDate sFile sFolder bTimeStamp sExt = some result → result ≠ sFile := by
  intro hall
  exact hall sampleShell isBlank [] sampleFile driveFolder false [] sampleFile (by decide) sampleBackup rfl

end StarLib.FileMisc
