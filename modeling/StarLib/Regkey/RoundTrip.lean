import StarLib.Regkey.IniFile

/-! # Importing what was exported

The lines of the sections are imported section by section. From an empty key this builds the tree, where all of it
was written.
-/

namespace StarLib.Regkey.IniFile
open Foundations
set_option autoImplicit false
set_option maxHeartbeats 250000
set_option maxRecDepth 120000

/-! ## A section is imported -/

/-- What the import of a section does to the keys. -/
def writeSection (keys : Keys) (s : Section) : Keys :=
  s.2.foldl (fun keys v => setValue keys s.1 v) (createKey keys s.1)

theorem heading_solid (p : CString) : Solid (sectionHeading p) := by
  have hopen : Solid [0x5b] := ⟨List.cons_ne_nil _ _, by decide, by decide⟩
  have hclose : Solid [0x5d] := ⟨List.cons_ne_nil _ _, by decide, by decide⟩
  exact hopen.append hclose p

theorem importLines_heading (key : Option (List CString)) (p : CString) (file : List CString) (keys : Keys) :
    importLines key (sectionHeading p :: file) keys = ⟨true, p, file, keys⟩ := by
  have hfirst : (sectionHeading p).head? = some 0x5b := rfl
  have hlast : (sectionHeading p).getLast? = some 0x5d := List.getLast?_concat
  have hmiddle : ((sectionHeading p).drop 1).take ((sectionHeading p).length - 2) = p := by
    have hlength : (sectionHeading p).length - 2 = p.length := by simp [sectionHeading]
    rw [hlength]
    exact List.take_left
  unfold importLines
  simp only
  rw [(heading_solid p).trim_self, if_neg (heading_solid p).nonempty, if_pos hfirst, if_pos hlast, hmiddle]

theorem importLines_values (path : List CString) {values : List (CString × Value)} (hvalues : ∀ v ∈ values, NameOk v.1)
    (file : List CString) (keys : Keys) :
    importLines (some path) (values.map valueLine ++ file) keys =
      importLines (some path) file (values.foldl (fun keys v => setValue keys path v) keys) := by
  induction values generalizing keys with
  | nil => rfl
  | cons v values ih =>
    have hv := hvalues v List.mem_cons_self
    have hsolid := valueLine_solid hv
    have hhead : (valueLine v).head? ≠ some 0x5b := by
      unfold valueLine
      rw [List.append_assoc, List.head?_append_of_ne_nil _ hv.solid.nonempty]
      exact hv.noBracket
    rw [List.map_cons, List.cons_append, List.foldl_cons, ← ih fun w hw => hvalues w (List.mem_cons_of_mem v hw)]
    show (let sLine := trim (valueLine v); if sLine = [] then _ else _) = _
    simp only
    rw [hsolid.trim_self, if_neg hsolid.nonempty, if_neg hhead, importValue_line hv]

/-- A section that can be read back. -/
structure SectionOk (s : Section) : Prop where
  path : s.1 ≠ []
  names : ∀ n ∈ s.1, n ≠ [] ∧ 0x5c ∉ n
  values : ∀ v ∈ s.2, NameOk v.1

theorem SectionOk.pathText_ne_nil {s : Section} (hs : SectionOk s) : pathText s.1 ≠ [] := by
  obtain ⟨path, values⟩ := s
  cases path with
  | nil => exact absurd rfl hs.path
  | cons n path =>
    have hn := (hs.names n List.mem_cons_self).1
    cases path with
    | nil =>
      show [0x5c].intercalate [n] ≠ []
      rwa [List.intercalate_singleton]
    | cons m path =>
      show [0x5c].intercalate (n :: m :: path) ≠ []
      rw [List.intercalate_cons_cons]
      simp [hn]

theorem SectionOk.splitOn {s : Section} (hs : SectionOk s) : (pathText s.1).splitOn 0x5c = s.1 :=
  List.splitOn_intercalate 0x5c (fun n hn => (hs.names n hn).2) hs.path

theorem importSections_run {secs : List Section} {s : Section} (hs : ∀ s' ∈ s :: secs, SectionOk s') {fuel : ℕ}
    (hfuel : secs.length < fuel) (keys : Keys) :
    importSections fuel (pathText s.1) (s.2.map valueLine ++ secs.flatMap sectionLines) keys =
      some (true, (s :: secs).foldl writeSection keys) := by
  induction secs generalizing s fuel keys with
  | nil =>
    obtain ⟨fuel, rfl⟩ : ∃ m, fuel = m + 1 := ⟨fuel - 1, by omega⟩
    have hok := hs s List.mem_cons_self
    have hsection : importSectionFromIni (pathText s.1) (s.2.map valueLine ++ [].flatMap sectionLines) keys =
        ⟨true, [], [], writeSection keys s⟩ := by
      unfold importSectionFromIni
      rw [if_neg hok.pathText_ne_nil]
      simp only
      rw [hok.splitOn, importLines_values _ hok.values]
      rfl
    unfold importSections
    simp only
    rw [hsection]
    exact if_neg fun h => h.2 rfl
  | cons s' secs ih =>
    obtain ⟨fuel, rfl⟩ : ∃ m, fuel = m + 1 := ⟨fuel - 1, by omega⟩
    have hok := hs s List.mem_cons_self
    have hok' := hs s' (List.mem_cons_of_mem s List.mem_cons_self)
    rw [List.length_cons] at hfuel
    have hnext := ih (fun s'' hs'' => hs s'' (List.mem_cons_of_mem s hs'')) (show secs.length < fuel by omega)
      (writeSection keys s)
    have hsection : importSectionFromIni (pathText s.1) (s.2.map valueLine ++ (s' :: secs).flatMap sectionLines) keys =
        ⟨true, pathText s'.1, s'.2.map valueLine ++ secs.flatMap sectionLines, writeSection keys s⟩ := by
      unfold importSectionFromIni
      rw [if_neg hok.pathText_ne_nil]
      simp only
      rw [hok.splitOn, importLines_values _ hok.values, List.flatMap_cons]
      exact importLines_heading _ _ _ _
    unfold importSections
    simp only
    rw [hsection]
    simp only
    rw [if_pos ⟨trivial, hok'.pathText_ne_nil⟩]
    exact hnext

theorem importSections_all {secs : List Section} (hs : ∀ s ∈ secs, SectionOk s) {fuel : ℕ} (hfuel : secs.length < fuel)
    (keys : Keys) :
    importSections fuel [] (secs.flatMap sectionLines) keys = some (true, secs.foldl writeSection keys) := by
  obtain ⟨fuel, rfl⟩ : ∃ m, fuel = m + 1 := ⟨fuel - 1, by omega⟩
  cases secs with
  | nil => rfl
  | cons s secs =>
    have hroot : importSectionFromIni [] ((s :: secs).flatMap sectionLines) keys =
        ⟨true, pathText s.1, s.2.map valueLine ++ secs.flatMap sectionLines, keys⟩ := importLines_heading none _ _ keys
    rw [List.length_cons] at hfuel
    unfold importSections
    simp only
    rw [hroot]
    simp only
    rw [if_pos ⟨trivial, (hs s List.mem_cons_self).pathText_ne_nil⟩]
    exact importSections_run hs (by omega) keys

/-! ## Trees -/

def Subkeys.names : Subkeys → List CString
  | .none => []
  | .key name _ _ rest => name :: rest.names

/-- No line breaks in a string. -/
def ValueOk : Value → Prop
  | .dword _ => True
  | .sz s => 0x0a ∉ s ∧ 0x0d ∉ s

/-- Every key has values, the names are as they should be, no two keys of a list and no two values of a key have the
same name, and no key has a backslash in its name. -/
def WellFormed : Subkeys → Prop
  | .none => True
  | .key name values subkeys rest =>
    (NameOk name ∧ 0x5c ∉ name) ∧ values ≠ [] ∧ (∀ v ∈ values, NameOk v.1 ∧ ValueOk v.2) ∧ (values.map Prod.fst).Nodup ∧
      name ∉ rest.names ∧ WellFormed subkeys ∧ WellFormed rest

theorem exportValue_noBreak {cs : CharSet} {v : CString × Value} (hv : NameOk v.1 ∧ ValueOk v.2) :
    0x0a ∉ valueLine (v.1, readValue cs v.2) := by
  obtain ⟨n, v⟩ := v
  obtain ⟨hname, hvalue⟩ := hv
  have htext : 0x0a ∉ valueText (readValue cs v) := by
    cases v with
    | dword v =>
      show 0x0a ∉ intText v
      have hdigits : 0x0a ∉ (numeral 10 v.toInt.natAbs).map (0x30 + ·) := fun h => absurd (digits_chars _ h) (by decide)
      unfold intText
      simp only
      split
      · intro h
        rcases List.mem_cons.1 h with h | h
        · exact absurd h (by decide)
        · exact hdigits h
      · exact hdigits
    | sz s =>
      have hread : 0x0a ∉ readString cs s := by
        unfold readString
        split
        · exact hvalue.1
        · exact List.not_mem_nil
      show 0x0a ∉ 0x22 :: readString cs s ++ [0x22]
      simp [hread]
  unfold valueLine
  rw [List.mem_append, List.mem_append]
  rintro ((h | h) | h)
  · exact hname.noBreak.1 h
  · exact absurd h (by decide)
  · exact htext h

/-- What holds of every section that is written. -/
theorem written_all (cs : CharSet) {P : Section → Prop} {t : Subkeys} (ht : WellFormed t) {pre : List CString}
    {Q : CString → Prop} (hpre : ∀ n ∈ pre, Q n) (hname : ∀ n, NameOk n → 0x5c ∉ n → enumerated n = true → Q n)
    (hP : ∀ (path : List CString) (values : List (CString × Value)), path ≠ [] → (∀ n ∈ path, Q n) → (∀ v ∈ values, NameOk v.1 ∧ ValueOk v.2) →
      P (path, (values.takeWhile fun v => enumerated v.1).map fun v => (v.1, readValue cs v.2))) :
    ∀ s ∈ written cs pre t, P s := by
  induction t generalizing pre with
  | none => exact fun s hs => absurd hs List.not_mem_nil
  | key name values subkeys rest ihSub ihRest =>
    obtain ⟨⟨hok, hslash⟩, -, hvalues, -, -, hsub, hrest⟩ := ht
    unfold written
    by_cases henum : enumerated name = true
    · have hpre' : ∀ n ∈ pre ++ [name], Q n := by
        intro n hn
        rcases List.mem_append.1 hn with hn | hn
        · exact hpre n hn
        · rw [List.mem_singleton.1 hn]
          exact hname name hok hslash henum
      rw [if_pos henum]
      intro s hs
      rcases List.mem_append.1 hs with hs | hs
      · rcases List.mem_append.1 hs with hs | hs
        · split at hs
          · rw [List.mem_singleton.1 hs]
            exact hP _ _ (by simp) hpre' hvalues
          · exact absurd hs List.not_mem_nil
        · exact ihSub hsub hpre' s hs
      · exact ihRest hrest hpre s hs
    · rw [if_neg henum]
      exact fun s hs => absurd hs List.not_mem_nil

theorem written_ok (cs : CharSet) {t : Subkeys} (ht : WellFormed t) : ∀ s ∈ written cs [] t, SectionOk s := by
  refine written_all cs ht (Q := fun n => n ≠ [] ∧ 0x5c ∉ n) (fun n hn => absurd hn List.not_mem_nil)
    (fun n hn hslash _ => ⟨hn.solid.nonempty, hslash⟩) fun path values hpath hnames hvalues => ?_
  refine ⟨hpath, hnames, fun v hv => ?_⟩
  obtain ⟨w, hw, rfl⟩ := List.mem_map.1 hv
  exact (hvalues w ((List.takeWhile_sublist _).subset hw)).1

theorem pathText_noBreak {path : List CString} (hpath : ∀ n ∈ path, 0x0a ∉ n) : 0x0a ∉ pathText path := by
  unfold pathText
  induction path with
  | nil => exact List.not_mem_nil
  | cons n path ih =>
    cases path with
    | nil =>
      rw [List.intercalate_singleton]
      exact hpath n List.mem_cons_self
    | cons m path =>
      rw [List.intercalate_cons_cons, List.mem_append, List.mem_append]
      rintro ((h | h) | h)
      · exact hpath n List.mem_cons_self h
      · exact absurd h (by decide)
      · exact ih (fun n' hn' => hpath n' (List.mem_cons_of_mem n hn')) h

theorem written_noBreak (cs : CharSet) {t : Subkeys} (ht : WellFormed t) :
    ∀ line ∈ (written cs [] t).flatMap sectionLines, 0x0a ∉ line := by
  have hsections : ∀ s ∈ written cs [] t, ∀ line ∈ sectionLines s, 0x0a ∉ line := by
    refine written_all cs ht (Q := fun n => 0x0a ∉ n) (fun n hn => absurd hn List.not_mem_nil)
      (fun n hn _ _ => hn.noBreak.1) fun path values _ hnames hvalues => ?_
    intro line hline
    rcases List.mem_cons.1 hline with rfl | hline
    · have hpath := pathText_noBreak hnames
      simp [sectionHeading, hpath]
    · obtain ⟨v, hv, rfl⟩ := List.mem_map.1 hline
      obtain ⟨w, hw, rfl⟩ := List.mem_map.1 hv
      exact exportValue_noBreak (hvalues w ((List.takeWhile_sublist _).subset hw))
  intro line hline
  obtain ⟨s, hs, hline⟩ := List.mem_flatMap.1 hline
  exact hsections s hs line hline

/-- The import of an exported tree writes its sections. -/
theorem import_export (cs : CharSet) {t : Subkeys} (ht : WellFormed t) (keys : Keys) :
    importFromIni (exportToIni cs t) keys = some (true, (written cs [] t).foldl writeSection keys) := by
  have hfile : exportToIni cs t = ((written cs [] t).flatMap sectionLines).flatMap (· ++ [0x0a]) :=
    exportKeysToIni_eq cs t [] none fun name => List.intercalate_singleton
  unfold importFromIni
  rw [hfile, readLines_lines (written_noBreak cs ht)]
  refine importSections_all (written_ok cs ht) ?_ keys
  have hcount : ∀ secs : List Section, secs.length ≤ (secs.flatMap sectionLines).length := by
    intro secs
    induction secs with
    | nil => exact Nat.le_refl 0
    | cons s secs ih =>
      rw [List.flatMap_cons, List.length_append, List.length_cons]
      have hone : 0 < (sectionLines s).length := Nat.succ_pos _
      omega
  exact Nat.lt_succ_of_le (hcount _)

end StarLib.Regkey.IniFile
