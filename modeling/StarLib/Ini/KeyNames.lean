import StarLib.Ini.Growing
import StarLib.Ini.SplitBounds

/-! # The key names of a section

`CIni::GetKeyNames` hands the key lines to `__KeyPairProc` one by one, which moves on the target and counts down the
room that is left. The terminator that `GetKeyNames` itself writes has no room of its own.
-/

namespace StarLib.Ini
open Foundations
set_option autoImplicit false
set_option maxHeartbeats 250000
set_option maxRecDepth 120000

/-- `STR_LIMIT`. The target is an index into the buffer, if there is one. -/
structure StrLimit where
  lpBuffer : Option (Buf TCHAR)
  lpTarget : ℕ
  dwRemain : ℕ
  dwTotalCopied : ℕ

/-- What stands before the first `=`. A line without a name is skipped. -/
def keyName (lpString : CString) : Option CString :=
  if 0x3d ∉ lpString ∨ lpString.head? = some 0x3d then none else some (lpString.takeWhile (· ≠ 0x3d))

/-- The second half of `CIni::__KeyPairProc`, for a trimmed name. -/
def storeName (build : Build) (psl : StrLimit) (psz : CString) : Option StrLimit :=
  let dwNameLen := psz.length
  match psl.lpBuffer with
  | some b =>
    let dwCopyLen := if 1 < psl.dwRemain then min dwNameLen (psl.dwRemain - 1) else 0
    (boundedCopy build b psl.lpTarget dwCopyLen psz dwCopyLen).map fun b =>
      ⟨some (b.put (psl.lpTarget + dwCopyLen) 0), psl.lpTarget + dwCopyLen + 1,
        dword (psl.dwRemain + 2 ^ 32 - (dwCopyLen + 1)), dword (psl.dwTotalCopied + dwCopyLen + 1)⟩
  | none => some { psl with dwTotalCopied := dword (psl.dwTotalCopied + dwNameLen + 1) }

def keyPairProc (build : Build) (psl : StrLimit) (lpString : CString) : Option StrLimit :=
  match keyName lpString with
  | none => some psl
  | some name => (trimString build name).bind (storeName build psl)

/-- `CIni::GetKeyNames`: the result, and the buffer afterwards. -/
def getKeyNames (build : Build) (fuel : ℕ) (t : IniText) (lpSection : Option CString) (lpBuffer : Option (Buf TCHAR))
    (dwBufSize : ℕ) : Option (ℕ × Option (Buf TCHAR)) :=
  let lpBuffer := lpBuffer.map fun b => b.put 0 0
  match lpSection with
  | none => some (0, lpBuffer)
  | some sec =>
    (getKeyLines fuel t (some sec)).bind fun LEN =>
      if LEN = 0 then some (0, lpBuffer)
      else
        let psz := (getKeyLinesInto t (some sec) LEN).1
        ((parseDNTString psz.length psz).foldlM (keyPairProc build) ⟨lpBuffer, 0, dwBufSize, 0⟩).map fun sl =>
          (sl.dwTotalCopied, sl.lpBuffer.map fun b => b.put sl.dwTotalCopied 0)

/-- The key names of some lines, on paper. -/
def keyNames (lines : List CString) : List CString := (lines.filterMap keyName).map blankTrim

/-- Every write was inside, and the first names are left with their terminators. -/
def KeyNamesOk (names : List CString) (r : Option (ℕ × Option (Buf TCHAR))) : Prop :=
  ∃ n b, r = some (n, some b) ∧ b.inside = true ∧ ∃ us, us <+: names ∧ Begins b (image us ++ [0])

/-! ## The names of the lines -/

theorem keyPairProc_names (build : Build) (lines : List CString) (psl : StrLimit) :
    lines.foldlM (keyPairProc build) psl =
      (lines.filterMap keyName).foldlM (fun psl name => (trimString build name).bind (storeName build psl)) psl := by
  induction lines generalizing psl with
  | nil => rfl
  | cons line lines ih =>
    rw [List.foldlM_cons, List.filterMap_cons]
    unfold keyPairProc
    cases keyName line with
    | none => exact ih psl
    | some name =>
      rw [List.foldlM_cons]
      exact congrArg (Option.bind _) (funext ih)

/-- The empty lines, which end a list, have no name. -/
theorem names_nonempty (lines : List CString) : (lines.filter (· ≠ [])).filterMap keyName = lines.filterMap keyName := by
  rw [List.filterMap_filter]
  refine List.filterMap_congr fun line _ => ?_
  by_cases hline : line = []
  · rw [hline]
    rfl
  · rw [if_pos (decide_eq_true hline)]

theorem keyName_sublist {line name : CString} (h : keyName line = some name) : name.Sublist line := by
  unfold keyName at h
  split at h
  · exact absurd h nofun
  · rw [← Option.some.inj h]
    exact List.takeWhile_sublist _

/-! ## The room that is left -/

section Storing
variable {dwBufSize : ℕ} {b : Buf TCHAR} {psl psl' : StrLimit} {out name : CString}

/-- `out` is written from the start of the buffer; what may follow it is still inside. -/
structure Stored (dwBufSize : ℕ) (out : CString) (psl : StrLimit) : Prop where
  holds : ∃ b r, psl.lpBuffer = some b ∧ b.Holds dwBufSize (out ++ r) ∧ (out ++ r).length ≤ dwBufSize
  target : psl.lpTarget = out.length
  remain : psl.dwRemain = dwBufSize - out.length
  total : psl.dwTotalCopied = out.length

/-- A write was outside, or the terminator will be: the room is used up. -/
def Overrun (dwBufSize : ℕ) (psl : StrLimit) : Prop :=
  ∃ b, psl.lpBuffer = some b ∧ b.len = dwBufSize ∧
    (b.inside = false ∨ psl.lpTarget = dwBufSize ∧ psl.dwRemain = 0 ∧ psl.dwTotalCopied = dwBufSize)

theorem storeName_plain (hbuffer : psl.lpBuffer = some b) {n : ℕ}
    (hn : (if 1 < psl.dwRemain then min name.length (psl.dwRemain - 1) else 0) = n) :
    storeName .plain psl name =
      some ⟨some ((b.strncpy psl.lpTarget name n).put (psl.lpTarget + n) 0), psl.lpTarget + n + 1,
        dword (psl.dwRemain + 2 ^ 32 - (n + 1)), dword (psl.dwTotalCopied + n + 1)⟩ := by
  unfold storeName
  rw [hbuffer]
  simp only [hn]
  rfl

theorem Stored.fits (h : Stored dwBufSize out psl) (hsize : dwBufSize < 2 ^ 32)
    (hfits : (out ++ name ++ [0]).length ≤ dwBufSize) :
    ∃ psl', storeName .plain psl name = some psl' ∧ Stored dwBufSize (out ++ name ++ [0]) psl' := by
  obtain ⟨⟨b, r, hbuffer, hr, hcap⟩, htarget, hremain, htotal⟩ := h
  have hlength : (out ++ name ++ [0]).length = out.length + name.length + 1 := by
    rw [List.length_append, List.length_append, List.length_singleton]
  rw [hlength] at hfits
  have hn : (if 1 < psl.dwRemain then min name.length (psl.dwRemain - 1) else 0) = name.length := by
    rw [hremain]
    split <;> omega
  have hholds := ((hr.start hcap).strncpy name).put 0
  rw [List.length_append] at hholds
  refine ⟨_, storeName_plain hbuffer hn, ⟨_, [], rfl, ?_, ?_⟩, ?_, ?_, ?_⟩
  · rw [List.append_nil, htarget]
    exact hholds
  · rw [List.append_nil, hlength]
    exact hfits
  · rw [hlength, htarget]
  · show dword (psl.dwRemain + 2 ^ 32 - (name.length + 1)) = _
    rw [hlength, hremain]
    unfold dword
    omega
  · rw [hlength, htotal]
    exact dword_of_lt (by omega)

theorem Stored.overruns (h : Stored dwBufSize out psl) (hsize : dwBufSize < 2 ^ 32)
    (hover : dwBufSize < (out ++ name ++ [0]).length) :
    ∃ psl', storeName .plain psl name = some psl' ∧ Overrun dwBufSize psl' := by
  obtain ⟨⟨b, r, hbuffer, hr, hcap⟩, htarget, hremain, htotal⟩ := h
  rw [List.length_append, List.length_append, List.length_singleton] at hover
  have hout : out.length ≤ dwBufSize := (List.prefix_append out r).length_le.trans hcap
  have hlen : ∀ n i, ((b.strncpy psl.lpTarget name n).put i 0).len = dwBufSize :=
    fun n i => (strncpy_len _ _ _ _).trans hr.len
  have hn : (if 1 < psl.dwRemain then min name.length (psl.dwRemain - 1) else 0) = dwBufSize - out.length - 1 := by
    rw [hremain]
    split <;> omega
  refine ⟨_, storeName_plain hbuffer hn, ⟨_, rfl, hlen _ _, ?_⟩⟩
  by_cases hfull : out.length = dwBufSize
  · refine Or.inl (put_past _ ?_ _)
    rw [strncpy_len, hr.len, htarget]
    omega
  · refine Or.inr ⟨?_, ?_, ?_⟩
    · simp only [htarget]
      omega
    · simp only [hremain]
      unfold dword
      omega
    · simp only [htotal]
      exact (dword_of_lt (by omega)).trans (by omega)

theorem Overrun.step (h : Overrun dwBufSize psl) (name : CString) :
    ∃ psl', storeName .plain psl name = some psl' ∧ Overrun dwBufSize psl' := by
  obtain ⟨b, hbuffer, hlen, hover⟩ := h
  refine ⟨_, storeName_plain hbuffer rfl, ⟨_, rfl, (strncpy_len _ _ _ _).trans hlen, Or.inl ?_⟩⟩
  cases hover with
  | inl houtside => exact put_outside (strncpy_outside houtside _ _ _) _ _
  | inr hfull =>
    refine put_past _ ?_ _
    rw [strncpy_len, hlen, hfull.1]
    exact Nat.le_add_right _ _

theorem Overrun.rest (h : Overrun dwBufSize psl) (names : List CString) :
    ∃ psl', names.foldlM (storeName .plain) psl = some psl' ∧ Overrun dwBufSize psl' := by
  induction names generalizing psl with
  | nil => exact ⟨psl, rfl, h⟩
  | cons name names ih =>
    obtain ⟨psl₁, hpsl₁, hover⟩ := h.step name
    obtain ⟨psl₂, hpsl₂, hover₂⟩ := ih hover
    refine ⟨psl₂, ?_, hover₂⟩
    rw [List.foldlM_cons, hpsl₁]
    exact hpsl₂

/-- All names with their terminators are stored, or the room was not enough. -/
theorem Stored.rest {names : List CString} (h : Stored dwBufSize out psl) (hsize : dwBufSize < 2 ^ 32)
    (hnames : ∀ name ∈ names, name ≠ []) :
    ∃ psl', names.foldlM (storeName .plain) psl = some psl' ∧
      if (out ++ image names).length ≤ dwBufSize then Stored dwBufSize (out ++ image names) psl'
      else Overrun dwBufSize psl' := by
  induction names generalizing psl out with
  | nil =>
    obtain ⟨b, r, -, -, hcap⟩ := h.holds
    refine ⟨psl, rfl, ?_⟩
    have hnil : image [] = [] := rfl
    rw [hnil, List.append_nil, if_pos ((List.prefix_append out r).length_le.trans hcap)]
    exact h
  | cons name names ih =>
    rw [List.forall_mem_cons] at hnames
    rw [image_cons, image_single hnames.1, ← List.append_assoc, ← List.append_assoc]
    by_cases hfits : (out ++ name ++ [0]).length ≤ dwBufSize
    · obtain ⟨psl₁, hpsl₁, hstored⟩ := h.fits hsize hfits
      obtain ⟨psl₂, hpsl₂, hend⟩ := ih hstored hnames.2
      refine ⟨psl₂, ?_, hend⟩
      rw [List.foldlM_cons, hpsl₁]
      exact hpsl₂
    · obtain ⟨psl₁, hpsl₁, hover⟩ := h.overruns hsize (Nat.not_le.1 hfits)
      obtain ⟨psl₂, hpsl₂, hover₂⟩ := hover.rest names
      refine ⟨psl₂, ?_, ?_⟩
      · rw [List.foldlM_cons, hpsl₁]
        exact hpsl₂
      · rw [if_neg fun hle => hfits ((List.prefix_append _ _).length_le.trans hle)]
        exact hover₂

end Storing

/-! ## The whole function -/

section KeyNames
variable {build : Build} {t : IniText} {sec : CString} {lpBuffer : Buf TCHAR}

/-- When the names fit, for the plain copies: none is blank, and with one terminator each they leave a character free.
The secure copies have no room for a name at all. -/
def NamesFit (build : Build) (dwBufSize : ℕ) (lines : List CString) : Prop :=
  match build with
  | .plain =>
    (∀ name ∈ lines.filterMap keyName, ∃ c ∈ name, isBlank c = false) ∧ (image (keyNames lines)).length < dwBufSize
  | .secure => lines.filterMap keyName = []

/-- What `GetKeyNames` does with the names that it has found. -/
def namesRun (build : Build) (lpBuffer : Buf TCHAR) (names : List CString) : Option (ℕ × Option (Buf TCHAR)) :=
  (names.foldlM (fun psl name => (trimString build name).bind (storeName build psl))
    ⟨some (lpBuffer.put 0 0), 0, lpBuffer.len, 0⟩).map fun sl =>
      (sl.dwTotalCopied, sl.lpBuffer.map fun b => b.put sl.dwTotalCopied 0)

theorem getKeyNames_readable (h : ReadableList (image (t.lines (fold sec))))
    (hplain : ∀ line ∈ t.lines (fold sec), ∀ c ∈ line, c ≠ 0) :
    ∃ turns, ∀ fuel, turns ≤ fuel → getKeyNames build fuel t (some sec) (some lpBuffer) lpBuffer.len =
      namesRun build lpBuffer ((t.lines (fold sec)).filterMap keyName) := by
  refine ⟨(image (t.lines (fold sec))).length + 2, fun fuel hfuel => ?_⟩
  have hthreshold : threshold = 512 := rfl
  have hsize : getKeyLines fuel t (some sec) = some ((image (t.lines (fold sec))).length + 2) :=
    listSize_readable _ h (by rw [hthreshold]; omega)
  have hlines : (getKeyLinesInto t (some sec) ((image (t.lines (fold sec))).length + 2)).1 =
      image (t.lines (fold sec)) ++ [0] := congrArg Prod.fst (profileList_complete _)
  unfold getKeyNames namesRun
  simp only [Option.map_some]
  rw [hsize, Option.bind_some, if_neg (Nat.succ_ne_zero _), hlines,
    parse_image hplain [] (by rw [List.length_append]; exact Nat.lt_succ_self _), keyPairProc_names, names_nonempty]

theorem getKeyNames_endless (h : ¬ ReadableList (image (t.lines (fold sec)))) (fuel : ℕ) :
    getKeyNames build fuel t (some sec) (some lpBuffer) lpBuffer.len = none := by
  have hsize : getKeyLines fuel t (some sec) = none := listSize_endless _ h fuel
  unfold getKeyNames
  simp only
  rw [hsize, Option.bind_none]

theorem nonblank_names {names : List CString} (hlong : ∀ name ∈ names, name.length < 2 ^ 31)
    (hblank : ∀ name ∈ names, ∃ c ∈ name, isBlank c = false) (psl : StrLimit) :
    names.foldlM (fun psl name => (trimString .plain name).bind (storeName .plain psl)) psl =
      (names.map blankTrim).foldlM (storeName .plain) psl := by
  induction names generalizing psl with
  | nil => rfl
  | cons name names ih =>
    rw [List.forall_mem_cons] at hlong hblank
    have hne := (exists_nonblank_iff name).1 hblank.1
    have htrim : trimString .plain name = some (blankTrim name) := by
      rw [trimString_plain hlong.1, if_neg fun h => hne ((rdropWhile_eq_nil_iff name).2 h)]
    rw [List.map_cons, List.foldlM_cons, List.foldlM_cons, htrim, Option.bind_some]
    exact congrArg (Option.bind _) (funext fun psl' => ih hlong.2 hblank.2 psl')

/-- A blank name is trimmed to nothing, with a read before it. -/
theorem blank_name {names : List CString} (hlong : ∀ name ∈ names, name.length < 2 ^ 31)
    (hblank : ¬ ∀ name ∈ names, ∃ c ∈ name, isBlank c = false) (psl : StrLimit) :
    names.foldlM (fun psl name => (trimString .plain name).bind (storeName .plain psl)) psl = none := by
  induction names generalizing psl with
  | nil => exact absurd nofun hblank
  | cons name names ih =>
    rw [List.forall_mem_cons] at hlong hblank
    rw [List.foldlM_cons, trimString_plain hlong.1]
    by_cases hname : blankTrim name = []
    · rw [if_pos hname]
      rfl
    · have hfirst : ∃ c ∈ name, isBlank c = false :=
        (exists_nonblank_iff name).2 fun h => hname ((rdropWhile_eq_nil_iff name).1 h)
      rw [if_neg hname, Option.bind_some]
      cases storeName .plain psl (blankTrim name) with
      | none => rfl
      | some psl' => exact ih hlong.2 (fun h => hblank ⟨hfirst, h⟩) psl'

theorem secure_names {names : List CString} (hne : names ≠ []) {psl : StrLimit} (hbuffer : psl.lpBuffer.isSome = true) :
    names.foldlM (fun psl name => (trimString .secure name).bind (storeName .secure psl)) psl = none := by
  obtain ⟨name, names, rfl⟩ := List.exists_cons_of_ne_nil hne
  obtain ⟨b, hb⟩ := Option.isSome_iff_exists.1 hbuffer
  have hstore : ∀ psz, storeName .secure psl psz = none := by
    intro psz
    unfold storeName
    rw [hb]
    simp only
    have hcount : (if 1 < psl.dwRemain then min psz.length (psl.dwRemain - 1) else 0) ≤ psz.length := by
      split
      · exact Nat.min_le_left _ _
      · exact Nat.zero_le _
    unfold boundedCopy
    simp only
    rw [Nat.min_eq_left hcount, if_neg (Nat.lt_irrefl _)]
    rfl
  rw [List.foldlM_cons]
  cases trimString .secure name with
  | none => rfl
  | some psz => exact congrArg (Option.bind · _) (hstore psz)

theorem stored_ok {names : List CString} {dwBufSize : ℕ} {psl : StrLimit} (h : Stored dwBufSize (image names) psl) :
    KeyNamesOk names (some (psl.dwTotalCopied, psl.lpBuffer.map fun b => b.put psl.dwTotalCopied 0)) ↔
      (image names).length < dwBufSize := by
  obtain ⟨⟨b, r, hbuffer, hr, hcap⟩, -, -, htotal⟩ := h
  have hholds := hr.start hcap
  rw [hbuffer, htotal, Option.map_some]
  constructor
  · rintro ⟨n, b', heq, hin, -⟩
    rw [Option.some.injEq, Prod.mk.injEq, Option.some.injEq] at heq
    rw [← heq.2] at hin
    exact (hholds.put_inside_iff 0).1 hin
  · intro hfits
    refine ⟨_, _, rfl, (hholds.put_inside_iff 0).2 hfits, names, List.prefix_rfl, ?_⟩
    refine Begins.of_holds (hholds.put 0) ?_
    rw [List.length_append, List.length_singleton]
    exact hfits

theorem overrun_fails {names : List CString} {dwBufSize : ℕ} {psl : StrLimit} (h : Overrun dwBufSize psl) :
    ¬ KeyNamesOk names (some (psl.dwTotalCopied, psl.lpBuffer.map fun b => b.put psl.dwTotalCopied 0)) := by
  obtain ⟨b, hbuffer, hlen, hover⟩ := h
  rintro ⟨n, b', heq, hin, -⟩
  rw [hbuffer, Option.map_some, Option.some.injEq, Prod.mk.injEq, Option.some.injEq] at heq
  have houtside : (b.put psl.dwTotalCopied 0).inside = false := by
    cases hover with
    | inl houtside => exact put_outside houtside _ _
    | inr hfull => exact put_past _ (by rw [hlen, hfull.2.2]) _
  rw [← heq.2, houtside] at hin
  cases hin

theorem plainRun_ok {names : List CString} (hlong : ∀ name ∈ names, name.length < 2 ^ 31)
    (hlen : 1 ≤ lpBuffer.len) (hinside : lpBuffer.inside = true) (hsize : lpBuffer.len < 2 ^ 32) :
    KeyNamesOk (names.map blankTrim) (namesRun .plain lpBuffer names) ↔
      (∀ name ∈ names, ∃ c ∈ name, isBlank c = false) ∧ (image (names.map blankTrim)).length < lpBuffer.len := by
  unfold namesRun
  by_cases hblank : ∀ name ∈ names, ∃ c ∈ name, isBlank c = false
  · rw [nonblank_names hlong hblank, and_iff_right hblank]
    have hne : ∀ name ∈ names.map blankTrim, name ≠ [] := by
      intro name hname
      obtain ⟨raw, hraw, rfl⟩ := List.mem_map.1 hname
      exact fun h => (exists_nonblank_iff raw).1 (hblank raw hraw) ((rdropWhile_eq_nil_iff raw).2 h)
    have hfirst : Stored lpBuffer.len [] ⟨some (lpBuffer.put 0 0), 0, lpBuffer.len, 0⟩ :=
      ⟨⟨_, [0], rfl, put_first ⟨rfl, nofun, hinside⟩, hlen⟩, rfl, rfl, rfl⟩
    obtain ⟨psl, hpsl, hend⟩ := hfirst.rest hsize hne
    rw [hpsl, Option.map_some]
    rw [List.nil_append] at hend
    by_cases hfits : (image (names.map blankTrim)).length ≤ lpBuffer.len
    · rw [if_pos hfits] at hend
      exact stored_ok hend
    · rw [if_neg hfits] at hend
      exact iff_of_false (overrun_fails hend) fun h => hfits h.le
  · rw [blank_name hlong hblank]
    refine iff_of_false ?_ fun h => hblank h.1
    rintro ⟨n, b, hr, -⟩
    cases hr

theorem secureRun_ok {names : List CString} (hlen : 1 ≤ lpBuffer.len) (hinside : lpBuffer.inside = true) :
    KeyNamesOk (names.map blankTrim) (namesRun .secure lpBuffer names) ↔ names = [] := by
  unfold namesRun
  by_cases hnames : names = []
  · rw [hnames]
    have hstored : Stored lpBuffer.len (image []) ⟨some (lpBuffer.put 0 0), 0, lpBuffer.len, 0⟩ :=
      ⟨⟨_, [0], rfl, put_first ⟨rfl, nofun, hinside⟩, hlen⟩, rfl, rfl, rfl⟩
    exact iff_of_true ((stored_ok hstored).2 hlen) rfl
  · rw [secure_names hnames rfl]
    refine iff_of_false ?_ hnames
    rintro ⟨n, b, hr, -⟩
    cases hr

/-- `GetKeyNames` stays inside its buffer and leaves the first names, if and only if all names fit. -/
theorem keyNames_iff (build : Build) (t : IniText) (sec : CString) (lpBuffer : Buf TCHAR)
    (hlines : ∀ line ∈ t.lines (fold sec), (∀ c ∈ line, c ≠ 0) ∧ line.length < 2 ^ 31)
    (hlen : 1 ≤ lpBuffer.len) (hinside : lpBuffer.inside = true) (hsize : lpBuffer.len < 2 ^ 32) :
    (∃ turns, ∀ fuel, turns ≤ fuel →
        KeyNamesOk (keyNames (t.lines (fold sec))) (getKeyNames build fuel t (some sec) (some lpBuffer) lpBuffer.len)) ↔
      ReadableList (image (t.lines (fold sec))) ∧ NamesFit build lpBuffer.len (t.lines (fold sec)) := by
  by_cases hread : ReadableList (image (t.lines (fold sec)))
  · have hlong : ∀ name ∈ (t.lines (fold sec)).filterMap keyName, name.length < 2 ^ 31 := by
      intro name hname
      obtain ⟨line, hline, hkey⟩ := List.mem_filterMap.1 hname
      exact (keyName_sublist hkey).length_le.trans_lt (hlines line hline).2
    rw [and_iff_right hread, eventually_iff (getKeyNames_readable hread fun line hline => (hlines line hline).1)]
    cases build with
    | plain => exact plainRun_ok hlong hlen hinside hsize
    | secure => exact secureRun_ok hlen hinside
  · refine iff_of_false ?_ fun h => hread h.1
    rintro ⟨turns, hturns⟩
    obtain ⟨n, b, hr, -⟩ := hturns turns le_rfl
    rw [getKeyNames_endless hread] at hr
    cases hr

end KeyNames

/-- `ab=1` and `c=2`, and a buffer of six characters. -/
theorem keyNames_iff_sample :
    (∃ turns, ∀ fuel, turns ≤ fuel →
        KeyNamesOk (keyNames [[0x61, 0x62, 0x3d, 0x31], [0x63, 0x3d, 0x32]])
          (getKeyNames .plain fuel ⟨[[0x73]], fun _ => [[0x61, 0x62, 0x3d, 0x31], [0x63, 0x3d, 0x32]]⟩ (some [0x73])
            (some (newBuffer 6 [])) 6)) ↔
      ReadableList (image [[0x61, 0x62, 0x3d, 0x31], [0x63, 0x3d, 0x32]]) ∧
        NamesFit .plain 6 [[0x61, 0x62, 0x3d, 0x31], [0x63, 0x3d, 0x32]] :=
  keyNames_iff .plain ⟨[[0x73]], fun _ => [[0x61, 0x62, 0x3d, 0x31], [0x63, 0x3d, 0x32]]⟩ [0x73] (newBuffer 6 [])
    (by decide) (by decide) rfl (by decide)

/-- The name `a` and its terminator fill two characters; the second terminator is written behind them. -/
theorem lastTerminator_behind :
    ¬ ∃ turns, ∀ fuel, turns ≤ fuel →
      KeyNamesOk (keyNames [[0x61, 0x3d, 0x31]])
        (getKeyNames .plain fuel ⟨[[0x73]], fun _ => [[0x61, 0x3d, 0x31]]⟩ (some [0x73]) (some (newBuffer 2 [])) 2) := by
  have hread : ReadableList (image [[0x61, 0x3d, 0x31]]) := by
    unfold ReadableList
    decide
  have hturns : ∃ turns, ∀ fuel, turns ≤ fuel →
      getKeyNames .plain fuel ⟨[[0x73]], fun _ => [[0x61, 0x3d, 0x31]]⟩ (some [0x73]) (some (newBuffer 2 [])) 2 =
        namesRun .plain (newBuffer 2 []) [[0x61]] :=
    getKeyNames_readable (t := ⟨[[0x73]], fun _ => [[0x61, 0x3d, 0x31]]⟩) hread (by decide)
  rw [eventually_iff hturns]
  rintro ⟨n, b, hr, hin, -⟩
  have hinside : (namesRun .plain (newBuffer 2 []) [[0x61]]).map (fun r => r.2.map Buf.inside) = some (some false) := by
    decide
  rw [hr, Option.map_some, Option.map_some, hin] at hinside
  cases hinside

end StarLib.Ini
