import StarLib.Ini.Sections

/-! # Buffers that grow

`CIni::__GetStringDynamic`, `GetKeyLines` and `GetSectionNames` read with larger and larger buffers until the count that
comes back says that nothing was cut off. For a list that count is two below the size of the buffer.
-/

namespace StarLib.Ini
open Foundations
set_option autoImplicit false
set_option maxHeartbeats 250000
set_option maxRecDepth 120000

/-- The names of the sections, and what stands in each of them, by the folded name. -/
structure IniText where
  names : List CString
  lines : CString → List CString

/-- A profile call that copies a list: the buffer, and the number of characters without the last terminator. -/
def profileList (text : CString) (nSize : ℕ) : CString × ℕ :=
  if text.length + 1 ≤ nSize then (text ++ [0], text.length) else (text.take (nSize - 2) ++ [0, 0], nSize - 2)

def IniText.getPrivateProfileSection (t : IniText) (lpSection : CString) (nSize : ℕ) : CString × ℕ :=
  profileList (image (t.lines (fold lpSection))) nSize

def IniText.getPrivateProfileSectionNames (t : IniText) (nSize : ℕ) : CString × ℕ := profileList (image t.names) nSize

def listWith (read : ℕ → CString × ℕ) (dwLen : ℕ) : LinesRun := ⟨dwLen, (read dwLen).2⟩

def listSize (fuel : ℕ) (read : ℕ → CString × ℕ) : Option ℕ :=
  let s := whileFuel linesTruncated (fun s => listWith read (dword (s.dwLen + threshold))) fuel (listWith read threshold)
  if linesTruncated s then none else some (dword (s.dwCopied + 2))

/-- `CIni::GetKeyLines` without a buffer. -/
def getKeyLines (fuel : ℕ) (t : IniText) (lpSection : Option CString) : Option ℕ :=
  match lpSection with
  | some sec => listSize fuel (t.getPrivateProfileSection sec)
  | none => some 0

/-- `CIni::GetKeyLines` with a buffer: what is in it, and the result. -/
def getKeyLinesInto (t : IniText) (lpSection : Option CString) (dwBufSize : ℕ) : CString × ℕ :=
  match lpSection with
  | some sec => t.getPrivateProfileSection sec dwBufSize
  | none => ([0], 0)

/-- `CIni::GetSectionNames` without a buffer. -/
def getSectionNames (fuel : ℕ) (t : IniText) : Option ℕ := listSize fuel t.getPrivateProfileSectionNames

def getSectionNamesInto (t : IniText) (dwBufSize : ℕ) : CString × ℕ := t.getPrivateProfileSectionNames dwBufSize

/-- A `DWORD` has room for the buffer in which the list is seen to be complete. -/
def ReadableList (text : CString) : Prop := text.length + 2 < 2 ^ 32 - threshold

/-! ## Lists -/

section Lists
variable (text : CString)

theorem profileList_room {n : ℕ} (h : text.length + 1 ≤ n) : profileList text n = (text ++ [0], text.length) := if_pos h

theorem listWith_truncated {dwLen : ℕ} (hlen : dwLen + 1 < 2 ^ 32) :
    linesTruncated (listWith (profileList text) dwLen) = decide (dwLen ≤ text.length + 2) := by
  unfold linesTruncated listWith
  by_cases hroom : text.length + 1 ≤ dwLen
  · rw [profileList_room text hroom]
    simp only
    rw [dword_of_lt (by omega)]
  · have hcut : (profileList text dwLen).2 = dwLen - 2 := by
      unfold profileList
      rw [if_neg hroom]
    simp only [hcut]
    rw [dword_of_lt (by omega)]
    exact decide_eq_decide.2 (by omega)

theorem sizes_truncated (n : ℕ) (hn : n < 2 ^ 32) (hdvd : threshold ∣ n) :
    linesTruncated (listWith (profileList text) n) = decide (n ≤ text.length + 2) := by
  have hthreshold : threshold = 512 := rfl
  rw [hthreshold] at hdvd
  exact listWith_truncated text (by omega)

theorem listSize_readable (h : ReadableList text) {fuel : ℕ} (hfuel : text.length + 2 < threshold * (fuel + 1)) :
    listSize fuel (profileList text) = some (text.length + 2) := by
  have hneed : text.length + 2 < 2 ^ 32 - threshold := h
  obtain ⟨n, hn, hdvd, hlast, hs⟩ := grow_done LinesRun.dwLen (fun _ => rfl) (sizes_truncated text) hneed fuel 1
    (by decide) (by rw [Nat.add_comm 1 fuel]; exact hfuel)
  rw [Nat.mul_one] at hs
  have hdone : linesTruncated (listWith (profileList text) n) = false := by
    rw [sizes_truncated text n hn hdvd]
    exact decide_eq_false (by omega)
  have hcopied : (listWith (profileList text) n).dwCopied = text.length := by
    unfold listWith
    rw [profileList_room text (by omega)]
  unfold listSize dword
  simp only
  rw [hs, hdone, if_neg Bool.false_ne_true, hcopied]
  exact congrArg some (dword_of_lt (by omega))

theorem listSize_endless (h : ¬ ReadableList text) (fuel : ℕ) : listSize fuel (profileList text) = none := by
  have hmore := grow_endless LinesRun.dwLen (fun _ => rfl) (sizes_truncated text) (by decide) (by decide)
    (Nat.not_lt.1 h) fuel
  unfold listSize dword
  simp only
  rw [hmore, if_pos rfl]

theorem listSize_some {fuel n : ℕ} (h : listSize fuel (profileList text) = some n) : n = text.length + 2 := by
  have hthreshold : threshold = 512 := rfl
  obtain ⟨m, hm, hdvd, hs⟩ : ∃ m, m < 2 ^ 32 ∧ threshold ∣ m ∧ whileFuel linesTruncated
      (fun s => listWith (profileList text) ((s.dwLen + threshold) % 2 ^ 32)) fuel (listWith (profileList text) threshold) =
        listWith (profileList text) m := grow_state LinesRun.dwLen (fun _ => rfl) (by decide) (by decide) fuel
  unfold listSize dword at h
  simp only at h
  rw [hs] at h
  split at h
  · exact absurd h nofun
  · next hmore =>
    rw [sizes_truncated text m hm hdvd, decide_eq_true_iff] at hmore
    have hcopied : (listWith (profileList text) m).dwCopied = text.length := by
      unfold listWith
      rw [profileList_room text (by omega)]
    rw [hcopied, Option.some.injEq] at h
    exact h.symm.trans (dword_of_lt (by omega))

/-- A list is complete in a buffer of the size that was found. -/
theorem profileList_complete : profileList text (text.length + 2) = (text ++ [0], text.length) :=
  profileList_room text (Nat.le_succ _)

end Lists

/-! ## Sections whose lines all have a `=` -/

theorem keyLinesSize_eq (fuel : ℕ) {d : Disk} {sec : CString} {lines : List KeyLine} (hlines : d.file (fold sec) = some lines) :
    keyLinesSize fuel d sec = listSize fuel (profileList (sectionText lines)) := by
  have hlist : keyLinesSize fuel d sec = listSize fuel (profileList (sectionText ((d.file (fold sec)).getD []))) := rfl
  rw [hlist, hlines]
  rfl

theorem keyLinesSize_some {d : Disk} {sec : CString} {lines : List KeyLine} (hlines : d.file (fold sec) = some lines) {fuel n : ℕ}
    (h : keyLinesSize fuel d sec = some n) : (sectionText lines).length + 1 ≤ n := by
  rw [keyLinesSize_eq fuel hlines] at h
  rw [listSize_some _ h]
  exact Nat.le_succ _

/-- With enough turns the size of a section is found. -/
theorem keyLinesSize_returns {d : Disk} {sec : CString} {lines : List KeyLine} (hlines : d.file (fold sec) = some lines)
    (hread : (sectionText lines).length + 2 < 2 ^ 32 - threshold) : (keyLinesSize (2 ^ 32) d sec).isSome = true := by
  have hthreshold : threshold = 512 := rfl
  have hlist : ReadableList (sectionText lines) := hread
  have hturns : (sectionText lines).length + 2 < threshold * (2 ^ 32 + 1) := by
    rw [hthreshold]
    omega
  rw [keyLinesSize_eq _ hlines, listSize_readable _ hlist hturns]
  rfl

/-! ## Complete or endless -/

/-- With enough turns the loop ends, and then always with `result`. -/
def EndsWith {α : Type*} (loop : ℕ → Option α) (result : α) : Prop :=
  ∃ turns, ∀ fuel, turns ≤ fuel → loop fuel = some result

/-- What holds with enough turns is a property of the one result. -/
theorem eventually_iff {α : Type*} {loop : ℕ → α} {result : α} (h : ∃ turns, ∀ fuel, turns ≤ fuel → loop fuel = result)
    {P : α → Prop} : (∃ turns, ∀ fuel, turns ≤ fuel → P (loop fuel)) ↔ P result := by
  obtain ⟨turns, hturns⟩ := h
  constructor
  · rintro ⟨turns', hturns'⟩
    rw [← hturns _ (Nat.le_max_left turns turns')]
    exact hturns' _ (Nat.le_max_right turns turns')
  · intro hP
    refine ⟨turns, fun fuel hfuel => ?_⟩
    rw [hturns fuel hfuel]
    exact hP

theorem EndsWith.unique {α : Type*} {loop : ℕ → Option α} {r r' : α} (h : EndsWith loop r) (h' : EndsWith loop r') :
    r = r' := by
  obtain ⟨turns, hturns⟩ := h
  obtain ⟨turns', hturns'⟩ := h'
  have hr := hturns _ (Nat.le_max_left turns turns')
  exact Option.some.inj (hr.symm.trans (hturns' _ (Nat.le_max_right turns turns')))

theorem endsWith_iff {α : Type*} {loop : ℕ → Option α} {result : α} {P : Prop} (need : ℕ)
    (hends : P → ∀ fuel, need < threshold * (fuel + 1) → loop fuel = some result)
    (hendless : ¬ P → ∀ fuel, loop fuel = none) : EndsWith loop result ↔ P := by
  constructor
  · rintro ⟨turns, hturns⟩
    by_contra hP
    have hsome := hturns turns le_rfl
    rw [hendless hP] at hsome
    exact absurd hsome nofun
  · intro hP
    refine ⟨need, fun fuel hfuel => hends hP fuel ?_⟩
    have hthreshold : threshold = 512 := rfl
    rw [hthreshold]
    omega

end StarLib.Ini
