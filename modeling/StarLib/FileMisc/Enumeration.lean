import Mathlib.Data.Nat.Count
import StarLib.FileMisc.Sizes

/-! # The search of `GetDirSize`

`Star::File::GetDirSize` leaves its loop only when `FindNextFile` fails with `ERROR_NO_MORE_FILES`. Here each call of
`FindFirstFile` and `FindNextFile` may fail with any error.
-/

namespace StarLib.FileMisc.Enumeration
open Foundations
set_option autoImplicit false
set_option maxHeartbeats 250000
set_option maxRecDepth 120000

def ERROR_ACCESS_DENIED : DWORD := 5

def ERROR_NO_MORE_FILES : DWORD := 18

/-- The errors of the calls for a folder, by the number of calls before them; `none` is a call that does not fail unless
there is no further entry. -/
abbrev Answers := Path → ℕ → Option DWORD

/-- `GetDirSize` up to its loop: whether it returns `TRUE`, and `m_Size`. There is no result when the array is too
short. -/
def openSearch (answers : Answers) (loop : Listing FileSize → Path → ℕ → CString → DWORD → Option DWORD)
    (l : Listing FileSize) (path : Path) (lpsPath : CString) (m_Size : DWORD) : Option (Bool × DWORD) :=
  if MAX_PATH < lpsPath.length + 3 + 1 then none
  else
    match answers path 0, l with
    | some _, _ => some (false, m_Size)
    | none, .nil => some (false, m_Size)
    | none, l => (loop l path 0 lpsPath m_Size).map fun m_Size => (true, m_Size)

/-- `while (hFile)`, with the entries that are left and the number of calls so far, for at most `fuel` turns; the handle
is not `NULL`. The first turn is what stands in front of the loop for the entry that `FindFirstFile` found. -/
def findLoop (answers : Answers) : ℕ → Listing FileSize → Path → ℕ → CString → DWORD → Option DWORD
  | 0, _, _, _, _, _ => none
  | fuel + 1, l, path, calls, lpsPath, m_Size =>
    match answers path calls with
    | some err =>
      if err = ERROR_NO_MORE_FILES then some m_Size else findLoop answers fuel l path (calls + 1) lpsPath m_Size
    | none =>
      match l with
      | .nil => some m_Size
      | .file name c rest =>
        findLoop answers fuel rest path (calls + 1) lpsPath
          (if dots.contains name then m_Size else m_Size + c.nFileSizeLow)
      | .folder name items rest =>
        if dots.contains name then findLoop answers fuel rest path (calls + 1) lpsPath m_Size
        else if MAX_PATH < (subPath lpsPath name).length + 1 then none
        else
          (openSearch answers (findLoop answers fuel) items (path ++ [name]) (subPath lpsPath name) m_Size).bind fun r =>
            findLoop answers fuel rest path (calls + 1) lpsPath r.2

/-- `GetDirSize` for a folder with this path. -/
def getDirSize (answers : Answers) (fuel : ℕ) (l : Listing FileSize) (lpsPath : CString) (m_Size : DWORD) :
    Option (Bool × DWORD) :=
  openSearch answers (findLoop answers fuel) l [] lpsPath m_Size

/-- The call ends. -/
def Returns (answers : Answers) (l : Listing FileSize) (lpsPath : CString) (m_Size : DWORD) : Prop :=
  ∃ fuel, (getDirSize answers fuel l lpsPath m_Size).isSome

/-! ## Searches that end -/

def entries : Listing FileSize → ℕ
  | .nil => 0
  | .file _ _ rest => entries rest + 1
  | .folder _ _ rest => entries rest + 1

/-- The calls that do not fail, of the first ones. -/
def finds (errors : ℕ → Option DWORD) (calls : ℕ) : ℕ := Nat.count (fun i => errors i = none) calls

/-- From this call on there is one that fails with `ERROR_NO_MORE_FILES`, or one that finds no entry behind `n` others. -/
def Exhausted (errors : ℕ → Option DWORD) (calls n : ℕ) : Prop :=
  ∃ i, calls ≤ i ∧ (errors i = some ERROR_NO_MORE_FILES ∨ errors i = none ∧ finds errors i = finds errors calls + n)

/-- From this call on the search comes to an entry behind `n` others. -/
def Delivered (errors : ℕ → Option DWORD) (calls n : ℕ) : Prop :=
  ∃ i, calls ≤ i ∧ errors i = none ∧ finds errors i = finds errors calls + n ∧
    ∀ k, calls ≤ k → k < i → errors k ≠ some ERROR_NO_MORE_FILES

/-- Behind `n` other entries: the sub-folders that the search comes to have paths that fit the arrays, and where their
search begins it ends. -/
def Answered (answers : Answers) : Listing FileSize → Path → ℕ → CString → ℕ → Prop
  | .nil, _, _, _, _ => True
  | .file _ _ rest, path, calls, lpsPath, n => Answered answers rest path calls lpsPath (n + 1)
  | .folder name items rest, path, calls, lpsPath, n =>
    (name ∉ dots → Delivered (answers path) calls n → (subPath lpsPath name).length + 4 ≤ MAX_PATH ∧
      (answers (path ++ [name]) 0 = none → Exhausted (answers (path ++ [name])) 0 (entries items) ∧
        Answered answers items (path ++ [name]) 0 (subPath lpsPath name) 0)) ∧
    Answered answers rest path calls lpsPath (n + 1)

/-- The path fits, and a search that begins ends; so do those of all sub-folders that it comes to. -/
def Ends (answers : Answers) (l : Listing FileSize) (path : Path) (lpsPath : CString) : Prop :=
  lpsPath.length + 4 ≤ MAX_PATH ∧ (answers path 0 = none →
    Exhausted (answers path) 0 (entries l) ∧ Answered answers l path 0 lpsPath 0)

section Calls
variable {errors : ℕ → Option DWORD} {calls n : ℕ} {err : DWORD}

theorem finds_found (h : errors calls = none) : finds errors (calls + 1) = finds errors calls + 1 := by
  unfold finds
  rw [Nat.count_succ, if_pos h]

theorem finds_failed (h : errors calls = some err) : finds errors (calls + 1) = finds errors calls := by
  unfold finds
  rw [Nat.count_succ, if_neg (by rw [h]; exact Option.some_ne_none err)]
  rfl

/-- A call with another error changes nothing. -/
theorem exhausted_failed (h : errors calls = some err) (herr : err ≠ ERROR_NO_MORE_FILES) :
    Exhausted errors calls n ↔ Exhausted errors (calls + 1) n := by
  unfold Exhausted
  rw [finds_failed h]
  constructor
  · rintro ⟨i, hi, hend⟩
    rcases hi.eq_or_lt with rfl | hlt
    · rw [h, Option.some.injEq] at hend
      rcases hend with hend | hend
      · exact absurd hend herr
      · exact absurd hend.1 (Option.some_ne_none err)
    · exact ⟨i, hlt, hend⟩
  · rintro ⟨i, hi, hend⟩
    exact ⟨i, (Nat.le_succ calls).trans hi, hend⟩

/-- A call that finds an entry leaves one less. -/
theorem exhausted_found (h : errors calls = none) :
    Exhausted errors calls (n + 1) ↔ Exhausted errors (calls + 1) n := by
  unfold Exhausted
  rw [finds_found h]
  constructor
  · rintro ⟨i, hi, hend⟩
    rcases hi.eq_or_lt with rfl | hlt
    · rw [h] at hend
      rcases hend with hend | hend
      · exact absurd hend (Option.some_ne_none _).symm
      · omega
    · exact ⟨i, hlt, hend.imp_right fun hend => ⟨hend.1, by omega⟩⟩
  · rintro ⟨i, hi, hend⟩
    exact ⟨i, (Nat.le_succ calls).trans hi, hend.imp_right fun hend => ⟨hend.1, by omega⟩⟩

theorem delivered_failed (h : errors calls = some err) (herr : err ≠ ERROR_NO_MORE_FILES) (n : ℕ) :
    Delivered errors calls (n + 0) ↔ Delivered errors (calls + 1) n := by
  unfold Delivered
  rw [finds_failed h]
  constructor
  · rintro ⟨i, hi, hfound, hcount, hbefore⟩
    rcases hi.eq_or_lt with rfl | hlt
    · exact absurd (h.symm.trans hfound) (Option.some_ne_none err)
    · exact ⟨i, hlt, hfound, hcount, fun k hk => hbefore k ((Nat.le_succ calls).trans hk)⟩
  · rintro ⟨i, hi, hfound, hcount, hbefore⟩
    refine ⟨i, (Nat.le_succ calls).trans hi, hfound, hcount, fun k hk hki => ?_⟩
    rcases hk.eq_or_lt with rfl | hlt
    · rw [h]
      exact fun hend => herr (Option.some.inj hend)
    · exact hbefore k hlt hki

theorem delivered_found (h : errors calls = none) (n : ℕ) :
    Delivered errors calls (n + 1) ↔ Delivered errors (calls + 1) n := by
  unfold Delivered
  rw [finds_found h]
  constructor
  · rintro ⟨i, hi, hfound, hcount, hbefore⟩
    rcases hi.eq_or_lt with rfl | hlt
    · omega
    · exact ⟨i, hlt, hfound, by omega, fun k hk => hbefore k ((Nat.le_succ calls).trans hk)⟩
  · rintro ⟨i, hi, hfound, hcount, hbefore⟩
    refine ⟨i, (Nat.le_succ calls).trans hi, hfound, by omega, fun k hk hki => ?_⟩
    rcases hk.eq_or_lt with rfl | hlt
    · rw [h]
      exact (Option.some_ne_none _).symm
    · exact hbefore k hlt hki

theorem delivered_here (h : errors calls = none) : Delivered errors calls 0 :=
  ⟨calls, le_refl calls, h, rfl, fun _ hk hki => absurd hki (not_lt.2 hk)⟩

theorem not_delivered (h : errors calls = some ERROR_NO_MORE_FILES) : ¬ Delivered errors calls n := by
  rintro ⟨i, hi, hfound, -, hbefore⟩
  rcases hi.eq_or_lt with rfl | hlt
  · exact absurd (h.symm.trans hfound) (Option.some_ne_none _)
  · exact hbefore calls (le_refl calls) hlt h

end Calls

section Answered
variable {answers : Answers} {path : Path} {lpsPath : CString} {calls : ℕ}

/-- What the next call leaves to be delivered decides what is left to be answered. -/
theorem answered_shift {a : ℕ} (h : ∀ n, Delivered (answers path) calls (n + a) ↔ Delivered (answers path) (calls + 1) n)
    (l : Listing FileSize) (n : ℕ) :
    Answered answers l path calls lpsPath (n + a) ↔ Answered answers l path (calls + 1) lpsPath n := by
  induction l generalizing n with
  | nil => rfl
  | file name c rest ih =>
    have hnext := ih (n + 1)
    rw [Nat.add_right_comm] at hnext
    exact hnext
  | folder name items rest _ ih =>
    have hnext := ih (n + 1)
    rw [Nat.add_right_comm] at hnext
    unfold Answered
    rw [hnext, h n]

theorem answered_over (h : answers path calls = some ERROR_NO_MORE_FILES) (l : Listing FileSize) (n : ℕ) :
    Answered answers l path calls lpsPath n := by
  induction l generalizing n with
  | nil => trivial
  | file name c rest ih => exact ih (n + 1)
  | folder name items rest _ ih => exact ⟨fun _ hdelivered => absurd hdelivered (not_delivered h), ih (n + 1)⟩

end Answered

/-! ## Turns of the loop -/

section Loop
variable {answers : Answers} {l rest items : Listing FileSize} {path : Path} {lpsPath name : CString} {calls : ℕ}
variable {m_Size : DWORD} {err : DWORD}

theorem findLoop_over (h : answers path calls = some ERROR_NO_MORE_FILES) (fuel : ℕ) :
    findLoop answers (fuel + 1) l path calls lpsPath m_Size = some m_Size := by
  unfold findLoop
  rw [h]
  exact if_pos rfl

theorem findLoop_failed (h : answers path calls = some err) (herr : err ≠ ERROR_NO_MORE_FILES) (fuel : ℕ) :
    findLoop answers (fuel + 1) l path calls lpsPath m_Size =
      findLoop answers fuel l path (calls + 1) lpsPath m_Size := by
  rw [findLoop.eq_def]
  dsimp only
  rw [h]
  exact if_neg herr

theorem findLoop_nil (h : answers path calls = none) (fuel : ℕ) :
    findLoop answers (fuel + 1) .nil path calls lpsPath m_Size = some m_Size := by
  unfold findLoop
  rw [h]

theorem findLoop_file (h : answers path calls = none) (c : FileSize) (fuel : ℕ) :
    findLoop answers (fuel + 1) (.file name c rest) path calls lpsPath m_Size =
      findLoop answers fuel rest path (calls + 1) lpsPath (if name ∈ dots then m_Size else m_Size + c.nFileSizeLow) := by
  have hsize : (if dots.contains name then m_Size else m_Size + c.nFileSizeLow) =
      if name ∈ dots then m_Size else m_Size + c.nFileSizeLow := if_congr List.contains_iff_mem rfl rfl
  rw [findLoop, h, ← hsize]

theorem findLoop_dots (h : answers path calls = none) (hname : name ∈ dots) (fuel : ℕ) :
    findLoop answers (fuel + 1) (.folder name items rest) path calls lpsPath m_Size =
      findLoop answers fuel rest path (calls + 1) lpsPath m_Size := by
  rw [findLoop, h]
  exact if_pos (List.contains_iff_mem.2 hname)

theorem findLoop_folder (h : answers path calls = none) (hname : name ∉ dots) (fuel : ℕ) :
    findLoop answers (fuel + 1) (.folder name items rest) path calls lpsPath m_Size =
      (openSearch answers (findLoop answers fuel) items (path ++ [name]) (subPath lpsPath name) m_Size).bind fun r =>
        findLoop answers fuel rest path (calls + 1) lpsPath r.2 := by
  rw [findLoop, h]
  dsimp only
  rw [if_neg fun hcontains => hname (List.contains_iff_mem.1 hcontains)]
  split
  · next hlong =>
    unfold openSearch
    rw [if_pos (by omega)]
    rfl
  · rfl

/-- The call for a folder has a result when its path fits and its loop has one. -/
theorem openSearch_isSome_iff {loop : Listing FileSize → Path → ℕ → CString → DWORD → Option DWORD} :
    (openSearch answers loop l path lpsPath m_Size).isSome ↔
      lpsPath.length + 4 ≤ MAX_PATH ∧ (answers path 0 = none → l ≠ .nil → (loop l path 0 lpsPath m_Size).isSome) := by
  unfold openSearch
  by_cases hlong : MAX_PATH < lpsPath.length + 3 + 1
  · rw [if_pos hlong]
    exact iff_of_false Bool.false_ne_true fun h => absurd h.1 (by omega)
  · have hfits : lpsPath.length + 4 ≤ MAX_PATH := by omega
    rw [if_neg hlong, and_iff_right hfits]
    cases hfirst : answers path 0 with
    | some err => exact iff_of_true rfl fun h => absurd h (Option.some_ne_none err)
    | none =>
      cases l with
      | nil => exact iff_of_true rfl fun _ hne => absurd rfl hne
      | file name c rest =>
        show ((loop _ path 0 lpsPath m_Size).map fun m_Size => (true, m_Size)).isSome ↔ _
        rw [Option.isSome_map]
        exact ⟨fun h _ _ => h, fun h => h rfl nofun⟩
      | folder name items rest =>
        show ((loop _ path 0 lpsPath m_Size).map fun m_Size => (true, m_Size)).isSome ↔ _
        rw [Option.isSome_map]
        exact ⟨fun h _ _ => h, fun h => h rfl nofun⟩

theorem openSearch_mono {loop loop' : Listing FileSize → Path → ℕ → CString → DWORD → Option DWORD} {r : Bool × DWORD}
    (hloop : ∀ l path calls lpsPath m_Size r, loop l path calls lpsPath m_Size = some r →
      loop' l path calls lpsPath m_Size = some r)
    (h : openSearch answers loop l path lpsPath m_Size = some r) :
    openSearch answers loop' l path lpsPath m_Size = some r := by
  unfold openSearch at h ⊢
  split at h
  · exact absurd h (by simp)
  · next hfits =>
    rw [if_neg hfits]
    cases hfirst : answers path 0 with
    | some err =>
      rw [hfirst] at h
      exact h
    | none =>
      rw [hfirst] at h
      cases l with
      | nil => exact h
      | file name c rest =>
        obtain ⟨m, hm, hr⟩ := Option.map_eq_some_iff.1 h
        exact Option.map_eq_some_iff.2 ⟨m, hloop _ _ _ _ _ _ hm, hr⟩
      | folder name items rest =>
        obtain ⟨m, hm, hr⟩ := Option.map_eq_some_iff.1 h
        exact Option.map_eq_some_iff.2 ⟨m, hloop _ _ _ _ _ _ hm, hr⟩

end Loop

/-! ## Runs of the loop -/

/-- Further turns do not change a result. -/
theorem findLoop_succ {answers : Answers} {fuel : ℕ} : ∀ {l : Listing FileSize} {path : Path} {calls : ℕ}
    {lpsPath : CString} {m_Size r : DWORD}, findLoop answers fuel l path calls lpsPath m_Size = some r →
    findLoop answers (fuel + 1) l path calls lpsPath m_Size = some r := by
  induction fuel with
  | zero =>
    intro l path calls lpsPath m_Size r h
    exact absurd h (by simp [findLoop])
  | succ fuel ih =>
    intro l path calls lpsPath m_Size r h
    cases hcall : answers path calls with
    | some err =>
      by_cases herr : err = ERROR_NO_MORE_FILES
      · subst herr
        rw [findLoop_over hcall] at h ⊢
        exact h
      · rw [findLoop_failed hcall herr] at h ⊢
        exact ih h
    | none =>
      cases l with
      | nil =>
        rw [findLoop_nil hcall] at h ⊢
        exact h
      | file name c rest =>
        rw [findLoop_file hcall] at h ⊢
        exact ih h
      | folder name items rest =>
        by_cases hname : name ∈ dots
        · rw [findLoop_dots hcall hname] at h ⊢
          exact ih h
        · rw [findLoop_folder hcall hname] at h ⊢
          obtain ⟨q, hsub, hrest⟩ := Option.bind_eq_some_iff.1 h
          rw [openSearch_mono (fun _ _ _ _ _ _ => ih) hsub]
          exact ih hrest

theorem findLoop_le {answers : Answers} {fuel fuel' : ℕ} (hle : fuel ≤ fuel') {l : Listing FileSize} {path : Path}
    {calls : ℕ} {lpsPath : CString} {m_Size r : DWORD} (h : findLoop answers fuel l path calls lpsPath m_Size = some r) :
    findLoop answers fuel' l path calls lpsPath m_Size = some r := by
  induction hle with
  | refl => exact h
  | step _ ih => exact findLoop_succ ih

/-- A call with a result is one for a search that ends, when that is so for its loop. -/
theorem ends_of_openSearch {answers : Answers} {loop : Listing FileSize → Path → ℕ → CString → DWORD → Option DWORD}
    {l : Listing FileSize} {path : Path} {lpsPath : CString} {m_Size : DWORD}
    (hloop : (loop l path 0 lpsPath m_Size).isSome →
      Exhausted (answers path) 0 (entries l) ∧ Answered answers l path 0 lpsPath 0)
    (h : (openSearch answers loop l path lpsPath m_Size).isSome) : Ends answers l path lpsPath := by
  obtain ⟨hfits, hsome⟩ := openSearch_isSome_iff.1 h
  refine ⟨hfits, fun hfirst => ?_⟩
  by_cases hnil : l = .nil
  · subst hnil
    exact ⟨⟨0, le_refl 0, Or.inr ⟨hfirst, rfl⟩⟩, trivial⟩
  · exact hloop (hsome hfirst hnil)

/-- A loop with a result has come to its end, and so have the searches that it began. -/
theorem ends_of_findLoop {answers : Answers} (fuel : ℕ) : ∀ {l : Listing FileSize} {path : Path} {calls : ℕ}
    {lpsPath : CString} {m_Size : DWORD}, (findLoop answers fuel l path calls lpsPath m_Size).isSome →
    Exhausted (answers path) calls (entries l) ∧ Answered answers l path calls lpsPath 0 := by
  induction fuel with
  | zero => exact fun h => absurd h Bool.false_ne_true
  | succ fuel ih =>
    intro l path calls lpsPath m_Size h
    cases hcall : answers path calls with
    | some err =>
      by_cases herr : err = ERROR_NO_MORE_FILES
      · subst herr
        exact ⟨⟨calls, le_refl calls, Or.inl hcall⟩, answered_over hcall l 0⟩
      · rw [findLoop_failed hcall herr] at h
        obtain ⟨hend, hanswered⟩ := ih h
        exact ⟨(exhausted_failed hcall herr).2 hend, (answered_shift (delivered_failed hcall herr) l 0).2 hanswered⟩
    | none =>
      cases l with
      | nil => exact ⟨⟨calls, le_refl calls, Or.inr ⟨hcall, rfl⟩⟩, trivial⟩
      | file name c rest =>
        rw [findLoop_file hcall] at h
        obtain ⟨hend, hanswered⟩ := ih h
        exact ⟨(exhausted_found hcall).2 hend, (answered_shift (delivered_found hcall) rest 0).2 hanswered⟩
      | folder name items rest =>
        by_cases hname : name ∈ dots
        · rw [findLoop_dots hcall hname] at h
          obtain ⟨hend, hanswered⟩ := ih h
          refine ⟨(exhausted_found hcall).2 hend, fun hnot => absurd hname hnot, ?_⟩
          exact (answered_shift (delivered_found hcall) rest 0).2 hanswered
        · rw [findLoop_folder hcall hname] at h
          obtain ⟨r, hr⟩ := Option.isSome_iff_exists.1 h
          obtain ⟨q, hsub, hrest⟩ := Option.bind_eq_some_iff.1 hr
          obtain ⟨hend, hanswered⟩ := ih (Option.isSome_iff_exists.2 ⟨r, hrest⟩)
          have hitems : Ends answers items (path ++ [name]) (subPath lpsPath name) :=
            ends_of_openSearch ih (Option.isSome_iff_exists.2 ⟨q, hsub⟩)
          exact ⟨(exhausted_found hcall).2 hend, fun _ _ => hitems,
            (answered_shift (delivered_found hcall) rest 0).2 hanswered⟩

/-- A call for a search that ends has a result, when its loop has one. -/
theorem openSearch_of_ends {answers : Answers} {l : Listing FileSize} {path : Path} {lpsPath : CString} (m_Size : DWORD)
    (hloop : Exhausted (answers path) 0 (entries l) → Answered answers l path 0 lpsPath 0 →
      ∃ fuel, (findLoop answers fuel l path 0 lpsPath m_Size).isSome)
    (h : Ends answers l path lpsPath) :
    ∃ fuel, (openSearch answers (findLoop answers fuel) l path lpsPath m_Size).isSome := by
  obtain ⟨hfits, hends⟩ := h
  cases hfirst : answers path 0 with
  | some err =>
    refine ⟨0, openSearch_isSome_iff.2 ⟨hfits, fun hnone => ?_⟩⟩
    exact absurd (hfirst.symm.trans hnone) (Option.some_ne_none err)
  | none =>
    obtain ⟨hend, hanswered⟩ := hends hfirst
    obtain ⟨fuel, hfuel⟩ := hloop hend hanswered
    exact ⟨fuel, openSearch_isSome_iff.2 ⟨hfits, fun _ _ => hfuel⟩⟩

section Completes
variable {answers : Answers} {path : Path} {lpsPath : CString} {m_Size : DWORD}

/-- Calls with other errors only delay the loop: what is to be shown is that it ends from a call that finds an entry. -/
theorem findLoop_delayed {l : Listing FileSize}
    (hfound : ∀ calls, answers path calls = none → Exhausted (answers path) calls (entries l) →
      Answered answers l path calls lpsPath 0 → ∃ fuel, (findLoop answers fuel l path calls lpsPath m_Size).isSome)
    {calls : ℕ} (hend : Exhausted (answers path) calls (entries l))
    (hanswered : Answered answers l path calls lpsPath 0) :
    ∃ fuel, (findLoop answers fuel l path calls lpsPath m_Size).isSome := by
  obtain ⟨i, hi, hlast⟩ := hend
  -- towards the call that ends the search
  induction hd : i - calls generalizing calls with
  | zero =>
    obtain rfl : calls = i := by omega
    rcases hlast with hover | hfirst
    · exact ⟨1, by rw [findLoop_over hover]; rfl⟩
    · exact hfound calls hfirst.1 ⟨calls, hi, Or.inr hfirst⟩ hanswered
  | succ d ih =>
    cases hcall : answers path calls with
    | none => exact hfound calls hcall ⟨i, hi, hlast⟩ hanswered
    | some err =>
      by_cases herr : err = ERROR_NO_MORE_FILES
      · subst herr
        exact ⟨1, by rw [findLoop_over hcall]; rfl⟩
      · rw [← finds_failed hcall] at hlast
        have hanswered := (answered_shift (delivered_failed hcall herr) l 0).1 hanswered
        obtain ⟨fuel, hfuel⟩ := ih hanswered (by omega) hlast (by omega)
        exact ⟨fuel + 1, by rw [findLoop_failed hcall herr]; exact hfuel⟩

theorem findLoop_of_ends {l : Listing FileSize} {calls : ℕ} (hend : Exhausted (answers path) calls (entries l))
    (hanswered : Answered answers l path calls lpsPath 0) :
    ∃ fuel, (findLoop answers fuel l path calls lpsPath m_Size).isSome := by
  induction l generalizing path calls lpsPath m_Size with
  | nil => exact findLoop_delayed (fun calls hcall _ _ => ⟨1, by rw [findLoop_nil hcall]; rfl⟩) hend hanswered
  | file name c rest ih =>
    refine findLoop_delayed (fun calls hcall hend hanswered => ?_) hend hanswered
    have hanswered := (answered_shift (delivered_found hcall) rest 0).1 hanswered
    obtain ⟨fuel, hfuel⟩ := ih ((exhausted_found hcall).1 hend) hanswered
    exact ⟨fuel + 1, by rw [findLoop_file hcall]; exact hfuel⟩
  | folder name items rest ihItems ih =>
    refine findLoop_delayed (fun calls hcall hend hanswered => ?_) hend hanswered
    obtain ⟨hitems, hrest⟩ := hanswered
    have hnext : ∀ m_Size, ∃ fuel, (findLoop answers fuel rest path (calls + 1) lpsPath m_Size).isSome := fun _ =>
      ih ((exhausted_found hcall).1 hend) ((answered_shift (delivered_found hcall) rest 0).1 hrest)
    by_cases hname : name ∈ dots
    · obtain ⟨fuel, hfuel⟩ := hnext m_Size
      exact ⟨fuel + 1, by rw [findLoop_dots hcall hname]; exact hfuel⟩
    · obtain ⟨fuel, hfuel⟩ := openSearch_of_ends m_Size ihItems (hitems hname (delivered_here hcall))
      obtain ⟨q, hq⟩ := Option.isSome_iff_exists.1 hfuel
      obtain ⟨fuel', hfuel'⟩ := hnext q.2
      obtain ⟨r, hr⟩ := Option.isSome_iff_exists.1 hfuel'
      -- turns enough for both
      refine ⟨max fuel fuel' + 1, ?_⟩
      have hq' := openSearch_mono (fun _ _ _ _ _ _ => findLoop_le (le_max_left fuel fuel')) hq
      have hr' := findLoop_le (le_max_right fuel fuel') hr
      rw [findLoop_folder hcall hname, hq', Option.bind_some, hr']
      rfl

end Completes

/-- `GetDirSize` ends exactly when the paths fit and every search that begins ends. -/
theorem getDirSize_returns_iff (answers : Answers) (l : Listing FileSize) (lpsPath : CString) (m_Size : DWORD) :
    Returns answers l lpsPath m_Size ↔ Ends answers l [] lpsPath := by
  constructor
  · rintro ⟨fuel, h⟩
    exact ends_of_openSearch (ends_of_findLoop fuel) h
  · exact openSearch_of_ends m_Size findLoop_of_ends

/-- A file in a folder, and access denied to what comes behind it. -/
def deniedAnswers : Answers := fun _ calls => if calls = 0 then none else some ERROR_ACCESS_DENIED

theorem findLoop_denied (fuel : ℕ) : ∀ (calls : ℕ) (m_Size : DWORD), calls ≠ 0 →
    findLoop deniedAnswers fuel .nil [] calls [] m_Size = none := by
  induction fuel with
  | zero => exact fun _ _ _ => rfl
  | succ fuel ih =>
    intro calls m_Size hcalls
    have hdenied : deniedAnswers [] calls = some ERROR_ACCESS_DENIED := if_neg hcalls
    rw [findLoop_failed hdenied (by decide)]
    exact ih (calls + 1) m_Size (Nat.succ_ne_zero calls)

/-- With paths that fit, the loop asks on for ever. -/
theorem denied_not_returns : ¬ ∀ (answers : Answers) (l : Listing FileSize) (lpsPath : CString) (m_Size : DWORD),
    lpsPath.length + 4 ≤ MAX_PATH → l.Fits lpsPath.length → Returns answers l lpsPath m_Size := by
  intro hall
  obtain ⟨fuel, h⟩ := hall deniedAnswers (.file [0x61] 1 .nil) [] 0 (by decide) trivial
  obtain ⟨-, hloop⟩ := openSearch_isSome_iff.1 h
  have hsome := hloop rfl nofun
  cases fuel with
  | zero => exact Bool.false_ne_true hsome
  | succ fuel =>
    rw [findLoop_file rfl, findLoop_denied fuel 1 _ Nat.one_ne_zero] at hsome
    exact Bool.false_ne_true hsome

/-! ## Errors that pass -/

/-- Behind every call there is one that finds an entry, or none any more. -/
def Passing (answers : Answers) : Prop :=
  ∀ path k, ∃ i, k ≤ i ∧ (answers path i = none ∨ answers path i = some ERROR_NO_MORE_FILES)

section Passing
variable {answers : Answers}

/-- The next such call, which only failed ones are in front of. -/
theorem Passing.next (h : Passing answers) (path : Path) (calls : ℕ) : ∃ i, calls ≤ i ∧
    (answers path i = none ∨ answers path i = some ERROR_NO_MORE_FILES) ∧
    finds (answers path) i = finds (answers path) calls := by
  obtain ⟨i, hi, hgood⟩ := h path calls
  induction hd : i - calls generalizing calls with
  | zero =>
    obtain rfl : calls = i := by omega
    exact ⟨calls, hi, hgood, rfl⟩
  | succ d ih =>
    cases hcall : answers path calls with
    | none => exact ⟨calls, le_refl calls, Or.inl hcall, rfl⟩
    | some err =>
      obtain ⟨k, hk, hnext, hcount⟩ := ih (calls + 1) (by omega) (by omega)
      exact ⟨k, (Nat.le_succ calls).trans hk, hnext, hcount.trans (finds_failed hcall)⟩

theorem Passing.exhausted (h : Passing answers) (path : Path) (n calls : ℕ) : Exhausted (answers path) calls n := by
  induction n generalizing calls with
  | zero =>
    obtain ⟨i, hi, hgood, hcount⟩ := h.next path calls
    exact ⟨i, hi, hgood.symm.imp_right fun hfound => ⟨hfound, hcount⟩⟩
  | succ n ih =>
    obtain ⟨i, hi, hgood, hcount⟩ := h.next path calls
    rcases hgood with hfound | hover
    · obtain ⟨k, hk, hlast⟩ := ih (i + 1)
      rw [finds_found hfound, hcount] at hlast
      exact ⟨k, by omega, hlast.imp_right fun hlast => ⟨hlast.1, by omega⟩⟩
    · exact ⟨i, hi, Or.inl hover⟩

theorem Passing.answered (h : Passing answers) : ∀ (l : Listing FileSize) (path : Path) (calls : ℕ) (lpsPath : CString)
    (n : ℕ), l.Fits lpsPath.length → Answered answers l path calls lpsPath n
  | .nil, _, _, _, _, _ => trivial
  | .file _ _ rest, path, calls, lpsPath, n, hfits => h.answered rest path calls lpsPath (n + 1) hfits
  | .folder name items rest, path, calls, lpsPath, n, ⟨hitems, hrest⟩ => by
    refine ⟨fun hname _ => ?_, h.answered rest path calls lpsPath (n + 1) hrest⟩
    obtain ⟨hroom, hitems⟩ := hitems hname
    rw [← subPath_length] at hroom hitems
    exact ⟨hroom, fun _ => ⟨h.exhausted _ _ _, h.answered items _ 0 _ 0 hitems⟩⟩

/-- Where the errors pass, `GetDirSize` ends for every tree whose paths fit. -/
theorem Passing.returns (h : Passing answers) {l : Listing FileSize} {lpsPath : CString}
    (hroom : lpsPath.length + 4 ≤ MAX_PATH) (hfits : l.Fits lpsPath.length) (m_Size : DWORD) :
    Returns answers l lpsPath m_Size :=
  openSearch_of_ends m_Size findLoop_of_ends ⟨hroom, fun _ => ⟨h.exhausted _ _ _, h.answered l [] 0 lpsPath 0 hfits⟩⟩

end Passing

/-! ## Without errors -/

def noErrors : Answers := fun _ _ => none

theorem openSearch_noErrors {l : Listing FileSize} {path : Path} {lpsPath : CString} {m_Size r : DWORD}
    (hroom : ¬ MAX_PATH < lpsPath.length + 3 + 1) (hnil : l = .nil → m_Size = r)
    (h : ∃ fuel, findLoop noErrors fuel l path 0 lpsPath m_Size = some r) :
    ∃ fuel b, openSearch noErrors (findLoop noErrors fuel) l path lpsPath m_Size = some (b, r) := by
  obtain ⟨fuel, hfuel⟩ := h
  refine ⟨fuel, ?_⟩
  unfold openSearch
  rw [if_neg hroom]
  cases l with
  | nil =>
    rw [hnil rfl]
    exact ⟨false, rfl⟩
  | file name c rest => exact ⟨true, Option.map_eq_some_iff.2 ⟨r, hfuel, rfl⟩⟩
  | folder name items rest => exact ⟨true, Option.map_eq_some_iff.2 ⟨r, hfuel, rfl⟩⟩

theorem findLoop_noErrors (l : Listing FileSize) (path : Path) (calls : ℕ) (lpsPath : CString) (m_Size r : DWORD)
    (h : getDirSizeLoop l lpsPath m_Size = some r) :
    ∃ fuel, findLoop noErrors fuel l path calls lpsPath m_Size = some r := by
  induction l generalizing path calls lpsPath m_Size r with
  | nil => exact ⟨1, (findLoop_nil rfl 0).trans h⟩
  | file name c rest ih =>
    obtain ⟨fuel, hfuel⟩ := ih path (calls + 1) lpsPath _ r h
    exact ⟨fuel + 1, (findLoop_file rfl c fuel).trans hfuel⟩
  | folder name items rest ihitems ihrest =>
    unfold getDirSizeLoop at h
    by_cases hname : name ∈ dots
    · rw [if_pos hname] at h
      obtain ⟨fuel, hfuel⟩ := ihrest path (calls + 1) lpsPath _ r h
      exact ⟨fuel + 1, (findLoop_dots rfl hname fuel).trans hfuel⟩
    · rw [if_neg hname] at h
      split at h
      · exact absurd h (Option.some_ne_none r).symm
      · split at h
        · exact absurd h (Option.some_ne_none r).symm
        · next hroom =>
          obtain ⟨m, hitems, hrest⟩ := Option.bind_eq_some_iff.1 h
          have hnil : items = .nil → m_Size = m := by
            rintro rfl
            exact Option.some.inj hitems
          have hsub := ihitems (path ++ [name]) 0 _ _ m hitems
          obtain ⟨fuel, b, hfuel⟩ := openSearch_noErrors hroom hnil hsub
          obtain ⟨fuel', hfuel'⟩ := ihrest path (calls + 1) lpsPath m r hrest
          refine ⟨max fuel fuel' + 1, ?_⟩
          rw [findLoop_folder rfl hname, openSearch_mono (fun _ _ _ _ _ _ => findLoop_le (le_max_left fuel fuel')) hfuel]
          exact findLoop_le (le_max_right fuel fuel') hfuel'

/-- Without errors the size is the one that the sum over the whole tree gives. -/
theorem getDirSize_noErrors {l : Listing FileSize} {lpsPath : CString} {m_Size r : DWORD}
    (h : FileMisc.getDirSize l lpsPath m_Size = some r) :
    ∃ fuel b, getDirSize noErrors fuel l lpsPath m_Size = some (b, r) := by
  unfold FileMisc.getDirSize at h
  split at h
  · exact absurd h (Option.some_ne_none r).symm
  · next hroom =>
    refine openSearch_noErrors hroom ?_ (findLoop_noErrors l [] 0 lpsPath m_Size r h)
    rintro rfl
    exact Option.some.inj h

end StarLib.FileMisc.Enumeration
