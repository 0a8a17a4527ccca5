import StarLib.Ini.Growing
import StarLib.Ini.SplitBounds

/-! # Strings into a buffer

`CIni::GetString` copies with the size of the buffer for the number of characters; what it returns is counted apart from
the copy. `GetChar` reads a single character with a buffer size of 1.
-/

namespace StarLib.Ini
open Foundations
set_option autoImplicit false
set_option maxHeartbeats 250000
set_option maxRecDepth 120000

/-- `CIni::GetString`: the result, and the buffer afterwards. -/
def getString (build : Build) (fuel : ℕ) (f : Profile) (lpSection lpKey : Option CString) (lpBuffer : Option (Buf TCHAR))
    (dwBufSize : ℕ) (lpDefault : Option CString) : Option (ℕ × Option (Buf TCHAR)) :=
  let lpBuffer := lpBuffer.map fun b => b.put 0 0
  (getStringDynamic fuel f lpSection lpKey lpDefault).bind fun psz =>
    let dwLen := dword psz.length
    match lpBuffer with
    | none => some (dwLen, none)
    | some b => (boundedCopy build b 0 dwBufSize psz dwBufSize).map fun b => (min dwLen dwBufSize, some b)

/-- `TCHAR sz[n] = _T("")` -/
def emptyArray (n : ℕ) : Buf TCHAR := newBuffer n []

def getChar (build : Build) (fuel : ℕ) (f : Profile) (lpSection lpKey : Option CString) (cDefault : TCHAR) :
    Option TCHAR :=
  (getString build fuel f lpSection lpKey (some (emptyArray 2)) 1 none).bind fun r =>
    r.2.map fun sz => if sz.cell 0 = 0 then cDefault else sz.cell 0

def writeChar (f : Profile) (lpSection lpKey : Option CString) (c : TCHAR) : Bool × Profile :=
  writeString f lpSection lpKey (some ([c, 0].takeWhile (· ≠ 0)))

/-- A beginning of `s` is left with its terminator, all of `s` if it fits, and its length is returned. -/
def GetStringOk (s : CString) (r : Option (ℕ × Option (Buf TCHAR))) : Prop :=
  ∃ n b p, r = some (n, some b) ∧ b.inside = true ∧ p <+: s ∧ Begins b (p ++ [0]) ∧ (s.length < b.len → p = s) ∧
    n = p.length

/-! ## The copy -/

section Copy
variable {build : Build} {b : Buf TCHAR} {s : CString} {n : ℕ}

/-- A string that is shorter than the size is copied with its terminator. -/
theorem boundedCopy_short (build : Build) (hn : n ≤ b.len) (hinside : b.inside = true) (h : s.length < n) :
    ∃ b', boundedCopy build b 0 n s n = some b' ∧ b'.len = b.len ∧ b'.inside = true ∧ Begins b' (s ++ [0]) := by
  cases build with
  | plain =>
    obtain ⟨hlen, hin, hcells⟩ := wholeCopy_cells b s hn
    refine ⟨_, rfl, hlen, hin.trans hinside, begins_terminated_iff.2 ⟨by omega, ?_, ?_⟩⟩
    · exact cells_of_string (fun i hi => by rw [hcells, if_pos hi]) h.le
    · rw [hcells, if_pos h]
      exact List.getD_eq_default _ _ (Nat.le_refl _)
  | secure =>
    have hfull : s.length ≤ b.len := h.le.trans hn
    obtain ⟨hlen, hin, hcells⟩ := wholeCopy_cells b s hfull
    have hcopy : boundedCopy .secure b 0 n s n = some ((b.strncpy 0 s s.length).put s.length 0) := by
      unfold boundedCopy
      simp only
      rw [Nat.min_eq_right h.le, if_pos h, Nat.zero_add]
    have hput : ∀ i, ((b.strncpy 0 s s.length).put s.length 0).cell i =
        if i = s.length then 0 else (b.strncpy 0 s s.length).cell i := fun i => Function.update_apply _ _ _ _
    refine ⟨_, hcopy, hlen, written_inside (hin.trans hinside) (by omega) 0, begins_terminated_iff.2 ⟨?_, ?_, ?_⟩⟩
    · show s.length < (b.strncpy 0 s s.length).len
      omega
    · exact cells_of_string (fun i hi => by rw [hput, if_neg (by omega), hcells, if_pos hi]) le_rfl
    · rw [hput, if_pos rfl]

/-- A buffer that is full of characters has no terminator. -/
theorem full_no_terminator (hplain : ∀ c ∈ s, c ≠ 0) (h : n ≤ s.length) (hlen : b.len = n)
    (hcells : ∀ i < n, b.cell i = s.getD i 0) (p : CString) : ¬ Begins b (p ++ [0]) := by
  rw [begins_terminated_iff]
  rintro ⟨hroom, -, hzero⟩
  rw [hcells p.length (by omega), List.getD_eq_getElem?_getD, List.getElem?_eq_getElem (by omega)] at hzero
  exact hplain _ (List.getElem_mem (by omega)) hzero

theorem boundedCopy_long (h : n ≤ s.length) : boundedCopy .secure b 0 n s n = none := by
  unfold boundedCopy
  simp only
  rw [Nat.min_eq_left h]
  exact if_neg (Nat.lt_irrefl n)

end Copy

/-! ## `CIni::GetString` and `GetChar` -/

section Strings
variable {build : Build} {f : Profile} {sec key s : CString} {lpDefault : Option CString} {b : Buf TCHAR} {n : ℕ}
  (htext : (f sec key).getD (lpDefault.getD []) = s)
include htext

theorem getString_readable (hread : Readable s) :
    ∃ turns, ∀ fuel, turns ≤ fuel → getString build fuel f (some sec) (some key) (some b) n lpDefault =
      (boundedCopy build (b.put 0 0) 0 n s n).map fun b => (min s.length n, some b) := by
  refine ⟨s.length + 1, fun fuel hfuel => ?_⟩
  have hthreshold : threshold = 512 := rfl
  have hmax : s.length + 1 < 2 ^ 32 - threshold := hread
  have hpsz : getStringDynamic fuel f (some sec) (some key) lpDefault = some s :=
    getStringDynamic_readable htext hread (by rw [hthreshold]; omega)
  unfold getString
  simp only [Option.map_some]
  rw [hpsz, Option.bind_some]
  rw [dword_of_lt (by omega)]

theorem getString_endless (hread : ¬ Readable s) (fuel : ℕ) :
    getString build fuel f (some sec) (some key) (some b) n lpDefault = none := by
  unfold getString
  simp only
  rw [getStringDynamic_endless htext hread, Option.bind_none]

theorem getString_iff (hplain : ∀ c ∈ s, c ≠ 0) (hlen : 1 ≤ b.len) (hinside : b.inside = true) :
    (∃ turns, ∀ fuel, turns ≤ fuel →
        GetStringOk s (getString build fuel f (some sec) (some key) (some b) b.len lpDefault)) ↔
      s.length < b.len ∧ Readable s := by
  by_cases hread : Readable s
  · rw [eventually_iff (getString_readable htext hread), and_iff_left hread]
    have hin : (b.put 0 0).inside = true := written_inside hinside hlen 0
    by_cases hfits : s.length < b.len
    · refine iff_of_true ?_ hfits
      obtain ⟨b', hb', -, hin', hbegins⟩ := boundedCopy_short (b := b.put 0 0) build le_rfl hin hfits
      have hcopy : boundedCopy build (b.put 0 0) 0 b.len s b.len = some b' := hb'
      rw [hcopy, Option.map_some]
      exact ⟨_, b', s, rfl, hin', List.prefix_rfl, hbegins, fun _ => rfl, Nat.min_eq_left hfits.le⟩
    · refine iff_of_false ?_ hfits
      rintro ⟨m, b', p, hr, -, -, hbegins, -⟩
      obtain ⟨c, hcopy, heq⟩ := Option.map_eq_some_iff.1 hr
      rw [Prod.mk.injEq, Option.some.injEq] at heq
      rw [← heq.2] at hbegins
      cases build with
      | plain =>
        obtain ⟨hlen', -, hcells⟩ := wholeCopy_cells (b.put 0 0) s (n := b.len) le_rfl
        rw [← Option.some.inj hcopy] at hbegins
        exact full_no_terminator hplain (Nat.not_lt.1 hfits) hlen' (fun i hi => by rw [hcells, if_pos hi]) p hbegins
      | secure =>
        rw [boundedCopy_long (Nat.not_lt.1 hfits)] at hcopy
        cases hcopy
  · refine iff_of_false ?_ fun h => hread h.2
    rintro ⟨turns, hturns⟩
    obtain ⟨m, b', p, hr, -⟩ := hturns turns le_rfl
    rw [getString_endless htext hread] at hr
    cases hr

end Strings

theorem getChar_written (build : Build) (f : Profile) (sec key : CString) {c cDefault : TCHAR} (hc : c ≠ 0) :
    (∃ turns, ∀ fuel, turns ≤ fuel →
        getChar build fuel (writeChar f (some sec) (some key) c).2 (some sec) (some key) cDefault = some c) ↔
      build = .plain := by
  have hsz : [c, 0].takeWhile (· ≠ 0) = [c] := by
    rw [List.takeWhile_cons, if_pos (decide_eq_true hc)]
    rfl
  have htext : ((writeChar f (some sec) (some key) c).2 sec key).getD ((none : Option CString).getD []) = [c] := by
    unfold writeChar
    rw [hsz, writeString_here]
    rfl
  have hread : Readable [c] := by
    show 1 + 1 < 2 ^ 32 - threshold
    decide
  obtain ⟨turns, hturns⟩ : ∃ turns, ∀ fuel, turns ≤ fuel →
      getString build fuel (writeChar f (some sec) (some key) c).2 (some sec) (some key) (some (emptyArray 2)) 1 none = _ :=
    getString_readable htext hread
  have hget : ∀ fuel, turns ≤ fuel →
      getChar build fuel (writeChar f (some sec) (some key) c).2 (some sec) (some key) cDefault =
        if build = .plain then some c else none := by
    intro fuel hfuel
    unfold getChar
    rw [hturns fuel hfuel]
    cases build with
    | plain =>
      have hcell : (((emptyArray 2).put 0 0).strncpy 0 [c] 1).cell 0 = c :=
        (wholeCopy_cells ((emptyArray 2).put 0 0) [c] (n := 1) (by decide)).2.2 0
      show some (if (((emptyArray 2).put 0 0).strncpy 0 [c] 1).cell 0 = 0 then cDefault
        else (((emptyArray 2).put 0 0).strncpy 0 [c] 1).cell 0) = some c
      rw [hcell, if_neg hc]
    | secure =>
      have hcopy : boundedCopy .secure ((emptyArray 2).put 0 0) 0 1 [c] 1 = none := boundedCopy_long (Nat.le_refl 1)
      rw [hcopy]
      rfl
  rw [eventually_iff (P := fun r => r = some c) ⟨turns, hget⟩]
  cases build with
  | plain => exact iff_of_true rfl rfl
  | secure => exact iff_of_false nofun nofun

/-- What `GetString` needs room for, and what becomes of a character. -/
theorem strings_and_chars (build : Build) (f : Profile) (sec key : CString) :
    (∀ (s : CString) (lpDefault : Option CString) (lpBuffer : Buf TCHAR), f sec key = some s → (∀ c ∈ s, c ≠ 0) →
        1 ≤ lpBuffer.len → lpBuffer.inside = true →
          ((∃ turns, ∀ fuel, turns ≤ fuel → GetStringOk s
              (getString build fuel f (some sec) (some key) (some lpBuffer) lpBuffer.len lpDefault)) ↔
            s.length < lpBuffer.len ∧ Readable s)) ∧
      ∀ c cDefault : TCHAR, c ≠ 0 → isBlank c = false →
        ((∃ turns, ∀ fuel, turns ≤ fuel →
            getChar build fuel (writeChar f (some sec) (some key) c).2 (some sec) (some key) cDefault = some c) ↔
          build = .plain) := by
  refine ⟨?_, fun c cDefault hc _ => getChar_written build f sec key hc⟩
  intro s lpDefault lpBuffer hstored hplain hlen hinside
  exact getString_iff (by rw [hstored]; rfl) hplain hlen hinside

/-- The two characters `ab`, with a buffer of three. -/
theorem strings_and_chars_sample :
    ((∃ turns, ∀ fuel, turns ≤ fuel → GetStringOk [0x61, 0x62]
        (getString .plain fuel (fun _ _ => some [0x61, 0x62]) (some [0x73]) (some [0x6b]) (some (emptyArray 3)) 3 none)) ↔
      2 < 3 ∧ Readable [0x61, 0x62]) ∧
    ((∃ turns, ∀ fuel, turns ≤ fuel →
        getChar .plain fuel (writeChar (fun _ _ => none) (some [0x73]) (some [0x6b]) 0x61).2 (some [0x73]) (some [0x6b])
          0 = some 0x61) ↔
      Build.plain = .plain) :=
  ⟨(strings_and_chars .plain (fun _ _ => some [0x61, 0x62]) [0x73] [0x6b]).1 [0x61, 0x62] none (emptyArray 3) rfl
      (by decide) (by decide) rfl,
    (strings_and_chars .plain (fun _ _ => none) [0x73] [0x6b]).2 0x61 0 (by decide) (by decide)⟩

/-- One character in a buffer of one: no terminator is left. -/
theorem oneCharacter_unterminated :
    ¬ ∃ turns, ∀ fuel, turns ≤ fuel → GetStringOk [0x61]
      (getString .plain fuel (fun _ _ => some [0x61]) (some [0x73]) (some [0x6b]) (some (emptyArray 1)) 1 none) := by
  have hread : Readable [0x61] := by
    unfold Readable
    decide
  have hturns : ∃ turns, ∀ fuel, turns ≤ fuel →
      getString .plain fuel (fun _ _ => some [0x61]) (some [0x73]) (some [0x6b]) (some (emptyArray 1)) 1 none = _ :=
    getString_readable (f := fun _ _ => some [0x61]) (s := [0x61]) rfl hread
  rw [eventually_iff hturns]
  rintro ⟨n, b, p, hr, -, -, hbegins, -⟩
  rw [← Option.some.inj (Prod.mk.inj (Option.some.inj hr)).2] at hbegins
  exact full_no_terminator (s := [0x61]) (n := 1) (by decide) (by decide) rfl (by decide) p hbegins

end StarLib.Ini
