import StarLib.Ini.StringArray
import StarLib.Ini.Trim

/-! # The buffer of `CIni::__StringSplit`

The plain copies into a buffer of `dwBufSize` characters, whatever was in it. The room that is left is a difference
of two `DWORD`s, and the terminators are not counted in it.
-/

namespace StarLib.Ini
open Foundations
set_option autoImplicit false
set_option maxHeartbeats 250000
set_option maxRecDepth 120000

/-- What a string is split into, on paper. -/
def splitResult (lpDelimiter : Option CString) (bTrimString : Bool) (s : CString) : List CString :=
  if lpDelimiter = some [] then [s]
  else (segments (lpDelimiter.getD [0x2c]) s.length s).map fun seg => if bTrimString then blankTrim seg else seg

/-- Ends with a null character of its own, and a second one. -/
def doubleNull (p : CString) : CString := if p = [] ∨ p.getLast? = some 0 then p ++ [0] else p ++ [0, 0]

/-- The buffer begins with `l`. -/
def Begins (b : Buf TCHAR) (l : CString) : Prop := l.length ≤ b.len ∧ ∀ i < l.length, l[i]? = some (b.cell i)

/-- Every write was inside, and a prefix of the double null terminated result is left with its terminators. -/
def SplitOk (ts : List CString) (r : Option (ℕ × Buf TCHAR)) : Prop :=
  ∃ n b, r = some (n, b) ∧ b.inside = true ∧ ∃ p, p <+: image ts ∧ Begins b (doubleNull p)

/-- A write was outside, or the terminator will be. -/
def Spilled (s : SplitRun) : Prop := s.lpBuffer.inside = false ∨ s.dwCopied = s.lpBuffer.len

theorem put_outside {b : Buf TCHAR} (h : b.inside = false) (i : ℕ) (v : TCHAR) : (b.put i v).inside = false := by
  unfold Buf.put
  dsimp only
  rw [h, Bool.false_and]

theorem written_inside {b : Buf TCHAR} (h : b.inside = true) {i : ℕ} (hi : i < b.len) (v : TCHAR) :
    (b.put i v).inside = true := by
  unfold Buf.put
  dsimp only
  rw [h, decide_eq_true hi]
  rfl

theorem put_past (b : Buf TCHAR) {i : ℕ} (h : b.len ≤ i) (v : TCHAR) : (b.put i v).inside = false := by
  unfold Buf.put
  dsimp only
  rw [decide_eq_false (by omega), Bool.and_false]

theorem strncpy_outside {b : Buf TCHAR} (h : b.inside = false) (off : ℕ) (src : CString) (count : ℕ) :
    (b.strncpy off src count).inside = false := by
  unfold Buf.strncpy
  refine forRange_inv (P := fun _ (c : Buf TCHAR) => c.inside = false) (Nat.zero_le count) h ?_
  exact fun i c _ _ hc => put_outside hc _ _

theorem strncpy_len (b : Buf TCHAR) (off : ℕ) (src : CString) (count : ℕ) : (b.strncpy off src count).len = b.len := by
  unfold Buf.strncpy
  exact forRange_inv (P := fun _ (c : Buf TCHAR) => c.len = b.len) (Nat.zero_le count) rfl fun i c _ _ hc => hc

section Spilling
variable {dwBufSize : ℕ} {bTrimString : Bool} {s s' : SplitRun} {pszSeg t : CString}

/-- The room that is left: none, when as many characters are counted as there are. -/
def room (dwBufSize : ℕ) (s : SplitRun) : ℕ := dword (dwBufSize + (2 ^ 32 - s.dwCopied))

theorem copySegment_eq (ht : trimmed .plain bTrimString pszSeg = some t) :
    copySegment .plain dwBufSize bTrimString s pszSeg =
      if 0 < min t.length (room dwBufSize s) then
        some ⟨(s.lpBuffer.strncpy s.target t (min t.length (room dwBufSize s))).put
            (s.target + min t.length (room dwBufSize s)) 0,
          s.target + t.length + 1, dword (s.dwCopied + min t.length (room dwBufSize s) + 1)⟩
      else some s := by
  unfold copySegment
  rw [ht]
  rfl

theorem copySegment_len (h : copySegment .plain dwBufSize bTrimString s pszSeg = some s') :
    s'.lpBuffer.len = s.lpBuffer.len := by
  obtain ⟨t, ht, -⟩ := Option.bind_eq_some_iff.1 h
  rw [copySegment_eq ht] at h
  split at h
  · rw [← Option.some.inj h]
    exact strncpy_len _ _ _ _
  · rw [← Option.some.inj h]

/-- Spilled stays spilled: with no room left a segment is left out. -/
theorem Spilled.step (hs : Spilled s) (hlen : s.lpBuffer.len = dwBufSize) (hsize : dwBufSize < 2 ^ 32)
    (h : copySegment .plain dwBufSize bTrimString s pszSeg = some s') : Spilled s' := by
  obtain ⟨t, ht, -⟩ := Option.bind_eq_some_iff.1 h
  rw [copySegment_eq ht] at h
  split at h
  · next hroom =>
    rw [← Option.some.inj h]
    cases hs with
    | inl houtside => exact Or.inl (put_outside (strncpy_outside houtside _ _ _) _ _)
    | inr hfull =>
      have hnone : room dwBufSize s = 0 := by
        unfold room dword
        omega
      omega
  · rw [← Option.some.inj h]
    exact hs

/-- A segment that does not fit with its terminator. -/
theorem Filled.spills {out : CString} (hs : Filled dwBufSize out s) (ht : trimmed .plain bTrimString pszSeg = some t)
    (hsize : dwBufSize < 2 ^ 32) (hne : t ≠ []) (hover : dwBufSize < out.length + t.length + 1)
    (h : copySegment .plain dwBufSize bTrimString s pszSeg = some s') : Spilled s' := by
  obtain ⟨⟨r, hr, hcap⟩, htarget, hcopied⟩ := hs
  have hout : out.length ≤ dwBufSize := (List.prefix_append out r).length_le.trans hcap
  have hpos := List.length_pos_iff.2 hne
  have hroom : room dwBufSize s = dwBufSize - out.length := by
    unfold room dword
    omega
  rw [copySegment_eq ht, hroom] at h
  split at h
  · rw [← Option.some.inj h]
    refine Or.inl (put_past _ ?_ _)
    rw [strncpy_len, hr.len]
    omega
  · rw [← Option.some.inj h]
    refine Or.inr ?_
    rw [hcopied, hr.len]
    omega

theorem Spilled.rest {segs : List CString} (hs : Spilled s) (hlen : s.lpBuffer.len = dwBufSize)
    (hsize : dwBufSize < 2 ^ 32) (h : segs.foldlM (copySegment .plain dwBufSize bTrimString) s = some s') :
    Spilled s' := by
  induction segs generalizing s with
  | nil =>
    rw [← Option.some.inj h]
    exact hs
  | cons seg segs ih =>
    rw [List.foldlM_cons] at h
    obtain ⟨s₁, hs₁, hrest⟩ := Option.bind_eq_some_iff.1 h
    exact ih (hs.step hlen hsize hs₁) ((copySegment_len hs₁).trans hlen) hrest

/-- Segments that do not fit with a second terminator behind them. -/
theorem Filled.rest_spills {segs ts : List CString} {out : CString}
    (hts : List.Forall₂ (fun t seg => trimmed .plain bTrimString seg = some t) ts segs) (hs : Filled dwBufSize out s)
    (hsize : dwBufSize < 2 ^ 32) (hover : dwBufSize ≤ (out ++ image ts).length)
    (h : segs.foldlM (copySegment .plain dwBufSize bTrimString) s = some s') : Spilled s' := by
  induction hts generalizing s out with
  | nil =>
    obtain ⟨⟨r, hr, hcap⟩, -, hcopied⟩ := hs
    have hout : out.length ≤ dwBufSize := (List.prefix_append out r).length_le.trans hcap
    have hnil : image [] = [] := rfl
    rw [hnil, List.append_nil] at hover
    rw [← Option.some.inj h]
    refine Or.inr ?_
    rw [hcopied, hr.len]
    omega
  | @cons t seg ts segs ht _ ih =>
    rw [List.foldlM_cons] at h
    obtain ⟨s₁, hs₁, hrest⟩ := Option.bind_eq_some_iff.1 h
    have hlen : s₁.lpBuffer.len = dwBufSize := by
      obtain ⟨r, hr, -⟩ := hs.holds
      rw [copySegment_len hs₁, hr.len]
    by_cases hfits : (out ++ image [t]).length ≤ dwBufSize
    · obtain ⟨s₂, hs₂, hfilled⟩ := copySegment_plain hs ht hsize hfits hfits
      rw [hs₁, Option.some.injEq] at hs₂
      rw [← hs₂] at hfilled
      rw [image_cons, ← List.append_assoc] at hover
      exact ih hfilled hover hrest
    · have hne : t ≠ [] := by
        rintro rfl
        obtain ⟨r, -, hcap⟩ := hs.holds
        rw [image_empty, List.append_nil] at hfits
        exact hfits ((List.prefix_append out r).length_le.trans hcap)
      rw [image_single hne, List.length_append, List.length_append, List.length_singleton] at hfits
      exact (hs.spills ht hsize hne (by omega) hs₁).rest hlen hsize hrest

end Spilling

/-! ## The whole function -/

/-- With trimming, every segment has a character that is no blank. -/
def NoBlankSegment (lpDelimiter : Option CString) (bTrimString : Bool) (s : CString) : Prop :=
  bTrimString = true → ∀ seg ∈ segments (lpDelimiter.getD [0x2c]) s.length s, ∃ c ∈ seg, isBlank c = false

/-- What a string and a buffer must be like. Without a delimiter to search for, the characters are copied up to the
last cell of the buffer, which is not written. -/
def SplitFits (lpBuffer : Buf TCHAR) (lpDelimiter : Option CString) (bTrimString : Bool) (s : CString) : Prop :=
  s = [] ∨
    if lpDelimiter = some [] then
      lpBuffer.len = 1 ∨ s.length + 3 ≤ lpBuffer.len ∨ s.length + 2 = lpBuffer.len ∧ lpBuffer.cell (s.length + 1) = 0
    else
      NoBlankSegment lpDelimiter bTrimString s ∧ (image (splitResult lpDelimiter bTrimString s)).length < lpBuffer.len

theorem doubleNull_image (ts : List CString) : doubleNull (image ts) = image ts ++ [0] := by
  have hends : image ts = [] ∨ (image ts).getLast? = some 0 := by
    induction ts with
    | nil => exact Or.inl rfl
    | cons t ts ih =>
      rw [image_cons]
      by_cases hrest : image ts = []
      · rw [hrest, List.append_nil]
        by_cases ht : t = []
        · rw [ht]
          exact Or.inl image_empty
        · rw [image_single ht]
          simp
      · rw [List.getLast?_append_of_ne_nil _ hrest]
        exact Or.inr (ih.resolve_left hrest)
  unfold doubleNull
  rw [if_pos hends]

theorem Begins.of_holds {b : Buf TCHAR} {n : ℕ} {l : CString} (h : b.Holds n l) (hin : l.length ≤ n) : Begins b l :=
  ⟨h.len ▸ hin, h.cells⟩

theorem Begins.holds {b : Buf TCHAR} {l : CString} (h : Begins b l) (hin : b.inside = true) : b.Holds b.len l :=
  ⟨rfl, h.2, by rw [hin, decide_eq_true h.1]⟩

theorem begins_terminated_iff {b : Buf TCHAR} {l : CString} :
    Begins b (l ++ [0]) ↔ l.length < b.len ∧ (∀ i < l.length, l[i]? = some (b.cell i)) ∧ b.cell l.length = 0 := by
  unfold Begins
  rw [List.length_append, List.length_singleton]
  constructor
  · rintro ⟨hroom, hcells⟩
    refine ⟨hroom, fun i hi => ?_, ?_⟩
    · rw [← hcells i (by omega), List.getElem?_append_left hi]
    · have hlast := hcells l.length (Nat.lt_succ_self _)
      rw [List.getElem?_concat_length] at hlast
      exact (Option.some.inj hlast).symm
  · rintro ⟨hroom, hcells, hzero⟩
    refine ⟨hroom, fun i hi => ?_⟩
    by_cases hlt : i < l.length
    · rw [List.getElem?_append_left hlt, hcells i hlt]
    · obtain rfl : i = l.length := by omega
      rw [List.getElem?_concat_length, hzero]

theorem cells_of_string {b : Buf TCHAR} {s : CString} {n : ℕ} (hcells : ∀ i < n, b.cell i = s.getD i 0) (hn : s.length ≤ n) :
    ∀ i < s.length, s[i]? = some (b.cell i) := by
  intro i hi
  rw [hcells i (by omega), List.getD_eq_getElem?_getD, List.getElem?_eq_getElem hi]
  rfl

section Fits
variable {old s : CString} {lpBuffer : Buf TCHAR} {lpDelimiter : Option CString} {bTrimString : Bool}

theorem trimmed_result {seg : CString} (hlong : bTrimString = true → seg.length < 2 ^ 31)
    (hblank : bTrimString = true → ∃ c ∈ seg, isBlank c = false) :
    trimmed .plain bTrimString seg = some (if bTrimString then blankTrim seg else seg) := by
  unfold trimmed
  cases bTrimString with
  | false => rfl
  | true =>
    have hne := (exists_nonblank_iff seg).1 (hblank rfl)
    rw [if_pos rfl, trimString_plain (hlong rfl), if_neg fun h => hne ((rdropWhile_eq_nil_iff seg).2 h)]
    rfl

theorem forall₂_right {α β : Type} {R : α → β → Prop} {l : List α} {l' : List β} (h : List.Forall₂ R l l') :
    ∀ b ∈ l', ∃ a, R a b := by
  induction h with
  | nil => exact fun b hb => absurd hb List.not_mem_nil
  | cons hab _ ih =>
    rw [List.forall_mem_cons]
    exact ⟨⟨_, hab⟩, ih⟩

theorem segment_length_le {d seg : CString} (h : seg ∈ segments d s.length s) : seg.length ≤ s.length := by
  have hsub := sublist_intercalate d h
  rw [intercalate_segments] at hsub
  exact hsub.length_le

theorem splitOk_delimiter (hlen : 0 < lpBuffer.len) (hinside : lpBuffer.inside = true) (hsize : lpBuffer.len < 2 ^ 32)
    (hne : s ≠ []) (hdel : lpDelimiter ≠ some []) (hlong : bTrimString = true → s.length < 2 ^ 31) :
    SplitOk (splitResult lpDelimiter bTrimString s)
        (stringSplit .plain old s lpBuffer lpBuffer.len lpDelimiter bTrimString) ↔
      NoBlankSegment lpDelimiter bTrimString s ∧
        (image (splitResult lpDelimiter bTrimString s)).length < lpBuffer.len := by
  have hfirst : (lpBuffer.put 0 0).Holds lpBuffer.len [0] := put_first ⟨rfl, nofun, hinside⟩
  have hsegs : ∀ seg ∈ segments (lpDelimiter.getD [0x2c]) s.length s, bTrimString = true → seg.length < 2 ^ 31 :=
    fun seg hseg htrim => Nat.lt_of_le_of_lt (segment_length_le hseg) (hlong htrim)
  -- trimmed without a failure, the segments are those of the result
  have hresult : NoBlankSegment lpDelimiter bTrimString s →
      List.Forall₂ (fun t seg => trimmed .plain bTrimString seg = some t) (splitResult lpDelimiter bTrimString s)
        (segments (lpDelimiter.getD [0x2c]) s.length s) := by
    intro hblank
    unfold splitResult
    rw [if_neg hdel, List.forall₂_map_left_iff, List.forall₂_same]
    exact fun seg hseg => trimmed_result (hsegs seg hseg) fun htrim => hblank htrim seg hseg
  constructor
  · rintro ⟨n, b, hr, hin, -⟩
    have hblank : NoBlankSegment lpDelimiter bTrimString s := by
      intro htrim seg hseg
      obtain ⟨ts, hts⟩ := stringSplit_some hne hdel hlen hr
      obtain ⟨t, ht⟩ := forall₂_right hts seg hseg
      unfold trimmed at ht
      rw [if_pos htrim, trimString_plain (hsegs seg hseg htrim)] at ht
      rw [exists_nonblank_iff]
      intro hnil
      rw [if_pos ((rdropWhile_eq_nil_iff seg).1 hnil)] at ht
      cases ht
    refine ⟨hblank, ?_⟩
    by_contra hover
    unfold stringSplit at hr
    simp only at hr
    rw [if_neg (by omega), if_neg hne, if_neg hdel, splitLoop_eq] at hr
    obtain ⟨s', hloop, heq⟩ := Option.map_eq_some_iff.1 hr
    have hfilled : Filled lpBuffer.len [] ⟨lpBuffer.put 0 0, 0, 0⟩ := ⟨⟨[0], hfirst, hlen⟩, rfl, rfl⟩
    have hspilled := hfilled.rest_spills (hresult hblank) hsize (Nat.not_lt.1 hover) hloop
    have hb : (s'.lpBuffer.put s'.dwCopied 0).inside = false := by
      cases hspilled with
      | inl houtside => exact put_outside houtside _ _
      | inr hfull => exact put_past _ hfull.ge _
    rw [← (Prod.mk.inj heq).2, hb] at hin
    cases hin
  · rintro ⟨hblank, hfits⟩
    obtain ⟨b, hr, hholds⟩ := stringSplit_plain hne hdel hlen old (hresult hblank) hfirst hsize hfits.le hfits
    have hroom : (image (splitResult lpDelimiter bTrimString s) ++ [0]).length ≤ lpBuffer.len := by
      rw [List.length_append, List.length_singleton]
      exact hfits
    refine ⟨_, b, hr, hholds.inside.trans (decide_eq_true hroom), _, List.prefix_rfl, ?_⟩
    rw [doubleNull_image]
    exact Begins.of_holds hholds hroom

/-- The copy of the whole string. -/
theorem wholeCopy_cells (b : Buf TCHAR) (s : CString) {n : ℕ} (hn : n ≤ b.len) :
    (b.strncpy 0 s n).len = b.len ∧ (b.strncpy 0 s n).inside = b.inside ∧
      ∀ i, (b.strncpy 0 s n).cell i = if i < n then s.getD i 0 else b.cell i := by
  have hloop := Buf.put_loop (fun i => s.getD i 0) n b
  unfold Buf.strncpy
  simp only [Nat.zero_add]
  rw [decide_eq_true hn, Bool.and_true] at hloop
  exact hloop

theorem begins_pair_iff {b : Buf TCHAR} {l : CString} :
    Begins b (l ++ [0, 0]) ↔
      (∀ i < l.length, l[i]? = some (b.cell i)) ∧ l.length + 2 ≤ b.len ∧ b.cell l.length = 0 ∧
        b.cell (l.length + 1) = 0 := by
  have hpair : l ++ [0, 0] = l ++ [0] ++ [0] := (List.append_assoc l [0] [0]).symm
  have hlength : (l ++ [0]).length = l.length + 1 := List.length_append
  rw [hpair, begins_terminated_iff, hlength]
  constructor
  · rintro ⟨hroom, hcells, hlast⟩
    have hbegins : Begins b (l ++ [0]) := ⟨by omega, fun i hi => hcells i (by omega)⟩
    obtain ⟨-, hfirst, hzero⟩ := begins_terminated_iff.1 hbegins
    exact ⟨hfirst, hroom, hzero, hlast⟩
  · rintro ⟨hfirst, hroom, hzero, hlast⟩
    have hbegins : Begins b (l ++ [0]) := begins_terminated_iff.2 ⟨by omega, hfirst, hzero⟩
    exact ⟨hroom, fun i hi => hbegins.2 i (by omega), hlast⟩

/-- A proper beginning of a string without null characters is followed by a character. -/
theorem begins_whole {b : Buf TCHAR} (hplain : ∀ c ∈ s, c ≠ 0) (hne : s ≠ []) (hlen : 2 ≤ b.len)
    (hcells : ∀ i < b.len - 1, b.cell i = s.getD i 0) {p : CString} (hp : p <+: image [s])
    (hb : Begins b (doubleNull p)) : s.length + 2 ≤ b.len ∧ b.cell (s.length + 1) = 0 := by
  have hnull : ∀ i < s.length, s.getD i 0 ≠ 0 := by
    intro i hi
    rw [List.getD_eq_getElem?_getD, List.getElem?_eq_getElem hi]
    exact hplain _ (List.getElem_mem hi)
  rw [image_single hne, List.prefix_concat_iff] at hp
  cases hp with
  | inl hall =>
    rw [hall, ← image_single hne, doubleNull_image, image_single hne, List.append_assoc, List.singleton_append,
      begins_pair_iff] at hb
    exact ⟨hb.2.1, hb.2.2.2⟩
  | inr hstart =>
    by_cases hnil : p = []
    · have hzero := hb.2 0 (by rw [hnil]; decide)
      rw [hnil, hcells 0 (by omega)] at hzero
      exact absurd (Option.some.inj hzero).symm (hnull 0 (List.length_pos_iff.2 hne))
    · have hdouble : doubleNull p = p ++ [0, 0] := by
        refine if_neg (not_or.2 ⟨hnil, fun hlast => ?_⟩)
        exact hplain 0 (hstart.subset (List.mem_of_getLast? hlast)) rfl
      rw [hdouble, begins_pair_iff] at hb
      obtain ⟨-, hroom, hzero, hlast⟩ := hb
      rw [hcells p.length (by omega)] at hzero
      have hfull : p = s := by
        by_contra hshort
        exact hnull p.length (Nat.lt_of_le_of_ne hstart.length_le fun heq => hshort (hstart.eq_of_length heq)) hzero
      rw [hfull] at hroom hlast
      exact ⟨hroom, hlast⟩

theorem splitOk_whole (hlen : 0 < lpBuffer.len) (hinside : lpBuffer.inside = true) (hne : s ≠ [])
    (hplain : ∀ c ∈ s, c ≠ 0) :
    SplitOk [s] (stringSplit .plain old s lpBuffer lpBuffer.len (some []) bTrimString) ↔
      lpBuffer.len = 1 ∨ s.length + 3 ≤ lpBuffer.len ∨
        s.length + 2 = lpBuffer.len ∧ lpBuffer.cell (s.length + 1) = 0 := by
  have hfirst := written_inside hinside hlen 0
  obtain ⟨hlen', hin, hcells⟩ := wholeCopy_cells (lpBuffer.put 0 0) s (n := lpBuffer.len - 1) (Nat.sub_le _ _)
  have hpos := List.length_pos_iff.2 hne
  have hold : ∀ i, (lpBuffer.put 0 0).cell i = if i = 0 then 0 else lpBuffer.cell i :=
    fun i => Function.update_apply _ _ _ _
  unfold SplitOk stringSplit
  simp only [boundedCopy, Option.map_some]
  rw [if_neg (by omega), if_neg hne, if_pos trivial]
  generalize (lpBuffer.put 0 0).strncpy 0 s (lpBuffer.len - 1) = b at hlen' hin hcells ⊢
  simp only [hold] at hcells
  change b.len = lpBuffer.len at hlen'
  constructor
  · rintro ⟨n, b', hr, -, p, hp, hb⟩
    rw [← (Prod.mk.inj (Option.some.inj hr)).2] at hb
    by_cases hone : lpBuffer.len = 1
    · exact Or.inl hone
    · obtain ⟨hroom, hlast⟩ := begins_whole hplain hne (by omega)
        (fun i hi => by rw [hcells, if_pos (by omega)]) hp hb
      refine Or.inr ?_
      by_cases hfull : s.length + 2 = lpBuffer.len
      · rw [hcells, if_neg (by omega), if_neg (by omega)] at hlast
        exact Or.inr ⟨hfull, hlast⟩
      · exact Or.inl (by omega)
  · intro hfits
    refine ⟨_, b, rfl, hin.trans hfirst, ?_⟩
    by_cases hone : lpBuffer.len = 1
    · refine ⟨[], List.nil_prefix, ?_, fun i hi => ?_⟩
      · show 1 ≤ b.len
        omega
      · obtain rfl : i = 0 := Nat.lt_one_iff.1 hi
        rw [hcells, if_neg (by omega), if_pos rfl]
        rfl
    · refine ⟨image [s], List.prefix_rfl, ?_⟩
      have hroom : s.length + 2 ≤ lpBuffer.len := by omega
      rw [doubleNull_image, image_single hne, List.append_assoc, List.singleton_append, begins_pair_iff]
      refine ⟨?_, by omega, ?_, ?_⟩
      · exact cells_of_string (fun i hi => by rw [hcells, if_pos (by omega)]) (Nat.le_refl _)
      · rw [hcells, if_pos (by omega)]
        exact List.getD_eq_default _ _ (Nat.le_refl _)
      · rw [hcells]
        split
        · exact List.getD_eq_default _ _ (Nat.le_succ _)
        · rw [if_neg (by omega)]
          rcases hfits with h | h | h
          · exact absurd h hone
          · omega
          · exact h.2

/-- `__StringSplit` stays inside its buffer and leaves a double null terminated beginning of the result, if and only if
the string and the buffer are as `SplitFits` says. -/
theorem splitOk_iff (hlen : 1 ≤ lpBuffer.len) (hinside : lpBuffer.inside = true) (hsize : lpBuffer.len < 2 ^ 32)
    (hplain : ∀ c ∈ s, c ≠ 0) (hlong : bTrimString = true → s.length < 2 ^ 31) :
    SplitOk (splitResult lpDelimiter bTrimString s)
        (stringSplit .plain old s lpBuffer lpBuffer.len lpDelimiter bTrimString) ↔
      SplitFits lpBuffer lpDelimiter bTrimString s := by
  unfold SplitFits
  by_cases hne : s = []
  · refine iff_of_true ?_ (Or.inl hne)
    refine ⟨0, lpBuffer.put 0 0, ?_, ?_, [], List.nil_prefix, hlen, fun i hi => ?_⟩
    · unfold stringSplit
      simp only
      rw [if_neg (by omega), if_pos hne]
    · exact written_inside hinside hlen 0
    · obtain rfl : i = 0 := Nat.lt_one_iff.1 hi
      have hcell : (lpBuffer.put 0 0).cell 0 = 0 := Function.update_self 0 0 lpBuffer.cell
      rw [hcell]
      rfl
  · rw [or_iff_right hne]
    by_cases hdel : lpDelimiter = some []
    · rw [if_pos hdel, hdel]
      unfold splitResult
      rw [if_pos rfl]
      exact splitOk_whole hlen hinside hne hplain
    · rw [if_neg hdel]
      exact splitOk_delimiter hlen hinside hsize hne hdel hlong

end Fits

/-- `ab,c` in a buffer of seven characters. -/
theorem splitOk_iff_sample :
    SplitOk (splitResult none true [0x61, 0x62, 0x2c, 0x63])
        (stringSplit .plain [] [0x61, 0x62, 0x2c, 0x63] (newBuffer 7 []) 7 none true) ↔
      SplitFits (newBuffer 7 []) none true [0x61, 0x62, 0x2c, 0x63] :=
  @splitOk_iff [] [0x61, 0x62, 0x2c, 0x63] (newBuffer 7 []) none true (by decide) rfl (by decide) (by decide)
    fun _ => by decide

/-- One character, into a buffer of one character: its terminator is written behind the buffer. -/
theorem terminator_behind_buffer :
    ¬ ∀ (old s : CString) (lpBuffer : Buf TCHAR) (lpDelimiter : Option CString) (bTrimString : Bool),
      1 ≤ lpBuffer.len → lpBuffer.inside = true → lpBuffer.len < 2 ^ 32 → (∀ c ∈ s, c ≠ 0) →
        (bTrimString = true → s.length < 2 ^ 31) →
          SplitOk (splitResult lpDelimiter bTrimString s)
            (stringSplit .plain old s lpBuffer lpBuffer.len lpDelimiter bTrimString) := by
  intro h
  obtain ⟨n, b, hr, hin, -⟩ := h [] [0x61] (newBuffer 1 []) none false (by decide) rfl (by decide) (by decide) nofun
  have hb : (stringSplit .plain [] [0x61] (newBuffer 1 []) 1 none false).map (fun r => r.2.inside) = some false := by
    decide
  change stringSplit .plain [] [0x61] (newBuffer 1 []) 1 none false = some (n, b) at hr
  rw [hr, Option.map_some, hin] at hb
  cases hb

end StarLib.Ini
