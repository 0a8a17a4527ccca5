import StarLib.Foundations.Segments
import StarLib.Ini.Profile

/-! # `CIni::__TrimString`, `__StringSplit` and `ParseDNTString`

A string is split into a double null terminated string, segment by segment. The copies are made by a macro with two
branches; the secure one passes the number of characters to copy for the size of the destination.
-/

namespace StarLib.Ini
open Foundations
set_option autoImplicit false
set_option maxHeartbeats 250000
set_option maxRecDepth 120000

/-- A space, `\t`, `\r` or `\n`. -/
def isBlank (c : TCHAR) : Bool := c == 0x20 || c == 0x09 || c == 0x0d || c == 0x0a

/-! ## `CIni::__TrimString` -/

/-- The loop over the right side; at 0 it reads `lpString[-1]`. -/
def trimRight (lpString : CString) : ℕ → Option ℕ
  | 0 => none
  | nLen + 1 => if isBlank (lpString.getD nLen 0) then trimRight lpString nLen else some (nLen + 1)

/-- `CIni::__TrimString`: the string afterwards. `nLen` is signed; the secure copy of the rest has no room for its
terminator. -/
def trimString (build : Build) (lpString : CString) : Option CString :=
  let nLen := dword lpString.length
  (if nLen < 2 ^ 31 then trimRight lpString nLen else some lpString.length).bind fun nLen =>
    let s := lpString.take nLen
    let p := s.dropWhile isBlank
    if build = .secure ∧ p ≠ s then none else some p

/-! ## `CIni::__StringSplit` -/

/-- `_tcsncpy(&b[off], src, count)`, or `_tcsncpy_s` with a size. -/
def boundedCopy (build : Build) (b : Buf TCHAR) (off size : ℕ) (src : CString) (count : ℕ) : Option (Buf TCHAR) :=
  match build with
  | .plain => some (b.strncpy off src count)
  | .secure =>
    let copied := min count src.length
    if copied < size then some ((b.strncpy off src copied).put (off + copied) 0) else none

structure SplitRun where
  lpBuffer : Buf TCHAR
  target : ℕ
  dwCopied : ℕ

def trimmed (build : Build) (bTrimString : Bool) (pszSeg : CString) : Option CString :=
  if bTrimString then trimString build pszSeg else some pszSeg

/-- The copy of a segment, with `COPY_LEN` counted in `DWORD`s. -/
def copySegment (build : Build) (dwBufSize : ℕ) (bTrimString : Bool) (s : SplitRun) (pszSeg : CString) :
    Option SplitRun :=
  (trimmed build bTrimString pszSeg).bind fun pszSeg =>
    let segLen := pszSeg.length
    let copyLen := min segLen (dword (dwBufSize + (2 ^ 32 - s.dwCopied)))
    if 0 < copyLen then
      (boundedCopy build s.lpBuffer s.target copyLen pszSeg copyLen).map fun lpBuffer =>
        ⟨lpBuffer.put (s.target + copyLen) 0, s.target + segLen + 1, dword (s.dwCopied + copyLen + 1)⟩
    else some s

/-- The search for the delimiter. Each match makes `lpPos` shorter. -/
def splitLoop (build : Build) (dwBufSize : ℕ) (bTrimString : Bool) (pszDel : CString) :
    ℕ → CString → SplitRun → Option SplitRun
  | 0, lpPos, s => copySegment build dwBufSize bTrimString s lpPos
  | fuel + 1, lpPos, s =>
    match firstMatch pszDel lpPos with
    | none => copySegment build dwBufSize bTrimString s lpPos
    | some i =>
      (copySegment build dwBufSize bTrimString s (lpPos.take i)).bind
        (splitLoop build dwBufSize bTrimString pszDel fuel (lpPos.drop (i + pszDel.length)))

/-- `CIni::__StringSplit`, on a buffer over `old`: the result, and the buffer afterwards. -/
def stringSplit (build : Build) (old lpString : CString) (lpBuffer : Buf TCHAR) (dwBufSize : ℕ)
    (lpDelimiter : Option CString) (bTrimString : Bool) : Option (ℕ × Buf TCHAR) :=
  if dwBufSize = 0 then some (0, lpBuffer)
  else
    let b := lpBuffer.put 0 0
    if lpString = [] then some (0, b)
    else if lpDelimiter = some [] then
      (boundedCopy build b 0 (dwBufSize - 1) lpString (dwBufSize - 1)).map fun b => ((b.readStr old.length).length, b)
    else
      (splitLoop build dwBufSize bTrimString (lpDelimiter.getD [0x2c]) lpString.length lpString ⟨b, 0, 0⟩).map fun s =>
        (s.dwCopied, s.lpBuffer.put s.dwCopied 0)

/-- `CIni::ParseDNTString` with `__SubStrAdd`: the strings in the memory from `p` on. -/
def parseDNTString : ℕ → CString → List CString
  | 0, _ => []
  | fuel + 1, p =>
    let s := p.takeWhile (· ≠ 0)
    if s = [] then [] else s :: parseDNTString fuel (p.drop (s.length + 1))

/-! ## What trimming leaves -/

theorem trimRight_some {s : CString} {n m : ℕ} (h : trimRight s n = some m) :
    0 < m ∧ m ≤ n ∧ isBlank (s.getD (m - 1) 0) = false := by
  induction n with
  | zero => exact absurd h nofun
  | succ n ih =>
    unfold trimRight at h
    split at h
    · obtain ⟨hpos, hle, hlast⟩ := ih h
      exact ⟨hpos, by omega, hlast⟩
    · next hlast =>
      obtain rfl := Option.some.inj h
      exact ⟨Nat.succ_pos n, Nat.le_refl _, Bool.eq_false_of_not_eq_true hlast⟩

theorem trimString_sublist {build : Build} {s t : CString} (h : trimString build s = some t) : t.Sublist s := by
  obtain ⟨n, -, hp⟩ := Option.bind_eq_some_iff.1 h
  simp only at hp
  split at hp
  · exact absurd hp nofun
  · rw [← Option.some.inj hp]
    exact (List.dropWhile_sublist _).trans (List.take_sublist n s)

theorem trimmed_sublist {build : Build} {bTrimString : Bool} {s t : CString} (h : trimmed build bTrimString s = some t) :
    t.Sublist s := by
  unfold trimmed at h
  split at h
  · exact trimString_sublist h
  · rw [Option.some.inj h]

/-- No blank at either end. -/
structure Trim (s : CString) : Prop where
  first : ∀ c ∈ s.head?, isBlank c = false
  last : ∀ c ∈ s.getLast?, isBlank c = false

theorem trimString_trim (build : Build) {s : CString} (hs : Trim s) (hne : s ≠ []) (hlength : s.length < 2 ^ 32) :
    trimString build s = some s := by
  have hpos := List.length_pos_iff.2 hne
  have hright : trimRight s s.length = some s.length := by
    obtain ⟨n, hn⟩ : ∃ n, s.length = n + 1 := ⟨s.length - 1, by omega⟩
    have hlast : isBlank (s.getD n 0) = false := by
      apply hs.last
      rw [List.getLast?_eq_getElem?, hn, List.getD_eq_getElem?_getD, Nat.add_sub_cancel,
        List.getElem?_eq_getElem (by omega)]
      rfl
    rw [hn]
    unfold trimRight
    rw [hlast]
    exact if_neg Bool.false_ne_true
  have hleft : s.dropWhile isBlank = s := by
    cases s with
    | nil => exact absurd rfl hne
    | cons c s => rw [List.dropWhile_cons, hs.first c rfl, if_neg Bool.false_ne_true]
  have hlen : (if s.length < 2 ^ 31 then trimRight s s.length else some s.length) = some s.length := by
    rw [hright, ite_self]
  unfold trimString
  simp only
  rw [dword_of_lt hlength, hlen, Option.bind_some, List.take_length, hleft]
  exact if_neg fun h => h.2 rfl

/-- The secure copy fails for every segment that has characters; a segment without any is not trimmed. -/
theorem copySegment_secure {dwBufSize : ℕ} {s : SplitRun} (hroom : 0 < dword (dwBufSize + (2 ^ 32 - s.dwCopied)))
    (pszSeg : CString) (hlength : pszSeg.length < 2 ^ 32) : copySegment .secure dwBufSize true s pszSeg = none := by
  unfold copySegment trimmed
  rw [if_pos rfl]
  cases htrim : trimString .secure pszSeg with
  | none => rfl
  | some t =>
    have hne : 0 < t.length := by
      obtain ⟨n, hn, hp⟩ := Option.bind_eq_some_iff.1 htrim
      simp only at hp
      split at hp
      · exact absurd hp nofun
      · next hkeep =>
        have hkeep' : (pszSeg.take n).dropWhile isBlank = pszSeg.take n := by
          by_contra hmore
          exact hkeep ⟨trivial, hmore⟩
        rw [← Option.some.inj hp, hkeep', List.length_take]
        rw [dword_of_lt hlength] at hn
        split at hn
        · have := trimRight_some hn
          omega
        · have := Option.some.inj hn
          omega
    have hcopy : 0 < min t.length (dword (dwBufSize + (2 ^ 32 - s.dwCopied))) := by omega
    simp only [Option.bind_some]
    rw [if_pos hcopy]
    unfold boundedCopy
    simp only
    rw [if_neg (by omega)]
    rfl

/-! ## The double null terminated string -/

/-- The strings that are not empty, each with its terminator. -/
def image (ts : List CString) : CString := (ts.filter (· ≠ [])).flatMap (· ++ [0])

theorem image_cons (t : CString) (ts : List CString) : image (t :: ts) = image [t] ++ image ts := by
  have hsplit : t :: ts = [t] ++ ts := rfl
  unfold image
  rw [hsplit, List.filter_append, List.flatMap_append]

theorem image_empty : image [[]] = [] := rfl

theorem image_single {t : CString} (ht : t ≠ []) : image [t] = t ++ [0] := by
  simp [image, ht]

theorem image_length_le (ts : List CString) : (image ts).length ≤ (ts.map fun t => t.length + 1).sum := by
  induction ts with
  | nil => exact Nat.le_refl 0
  | cons t ts ih =>
    rw [image_cons, List.length_append, List.map_cons, List.sum_cons]
    by_cases ht : t = []
    · rw [ht, image_empty]
      simp only [List.length_nil]
      omega
    · rw [image_single ht, List.length_append, List.length_singleton]
      omega

/-- The memory from the start of the image on gives the strings. -/
theorem parse_image {ts : List CString} (hts : ∀ t ∈ ts, ∀ c ∈ t, c ≠ 0) (rest : CString) {fuel : ℕ}
    (hfuel : (image ts).length < fuel) : parseDNTString fuel (image ts ++ 0 :: rest) = ts.filter (· ≠ []) := by
  induction ts generalizing fuel with
  | nil =>
    obtain ⟨fuel, rfl⟩ : ∃ m, fuel = m + 1 := ⟨fuel - 1, by omega⟩
    show parseDNTString (fuel + 1) (0 :: rest) = []
    unfold parseDNTString
    rfl
  | cons t ts ih =>
    have hrest : ∀ u ∈ ts, ∀ c ∈ u, c ≠ 0 := fun u hu => hts u (List.mem_cons_of_mem t hu)
    rw [image_cons, List.length_append] at hfuel
    by_cases ht : t = []
    · rw [ht, image_empty, List.length_nil, Nat.zero_add] at hfuel
      rw [ht, image_cons, image_empty, List.nil_append, ih hrest hfuel]
      rfl
    · rw [image_single ht, List.length_append, List.length_singleton] at hfuel
      obtain ⟨fuel, rfl⟩ : ∃ m, fuel = m + 1 := ⟨fuel - 1, by omega⟩
      have htake : (t ++ 0 :: (image ts ++ 0 :: rest)).takeWhile (· ≠ 0) = t := by
        rw [takeWhile_stop t _ (by simp)]
        exact List.takeWhile_eq_self_iff.2 fun c hc => decide_eq_true (hts t List.mem_cons_self c hc)
      have hdrop : (t ++ 0 :: (image ts ++ 0 :: rest)).drop (t.length + 1) = image ts ++ 0 :: rest := by
        rw [← List.drop_drop, List.drop_left]
        rfl
      rw [image_cons, image_single ht, List.append_assoc, List.append_assoc, List.singleton_append]
      unfold parseDNTString
      simp only
      rw [htake, if_neg ht, hdrop, ih hrest (by omega), List.filter_cons, if_pos (decide_eq_true ht)]

/-! ## The plain branch -/

/-- `out` is written from the start of a buffer of `cap` characters; what may follow it is still inside. -/
structure Filled (cap : ℕ) (out : CString) (s : SplitRun) : Prop where
  holds : ∃ r, s.lpBuffer.Holds cap (out ++ r) ∧ (out ++ r).length ≤ cap
  target : s.target = out.length
  copied : s.dwCopied = out.length

theorem copySegment_plain {dwBufSize cap : ℕ} {bTrimString : Bool} {s : SplitRun} {out pszSeg t : CString}
    (hs : Filled cap out s) (ht : trimmed .plain bTrimString pszSeg = some t) (hsize : dwBufSize < 2 ^ 32)
    (hfit : (out ++ image [t]).length ≤ dwBufSize) (hcap : (out ++ image [t]).length ≤ cap) :
    ∃ s', copySegment .plain dwBufSize bTrimString s pszSeg = some s' ∧ Filled cap (out ++ image [t]) s' := by
  obtain ⟨⟨r, hr, hrcap⟩, htarget, hcopied⟩ := hs
  unfold copySegment
  rw [ht]
  simp only [Option.bind_some]
  by_cases hempty : t = []
  · rw [hempty, image_empty, List.append_nil]
    rw [if_neg (by simp)]
    exact ⟨s, rfl, ⟨r, hr, hrcap⟩, htarget, hcopied⟩
  · have hpos := List.length_pos_iff.2 hempty
    rw [image_single hempty, ← List.append_assoc] at hfit hcap ⊢
    rw [List.length_append, List.length_append, List.length_singleton] at hfit hcap
    have hroom : dword (dwBufSize + (2 ^ 32 - s.dwCopied)) = dwBufSize - out.length := by
      unfold dword
      omega
    have hcopy : min t.length (dwBufSize - out.length) = t.length := by omega
    have hholds := ((hr.start hrcap).strncpy t).put 0
    rw [List.length_append] at hholds
    rw [hroom, hcopy, if_pos hpos, htarget, hcopied]
    refine ⟨_, rfl, ⟨[], ?_, ?_⟩, ?_, ?_⟩
    · rw [List.append_nil]
      exact hholds
    · rw [List.append_nil, List.length_append, List.length_append, List.length_singleton]
      exact hcap
    · rw [List.length_append, List.length_append, List.length_singleton]
    · rw [List.length_append, List.length_append, List.length_singleton]
      exact dword_of_lt (by omega)

theorem copySegments_plain {dwBufSize cap : ℕ} {bTrimString : Bool} {segs ts : List CString}
    (hts : List.Forall₂ (fun t seg => trimmed .plain bTrimString seg = some t) ts segs) {s : SplitRun} {out : CString}
    (hs : Filled cap out s) (hsize : dwBufSize < 2 ^ 32) (hfit : (out ++ image ts).length ≤ dwBufSize)
    (hcap : (out ++ image ts).length ≤ cap) :
    ∃ s', segs.foldlM (copySegment .plain dwBufSize bTrimString) s = some s' ∧ Filled cap (out ++ image ts) s' := by
  induction hts generalizing s out with
  | nil => exact ⟨s, rfl, by rwa [show image [] = [] from rfl, List.append_nil]⟩
  | @cons t seg ts segs ht _ ih =>
    rw [image_cons, ← List.append_assoc] at hfit hcap ⊢
    have hstart : (out ++ image [t]).length ≤ (out ++ image [t] ++ image ts).length :=
      (List.prefix_append _ _).length_le
    obtain ⟨s₁, hs₁, hfilled⟩ := copySegment_plain hs ht hsize (hstart.trans hfit) (hstart.trans hcap)
    obtain ⟨s₂, hs₂, hfilled₂⟩ := ih hfilled hfit hcap
    refine ⟨s₂, ?_, hfilled₂⟩
    rw [List.foldlM_cons, hs₁]
    exact hs₂

/-- Where all segments are copied, all of them were trimmed. -/
theorem copySegments_some {build : Build} {dwBufSize : ℕ} {bTrimString : Bool} {segs : List CString} {s s' : SplitRun}
    (h : segs.foldlM (copySegment build dwBufSize bTrimString) s = some s') :
    ∃ ts, List.Forall₂ (fun t seg => trimmed build bTrimString seg = some t) ts segs := by
  induction segs generalizing s with
  | nil => exact ⟨[], .nil⟩
  | cons seg segs ih =>
    rw [List.foldlM_cons] at h
    obtain ⟨s₁, hs₁, hrest⟩ := Option.bind_eq_some_iff.1 h
    obtain ⟨t, ht, -⟩ := Option.bind_eq_some_iff.1 hs₁
    obtain ⟨ts, hts⟩ := ih hrest
    exact ⟨t :: ts, .cons ht hts⟩

theorem splitLoop_eq (build : Build) (dwBufSize : ℕ) (bTrimString : Bool) (pszDel : CString) (fuel : ℕ) (lpPos : CString)
    (s : SplitRun) :
    splitLoop build dwBufSize bTrimString pszDel fuel lpPos s =
      (segments pszDel fuel lpPos).foldlM (copySegment build dwBufSize bTrimString) s := by
  have hsingle : ∀ seg s, [seg].foldlM (copySegment build dwBufSize bTrimString) s =
      copySegment build dwBufSize bTrimString s seg := by
    intro seg s
    rw [List.foldlM_cons]
    exact bind_pure _
  induction fuel generalizing lpPos s with
  | zero => exact (hsingle lpPos s).symm
  | succ fuel ih =>
    unfold splitLoop segments
    cases firstMatch pszDel lpPos with
    | none => exact (hsingle lpPos s).symm
    | some i =>
      simp only [List.foldlM_cons, ← ih]
      rfl

end StarLib.Ini
