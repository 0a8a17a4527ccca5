import StarLib.Ini.Split

/-! # `CIni::WriteArray` and `GetArray`

An array is written with a delimiter between its elements. It is read in two passes over the text of the key, one
for the size of the buffer and one into the buffer.
-/

namespace StarLib.Ini
open Foundations
set_option autoImplicit false
set_option maxHeartbeats 250000
set_option maxRecDepth 120000

/-- `DELIMITER` of `WriteArray`. -/
def delimiterOf : Option CString → CString
  | none => [0x2c]
  | some d => if d = [] then [0x2c] else d

/-- `CIni::WriteArray`. -/
def writeArray (f : Profile) (lpSection lpKey : Option CString) (pArray : Option (List CString)) (nWriteCount : ℤ)
    (lpDelimiter : Option CString) : Bool × Profile :=
  match pArray with
  | none => (false, f)
  | some xs =>
    let n := if nWriteCount < 0 then xs.length else min nWriteCount.toNat xs.length
    let delimiter := delimiterOf lpDelimiter
    let sLine := forRange 0 n (fun i sLine => sLine ++ xs.getD i [] ++ if i ≠ n - 1 then delimiter else []) []
    writeString f lpSection lpKey (some sLine)

/-- `CIni::GetArray` with a buffer, or `NULL` for the size alone. `old` is what is in memory where the buffer is. -/
def getArray (build : Build) (old : CString) (fuel : ℕ) (f : Profile) (lpSection lpKey : Option CString)
    (lpBuffer : Option (Buf TCHAR)) (dwBufSize : ℕ) (lpDelimiter : Option CString) (bTrimString : Bool) :
    Option (ℕ × Option (Buf TCHAR)) :=
  let lpBuffer := lpBuffer.map (·.put 0 0)
  match lpSection, lpKey with
  | some sec, some key =>
    match getStringDynamic fuel f (some sec) (some key) none with
    | none => none
    | some psz =>
      if psz = [] then some (0, lpBuffer)
      else
        match lpBuffer with
        | none =>
          let maxLen := dword (psz.length + 2)
          (stringSplit build old psz (newBuffer (dword (maxLen + 1)) old) maxLen lpDelimiter bTrimString).bind fun r =>
            if r.2.inside then some (r.1, none) else none
        | some b => (stringSplit build old psz b dwBufSize lpDelimiter bTrimString).map fun r => (r.1, some r.2)
  | _, _ => some (0, lpBuffer)

/-- The strings in a buffer over `old`. -/
def stringsIn (old : CString) (b : Buf TCHAR) : List CString :=
  parseDNTString (max b.len old.length) ((List.range (max b.len old.length)).map b.cell)

/-- `CIni::GetArray` with a `CStringArray`: the array afterwards. `bTrimString` is commented out. -/
def getStringArray (build : Build) (old : ℕ → CString) (fuel : ℕ) (f : Profile) (lpSection lpKey lpDelimiter : Option CString)
    (_bTrimString : Bool) : Option (List CString) :=
  match getArray build (old 0) fuel f lpSection lpKey none 0 lpDelimiter true with
  | none => none
  | some (len, _) =>
    if len = 0 then some []
    else
      let psz := newBuffer (dword (len + 3)) (old 1)
      match getArray build (old 1) fuel f lpSection lpKey (some psz) (dword (len + 2)) lpDelimiter true with
      | some (_, some b) => if b.inside then some (stringsIn (old 1) b) else none
      | _ => none

/-! ## What is written -/

theorem intercalate_concat (d x : CString) (l : List CString) :
    d.intercalate (l ++ [x]) = l.flatMap (· ++ d) ++ x := by
  induction l with
  | nil => exact List.intercalate_singleton
  | cons y l ih =>
    rw [List.cons_append, intercalate_cons (by simp), ih, List.flatMap_cons, List.append_assoc _ _ x]

theorem writeArray_here (f : Profile) (sec key : CString) (xs : List CString) (lpDelimiter : Option CString) :
    (writeArray f (some sec) (some key) (some xs) (-1) lpDelimiter).2 sec key =
      some ((delimiterOf lpDelimiter).intercalate xs) := by
  unfold writeArray
  simp only
  rw [if_pos (by decide)]
  generalize delimiterOf lpDelimiter = d
  refine (writeString_here f sec key _).trans (congrArg some ?_)
  rcases List.eq_nil_or_concat xs with rfl | ⟨l, x, rfl⟩
  · rfl
  · rw [List.concat_eq_append, intercalate_concat]
    have hlength : (l ++ [x]).length = l.length + 1 := by simp
    have hfirst : forRange 0 l.length
        (fun i sLine => sLine ++ (l ++ [x]).getD i [] ++ if i ≠ l.length + 1 - 1 then d else []) [] =
        l.flatMap (· ++ d) := by
      have hloop := forRange_inv
        (f := fun i sLine => sLine ++ (l ++ [x]).getD i [] ++ if i ≠ l.length + 1 - 1 then d else [])
        (s := ([] : CString)) (fun i sLine => sLine = (l.take i).flatMap (· ++ d)) (Nat.zero_le l.length) rfl ?_
      · rw [hloop, List.take_length]
      · rintro i sLine - hi rfl
        have hnext : l.take (i + 1) = l.take i ++ [l[i]] := (List.take_append_getElem hi).symm
        have hmore : i ≠ l.length + 1 - 1 := by omega
        rw [if_pos hmore, hnext, List.flatMap_append, List.flatMap_singleton, List.append_assoc]
        congr 2
        rw [List.getD_eq_getElem?_getD, List.getElem?_append_left hi, List.getElem?_eq_getElem hi]
        rfl
    rw [hlength, forRange_succ (Nat.zero_le _), hfirst, if_neg (by omega), List.append_nil]
    congr 1
    rw [List.getD_eq_getElem?_getD, List.getElem?_append_right (Nat.le_refl _), Nat.sub_self]
    rfl

/-! ## What is read, in the plain branch -/

theorem newBuffer_holds (n : ℕ) (old : CString) : (newBuffer n old).Holds n [] := Buf.Holds.new _ _

theorem put_first {b : Buf TCHAR} {n : ℕ} (h : b.Holds n []) : (b.put 0 0).Holds n [0] := h.put 0

section Split

variable {s : CString} {lpDelimiter : Option CString} {bTrimString : Bool} {ts : List CString} {dwBufSize : ℕ}
  (hne : s ≠ []) (hdelimiter : lpDelimiter ≠ some []) (hpos : 0 < dwBufSize)
include hne hdelimiter hpos

theorem stringSplit_plain (old : CString)
    (hts : List.Forall₂ (fun t seg => trimmed .plain bTrimString seg = some t) ts
      (segments (lpDelimiter.getD [0x2c]) s.length s))
    {b : Buf TCHAR} {cap : ℕ} (hb : (b.put 0 0).Holds cap [0]) (hsize : dwBufSize < 2 ^ 32)
    (hfit : (image ts).length ≤ dwBufSize) (hcap : (image ts).length < cap) :
    ∃ b', stringSplit .plain old s b dwBufSize lpDelimiter bTrimString = some ((image ts).length, b') ∧
      b'.Holds cap (image ts ++ [0]) := by
  have hfilled : Filled cap [] ⟨b.put 0 0, 0, 0⟩ := by
    refine ⟨⟨[0], hb, ?_⟩, rfl, rfl⟩
    show 1 ≤ cap
    omega
  obtain ⟨s', hloop, ⟨r, hr, hrcap⟩, -, hcopied⟩ :=
    copySegments_plain hts hfilled hsize (by rw [List.nil_append]; exact hfit) (by rw [List.nil_append]; omega)
  rw [List.nil_append] at hr hrcap hcopied
  refine ⟨s'.lpBuffer.put (image ts).length 0, ?_, (hr.start hrcap).put 0⟩
  unfold stringSplit
  simp only
  rw [if_neg (by omega), if_neg hne, if_neg hdelimiter, splitLoop_eq, hloop, Option.map_some, hcopied]

theorem stringSplit_some {build : Build} {old : CString} {b : Buf TCHAR} {r : ℕ × Buf TCHAR}
    (h : stringSplit build old s b dwBufSize lpDelimiter bTrimString = some r) :
    ∃ ts, List.Forall₂ (fun t seg => trimmed build bTrimString seg = some t) ts
      (segments (lpDelimiter.getD [0x2c]) s.length s) := by
  unfold stringSplit at h
  simp only at h
  rw [if_neg (by omega), if_neg hne, if_neg hdelimiter, splitLoop_eq] at h
  obtain ⟨s', hloop, -⟩ := Option.map_eq_some_iff.1 h
  exact copySegments_some hloop

theorem stringSplit_secure {old : CString} {b : Buf TCHAR} (hsize : dwBufSize < 2 ^ 32) (hlength : s.length < 2 ^ 32) :
    stringSplit .secure old s b dwBufSize lpDelimiter true = none := by
  have hroom : 0 < dword (dwBufSize + (2 ^ 32 - 0)) := by
    unfold dword
    omega
  have hcopy := fun (seg : CString) (hseg : seg.length < 2 ^ 32) =>
    copySegment_secure (s := ⟨b.put 0 0, 0, 0⟩) hroom seg hseg
  unfold stringSplit
  simp only
  rw [if_neg (by omega), if_neg hne, if_neg hdelimiter]
  generalize s.length = fuel
  have hloop : splitLoop .secure dwBufSize true (lpDelimiter.getD [0x2c]) fuel s ⟨b.put 0 0, 0, 0⟩ = none := by
    cases fuel with
    | zero => exact hcopy s hlength
    | succ fuel =>
      unfold splitLoop
      split
      · exact hcopy s hlength
      · next i _ =>
        rw [hcopy (s.take i) (by rw [List.length_take]; omega)]
        rfl
  rw [hloop]
  rfl

end Split

theorem stringsIn_holds {old : CString} {b : Buf TCHAR} {cap : ℕ} {ts : List CString} (hb : b.Holds cap (image ts ++ [0]))
    (hts : ∀ t ∈ ts, ∀ c ∈ t, c ≠ 0) (hcap : (image ts).length < cap) : stringsIn old b = ts.filter (· ≠ []) := by
  have hfits : (image ts ++ [0]).length ≤ max b.len old.length := by
    rw [hb.len, List.length_append, List.length_singleton]
    omega
  unfold stringsIn
  rw [hb.map_range hfits, List.append_assoc, List.singleton_append]
  refine parse_image hts _ ?_
  rw [List.length_append] at hfits
  exact Nat.lt_of_succ_le hfits

section Read

variable {fuel : ℕ} {f : Profile} {sec key s : CString} {lpDelimiter : Option CString}
  (hget : getStringDynamic fuel f (some sec) (some key) none = some s) (hread : Readable s) (hne : s ≠ [])
include hget hread hne

theorem getArray_none (build : Build) (old : CString) (lpDelimiter : Option CString) :
    getArray build old fuel f (some sec) (some key) none 0 lpDelimiter true =
      (stringSplit build old s (newBuffer (s.length + 3) old) (s.length + 2) lpDelimiter true).bind fun r =>
        if r.2.inside then some (r.1, none) else none := by
  have hmax : s.length + 1 < 2 ^ 32 - 512 := hread
  have hlen : dword (s.length + 2) = s.length + 2 := dword_of_lt (by omega)
  unfold getArray
  simp only [Option.map_none]
  rw [hget]
  simp only
  rw [if_neg hne, hlen, dword_of_lt (by omega)]

omit hread in
theorem getArray_some (build : Build) (old : CString) (lpDelimiter : Option CString) (b : Buf TCHAR) (dwBufSize : ℕ) :
    getArray build old fuel f (some sec) (some key) (some b) dwBufSize lpDelimiter true =
      (stringSplit build old s (b.put 0 0) dwBufSize lpDelimiter true).map fun r => (r.1, some r.2) := by
  unfold getArray
  simp only [Option.map_some]
  rw [hget]
  simp only
  rw [if_neg hne]

theorem getStringArray_plain (hdelimiter : lpDelimiter ≠ some []) (hplain : ∀ c ∈ s, c ≠ 0) {ts : List CString}
    (hts : List.Forall₂ (fun t seg => trimmed .plain true seg = some t) ts
      (segments (lpDelimiter.getD [0x2c]) s.length s)) (old : ℕ → CString) (bTrimString : Bool) :
    getStringArray .plain old fuel f (some sec) (some key) lpDelimiter bTrimString = some (ts.filter (· ≠ [])) := by
  have hmax : s.length + 1 < 2 ^ 32 - 512 := hread
  have hd : lpDelimiter.getD [0x2c] ≠ [] := by
    cases lpDelimiter with
    | none => exact List.cons_ne_nil _ _
    | some d => exact fun h => hdelimiter (congrArg some h)
  have hsub : List.Forall₂ List.Sublist ts (segments (lpDelimiter.getD [0x2c]) s.length s) :=
    hts.imp fun _ _ h => trimmed_sublist h
  have hlength : (image ts).length ≤ s.length + 1 := by
    have hterminated := terminated_length_le hd (segments_ne_nil (lpDelimiter.getD [0x2c]) s.length s)
    rw [intercalate_segments] at hterminated
    have hle := sublists_le (d := [0]) hsub
    exact (image_length_le ts).trans (hle.trans hterminated)
  have hchars : ∀ t ∈ ts, ∀ c ∈ t, c ≠ 0 := by
    refine sublists_forall hsub fun seg hseg c hc => hplain c ?_
    have hsegs := sublist_intercalate (lpDelimiter.getD [0x2c]) hseg
    rw [intercalate_segments] at hsegs
    exact hsegs.subset hc
  obtain ⟨b₁, hfirst, hb₁⟩ := stringSplit_plain hne hdelimiter (Nat.succ_pos (s.length + 1)) (old 0) hts
    (put_first (newBuffer_holds (s.length + 3) (old 0))) (by omega) (by omega) (by omega)
  have hinside₁ : b₁.inside = true := by
    rw [hb₁.inside, List.length_append, List.length_singleton]
    exact decide_eq_true (by omega)
  unfold getStringArray
  rw [getArray_none hget hread hne, hfirst]
  simp only [Option.bind_some]
  rw [if_pos hinside₁]
  simp only
  by_cases hzero : (image ts).length = 0
  · have hnone : ts.filter (· ≠ []) = [] := by
      cases hkept : ts.filter (· ≠ []) with
      | nil => rfl
      | cons t us =>
        unfold image at hzero
        rw [hkept] at hzero
        simp at hzero
    rw [if_pos hzero, hnone]
  · have hput := put_first (newBuffer_holds ((image ts).length + 3) (old 1))
    have hput' : (((newBuffer ((image ts).length + 3) (old 1)).put 0 0).put 0 0).Holds ((image ts).length + 3) [0] :=
      put_first (Buf.Holds.start (l := []) hput (by simp))
    obtain ⟨b₂, hsecond, hb₂⟩ := stringSplit_plain hne hdelimiter (Nat.succ_pos ((image ts).length + 1)) (old 1) hts
      hput' (by omega) (by omega) (by omega)
    have hinside₂ : b₂.inside = true := by
      rw [hb₂.inside, List.length_append, List.length_singleton]
      exact decide_eq_true (by omega)
    rw [if_neg hzero, dword_of_lt (by omega), dword_of_lt (by omega), getArray_some hget hne, hsecond]
    simp only [Option.map_some]
    rw [if_pos hinside₂, stringsIn_holds hb₂ hchars (by omega)]

theorem getStringArray_split {build : Build} (hdelimiter : lpDelimiter ≠ some []) {old : ℕ → CString} {bTrimString : Bool}
    {xs : List CString} (h : getStringArray build old fuel f (some sec) (some key) lpDelimiter bTrimString = some xs) :
    build = .plain ∧ ∃ ts, List.Forall₂ (fun t seg => trimmed .plain true seg = some t) ts
      (segments (lpDelimiter.getD [0x2c]) s.length s) := by
  have hmax : s.length + 1 < 2 ^ 32 - 512 := hread
  unfold getStringArray at h
  rw [getArray_none hget hread hne] at h
  cases hsplit : stringSplit build (old 0) s (newBuffer (s.length + 3) (old 0)) (s.length + 2) lpDelimiter true with
  | none =>
    rw [hsplit] at h
    exact absurd h nofun
  | some r =>
    cases build with
    | plain => exact ⟨rfl, stringSplit_some hne hdelimiter (Nat.succ_pos _) hsplit⟩
    | secure =>
      rw [stringSplit_secure hne hdelimiter (Nat.succ_pos _) (by omega) (by omega)] at hsplit
      exact absurd hsplit nofun

end Read

theorem getStringArray_nil {fuel : ℕ} {f : Profile} {sec key : CString}
    (hget : getStringDynamic fuel f (some sec) (some key) none = some [])
    (build : Build) (old : ℕ → CString) (lpDelimiter : Option CString) (bTrimString : Bool) :
    getStringArray build old fuel f (some sec) (some key) lpDelimiter bTrimString = some [] := by
  unfold getStringArray getArray
  simp only [Option.map_none]
  rw [hget]
  rfl

theorem getStringArray_endless {fuel : ℕ} {f : Profile} {sec key : CString}
    (hget : getStringDynamic fuel f (some sec) (some key) none = none) (build : Build) (old : ℕ → CString)
    (lpDelimiter : Option CString) (bTrimString : Bool) :
    getStringArray build old fuel f (some sec) (some key) lpDelimiter bTrimString = none := by
  unfold getStringArray getArray
  simp only [Option.map_none]
  rw [hget]

theorem getStringArray_text {fuel : ℕ} {f : Profile} {sec key s : CString} (htext : f sec key = some s) {build : Build}
    {old : ℕ → CString} {lpDelimiter : Option CString} {bTrimString : Bool} {xs : List CString}
    (h : getStringArray build old fuel f (some sec) (some key) lpDelimiter bTrimString = some xs) :
    getStringDynamic fuel f (some sec) (some key) none = some s ∧ Readable s := by
  cases hget : getStringDynamic fuel f (some sec) (some key) none with
  | none =>
    rw [getStringArray_endless hget] at h
    exact absurd h nofun
  | some psz =>
    obtain ⟨rfl, hread⟩ := getStringDynamic_some (stored_text htext) hget
    exact ⟨rfl, hread⟩

/-! ## An empty delimiter -/

/-- The copy of the whole string ends with its terminator and leaves the rest of the buffer. -/
theorem wholeCopy (build : Build) {b : Buf TCHAR} {cap : ℕ} (hb : b.Holds cap []) (s : CString) :
    ∃ b', boundedCopy build b 0 (s.length + 1) s (s.length + 1) = some b' ∧ b'.Holds cap (s ++ [0]) ∧
      b'.cell (s.length + 1) = b.cell (s.length + 1) := by
  have hkeep : ∀ m, m ≤ s.length + 1 → (b.strncpy 0 s m).cell (s.length + 1) = b.cell (s.length + 1) := by
    intro m hm
    have hcell := (Buf.put_loop (fun i => s.getD i 0) m b).2.2 (s.length + 1)
    rw [if_neg (by omega)] at hcell
    unfold Buf.strncpy
    simp only [Nat.zero_add]
    exact hcell
  cases build with
  | plain => exact ⟨_, rfl, hb.strncpy_succ s, hkeep _ (Nat.le_refl _)⟩
  | secure =>
    have hcopied : min (s.length + 1) s.length = s.length := by omega
    unfold boundedCopy
    simp only
    rw [hcopied, if_pos (Nat.lt_succ_self _), Nat.zero_add]
    refine ⟨_, rfl, (hb.strncpy s).put 0, ?_⟩
    show Function.update _ s.length _ (s.length + 1) = _
    rw [Function.update_of_ne (Nat.succ_ne_self _)]
    exact hkeep _ (Nat.le_succ _)

/-- Every run copies the whole string, without its second zero. -/
theorem stringSplit_whole (build : Build) (old s : CString) (hread : Readable s) (hne : s ≠ []) (hplain : ∀ c ∈ s, c ≠ 0)
    {b : Buf TCHAR} (hb : (b.put 0 0).Holds (s.length + 3) [0]) :
    ∃ b', stringSplit build old s b (s.length + 2) (some []) true = some (s.length, b') ∧
      b'.Holds (s.length + 3) (s ++ [0]) ∧ b'.cell (s.length + 1) = b.cell (s.length + 1) := by
  have hmax : s.length + 1 < 2 ^ 32 - 512 := hread
  obtain ⟨b', hcopy, hholds, hcell⟩ := wholeCopy build (Buf.Holds.start (l := []) hb (by simp)) s
  have hsame : (b.put 0 0).cell (s.length + 1) = b.cell (s.length + 1) :=
    Function.update_of_ne (Nat.succ_ne_zero s.length) 0 b.cell
  refine ⟨b', ?_, hholds, hcell.trans hsame⟩
  have hsize : s.length + 2 - 1 = s.length + 1 := by omega
  unfold stringSplit
  simp only
  rw [if_neg (by omega), if_neg hne, if_pos trivial, hsize, hcopy, Option.map_some, hholds.readStr (by omega) hplain]

/-- A string and its terminator, read on into what was in memory, are the string and at least one more. -/
theorem stringsIn_whole {b : Buf TCHAR} {s : CString} (hb : b.Holds (s.length + 3) (s ++ [0])) (hne : s ≠ [])
    (hplain : ∀ c ∈ s, c ≠ 0) (hnext : b.cell (s.length + 1) = 1) {old : CString} (hold : old.length = s.length + 2) :
    ∃ t ts, stringsIn old b = s :: t :: ts := by
  have hlen : max b.len old.length = s.length + 1 + 1 + 1 := by
    rw [hb.len, hold]
    omega
  have hcells : ∃ rest, (List.range (s.length + 1 + 1 + 1)).map b.cell = s ++ 0 :: 1 :: rest := by
    have hfits : (s ++ [0]).length ≤ s.length + 1 + 1 + 1 := by
      rw [List.length_append, List.length_singleton]
      omega
    have hmemory := hb.map_range hfits
    have hdrop : ((List.range (s.length + 1 + 1 + 1)).map b.cell).drop (s ++ [0]).length =
        1 :: ((List.range (s.length + 1 + 1 + 1)).map b.cell).drop (s.length + 1 + 1) := by
      rw [List.length_append, List.length_singleton, List.drop_eq_getElem_cons (by simp)]
      simp [hnext]
    rw [hdrop, List.append_assoc, List.singleton_append] at hmemory
    exact ⟨_, hmemory⟩
  obtain ⟨rest, hrest⟩ := hcells
  unfold stringsIn
  rw [hlen, hrest]
  unfold parseDNTString
  simp only
  rw [takeWhile_stop s _ (by simp), List.takeWhile_eq_self_iff.2 fun c hc => decide_eq_true (hplain c hc), if_neg hne,
    ← List.drop_drop, List.drop_left]
  unfold parseDNTString
  simp only [List.drop_succ_cons, List.drop_zero, List.takeWhile_cons]
  exact ⟨_, _, rfl⟩

/-- The double null terminated string lacks its second zero, and parsing goes on into what was in memory. -/
theorem getStringArray_whole {build : Build} {fuel : ℕ} {f : Profile} {sec key s : CString}
    (hget : getStringDynamic fuel f (some sec) (some key) none = some s) (hread : Readable s) (hne : s ≠ [])
    (hplain : ∀ c ∈ s, c ≠ 0) {bTrimString : Bool} {xs : List CString}
    (h : getStringArray build (fun _ => List.replicate (s.length + 2) 1) fuel f (some sec) (some key) (some [])
      bTrimString = some xs) : ∃ t ts, xs = s :: t :: ts := by
  have hmax : s.length + 1 < 2 ^ 32 - 512 := hread
  have hpos := List.length_pos_iff.2 hne
  generalize hold : List.replicate (s.length + 2) 1 = old at h
  have hput := put_first (newBuffer_holds (s.length + 3) old)
  obtain ⟨b₁, hfirst, hb₁, -⟩ := stringSplit_whole build old s hread hne hplain hput
  have hinside : ∀ {b : Buf TCHAR}, b.Holds (s.length + 3) (s ++ [0]) → b.inside = true := by
    intro b hb
    rw [hb.inside, List.length_append, List.length_singleton]
    exact decide_eq_true (by omega)
  unfold getStringArray at h
  rw [getArray_none hget hread hne, hfirst] at h
  simp only [Option.bind_some] at h
  rw [if_pos (hinside hb₁)] at h
  simp only at h
  obtain ⟨b₂, hsecond, hb₂, hcell⟩ :=
    stringSplit_whole build old s hread hne hplain (put_first (Buf.Holds.start (l := []) hput (by simp)))
  rw [if_neg (by omega), dword_of_lt (by omega), dword_of_lt (by omega), getArray_some hget hne, hsecond] at h
  simp only [Option.map_some] at h
  rw [if_pos (hinside hb₂)] at h
  rw [← Option.some.inj h]
  -- the character after the terminator was there before
  have hnext : b₂.cell (s.length + 1) = 1 := by
    have hsame : ((newBuffer (s.length + 3) old).put 0 0).cell (s.length + 1) = old.getD (s.length + 1) 0 :=
      Function.update_of_ne (Nat.succ_ne_zero s.length) 0 (newBuffer (s.length + 3) old).cell
    rw [hcell, hsame]
    rw [← hold, List.getD_eq_getElem?_getD, List.getElem?_replicate, if_pos (by omega)]
    rfl
  exact stringsIn_whole hb₂ hne hplain hnext (by rw [← hold, List.length_replicate])

/-! ## Arrays read back -/

/-- A string that is not empty, without the delimiter, NUL and line breaks, and without blanks at its ends. -/
structure Element (d x : CString) : Prop where
  nonempty : x ≠ []
  free : ¬ d <:+: x
  chars : ∀ c ∈ x, c ≠ 0 ∧ c ≠ 0x0d ∧ c ≠ 0x0a
  trim : Trim x

theorem intercalate_chars {P : TCHAR → Prop} {d : CString} (hd : ∀ c ∈ d, P c) {xs : List CString}
    (hxs : ∀ x ∈ xs, ∀ c ∈ x, P c) : ∀ c ∈ d.intercalate xs, P c := by
  rcases List.eq_nil_or_concat xs with rfl | ⟨l, x, rfl⟩
  · exact fun c hc => absurd hc List.not_mem_nil
  · intro c hc
    rw [List.concat_eq_append] at hc hxs
    rw [intercalate_concat, List.mem_append, List.mem_flatMap] at hc
    rcases hc with ⟨y, hy, hc⟩ | hc
    · rcases List.mem_append.1 hc with hc | hc
      · exact hxs y (List.mem_append_left _ hy) c hc
      · exact hd c hc
    · exact hxs x (List.mem_append_right _ (List.mem_singleton_self x)) c hc

theorem delimiterOf_ne_nil (lpDelimiter : Option CString) : delimiterOf lpDelimiter ≠ [] := by
  unfold delimiterOf
  cases lpDelimiter with
  | none => exact List.cons_ne_nil _ _
  | some d =>
    show (if d = [] then [0x2c] else d) ≠ []
    split
    · exact List.cons_ne_nil _ _
    · next hd => exact hd

theorem delimiterOf_eq {lpDelimiter : Option CString} (h : lpDelimiter ≠ some []) :
    lpDelimiter.getD [0x2c] = delimiterOf lpDelimiter := by
  cases lpDelimiter with
  | none => rfl
  | some d => exact (if_neg fun hd => h (congrArg some hd)).symm

theorem delimiterOf_chars {lpDelimiter : Option CString} (hd : ∀ d ∈ lpDelimiter, ∀ c ∈ d, c ≠ 0) :
    ∀ c ∈ delimiterOf lpDelimiter, c ≠ 0 := by
  unfold delimiterOf
  cases lpDelimiter with
  | none => simp
  | some d =>
    show ∀ c ∈ (if d = [] then [0x2c] else d), c ≠ 0
    split
    · simp
    · exact hd d rfl

theorem intercalate_ne_nil {d : CString} {xs : List CString} (hxs : ∀ x ∈ xs, Element d x) (hempty : xs ≠ []) :
    d.intercalate xs ≠ [] := by
  obtain ⟨x, hx⟩ := List.exists_mem_of_ne_nil xs hempty
  intro hnil
  have hsub := sublist_intercalate d hx
  rw [hnil] at hsub
  exact (hxs x hx).nonempty (List.sublist_nil.1 hsub)

section Stored
variable {build : Build} {f : Profile} {sec key : CString} {xs : List CString} {lpDelimiter : Option CString} {bTrimString : Bool}
  (hhere : f sec key = some ((delimiterOf lpDelimiter).intercalate xs)) (hempty : xs ≠ [])
  (hplain : ∀ c ∈ (delimiterOf lpDelimiter).intercalate xs, c ≠ 0) (hxs : ∀ x ∈ xs, Element (delimiterOf lpDelimiter) x)

include hhere hempty hplain hxs

/-- With the empty string as the delimiter there are buffers in which the array is not read back. -/
theorem stored_proper (h : ∀ old, ∃ fuel, getStringArray build old fuel f (some sec) (some key) lpDelimiter bTrimString = some xs) :
    lpDelimiter ≠ some [] := by
  rintro rfl
  obtain ⟨fuel, hsame⟩ := h fun _ => List.replicate (((delimiterOf (some [])).intercalate xs).length + 2) 1
  obtain ⟨hget, hreadable⟩ := getStringArray_text hhere hsame
  obtain ⟨t, ts, hwhole⟩ := getStringArray_whole hget hreadable (intercalate_ne_nil hxs hempty) hplain hsame
  -- the first element would be the whole text, and there are others
  have hlength := congrArg (fun l => ((delimiterOf (some [])).intercalate l).length) hwhole
  have hpos := List.length_pos_iff.2 (delimiterOf_ne_nil (some []))
  rw [intercalate_cons (List.cons_ne_nil t ts), List.length_append, List.length_append] at hlength
  omega

/-- What is read back, even once, has been cut where its elements end. -/
theorem stored_clean {old : ℕ → CString} {fuel : ℕ} (hproper : lpDelimiter ≠ some [])
    (hsame : getStringArray build old fuel f (some sec) (some key) lpDelimiter bTrimString = some xs) :
    build = .plain ∧ (∀ x ∈ xs.dropLast, Clean (delimiterOf lpDelimiter) x) ∧
      ((delimiterOf lpDelimiter).intercalate xs).length + 1 < 2 ^ 32 - threshold := by
  have hdelimiter := delimiterOf_ne_nil lpDelimiter
  have hne := intercalate_ne_nil hxs hempty
  obtain ⟨hget, hreadable⟩ := getStringArray_text hhere hsame
  obtain ⟨rfl, ts, hts⟩ := getStringArray_split hget hreadable hne hproper hsame
  rw [getStringArray_plain hget hreadable hne hproper hplain hts] at hsame
  refine ⟨rfl, (segments_intercalate_iff hdelimiter hempty (fun x hx => (hxs x hx).free) (Nat.le_refl _)).1 ?_, hreadable⟩
  rw [delimiterOf_eq hproper] at hts
  exact segments_of_kept hdelimiter (segments_ne_nil _ _ _) hempty (hts.imp fun _ _ h => trimmed_sublist h)
    (by rw [← Option.some.inj hsame]; exact List.filter_sublist) (intercalate_segments _ _ _)

theorem stored_back (old : ℕ → CString) (hproper : lpDelimiter ≠ some [])
    (hclean : ∀ x ∈ xs.dropLast, Clean (delimiterOf lpDelimiter) x)
    (hreadable : ((delimiterOf lpDelimiter).intercalate xs).length + 1 < 2 ^ 32 - threshold) :
    ∃ fuel, getStringArray .plain old fuel f (some sec) (some key) lpDelimiter bTrimString = some xs := by
  have hthreshold : threshold = 512 := rfl
  rw [hthreshold] at hreadable
  refine ⟨((delimiterOf lpDelimiter).intercalate xs).length + 1, ?_⟩
  have hget := getStringDynamic_readable (stored_text hhere) hreadable
    (show _ < threshold * (((delimiterOf lpDelimiter).intercalate xs).length + 1 + 1) by
      rw [hthreshold]
      omega)
  have hcut := segments_intercalate_iff (delimiterOf_ne_nil lpDelimiter) hempty (fun x hx => (hxs x hx).free) (Nat.le_refl _)
  have hts : List.Forall₂ (fun t seg => trimmed .plain true seg = some t) xs
      (segments (lpDelimiter.getD [0x2c]) ((delimiterOf lpDelimiter).intercalate xs).length
        ((delimiterOf lpDelimiter).intercalate xs)) := by
    rw [delimiterOf_eq hproper, hcut.2 hclean, List.forall₂_same]
    intro x hx
    have hle := (sublist_intercalate (delimiterOf lpDelimiter) hx).length_le
    exact trimString_trim .plain (hxs x hx).trim (hxs x hx).nonempty (by omega)
  rw [getStringArray_plain hget hreadable (intercalate_ne_nil hxs hempty) hproper hplain hts]
  exact congrArg some (List.filter_eq_self.2 fun x hx => decide_eq_true (hxs x hx).nonempty)

end Stored

/-- `GetArray` returns the array that `WriteArray` was given, whatever is in memory where the buffers are, exactly
when the array is empty, or the plain copies are used, the delimiter is not the empty string and no occurrence of it
begins inside of an element before it, and the text can be read. -/
theorem arrays_iff (build : Build) (f : Profile) (sec key : CString) (xs : List CString) (lpDelimiter : Option CString)
    (bTrimString : Bool) (hd : ∀ d ∈ lpDelimiter, ∀ c ∈ d, c ≠ 0) (hxs : ∀ x ∈ xs, Element (delimiterOf lpDelimiter) x) :
    (∀ old, ∃ fuel, getStringArray build old fuel
      (writeArray f (some sec) (some key) (some xs) (-1) lpDelimiter).2 (some sec) (some key) lpDelimiter bTrimString =
        some xs) ↔
    xs = [] ∨ build = .plain ∧ lpDelimiter ≠ some [] ∧ (∀ x ∈ xs.dropLast, Clean (delimiterOf lpDelimiter) x) ∧
      ((delimiterOf lpDelimiter).intercalate xs).length + 1 < 2 ^ 32 - threshold := by
  have hhere := writeArray_here f sec key xs lpDelimiter
  generalize (writeArray f (some sec) (some key) (some xs) (-1) lpDelimiter).2 = f' at hhere ⊢
  have hplain : ∀ c ∈ (delimiterOf lpDelimiter).intercalate xs, c ≠ 0 :=
    intercalate_chars (delimiterOf_chars hd) fun x hx c hc => ((hxs x hx).chars c hc).1
  by_cases hempty : xs = []
  · subst hempty
    refine ⟨fun _ => Or.inl rfl, fun _ old => ⟨0, ?_⟩⟩
    have hread : Readable [] := show 0 + 1 < 2 ^ 32 - threshold by decide
    exact getStringArray_nil (getStringDynamic_readable (stored_text hhere) hread (show 0 + 1 < threshold * (0 + 1) by decide)) _ _ _ _
  · constructor
    · intro h
      have hproper := stored_proper hhere hempty hplain hxs h
      obtain ⟨fuel, hsame⟩ := h fun _ => []
      obtain ⟨hbuild, hclean, hreadable⟩ := stored_clean hhere hempty hplain hxs hproper hsame
      exact Or.inr ⟨hbuild, hproper, hclean, hreadable⟩
    · rintro (hnil | ⟨rfl, hproper, hclean, hreadable⟩) old
      · exact absurd hnil hempty
      · exact stored_back hhere hempty hplain hxs old hproper hclean hreadable

/-- `"a"` and `"b"`, with the default delimiter and plain copies. -/
theorem arrays_sample : ∃ fuel, getStringArray .plain (fun _ => []) fuel
    (writeArray (fun _ _ => none) (some [0x53]) (some [0x4b]) (some [[0x61], [0x62]]) (-1) none).2 (some [0x53])
      (some [0x4b]) none true = some [[0x61], [0x62]] :=
  (arrays_iff .plain (fun _ _ => none) [0x53] [0x4b] [[0x61], [0x62]] none true nofun (by
    intro x hx
    rcases List.mem_pair.1 hx with rfl | rfl
    · exact ⟨by decide, by decide, by decide, by decide, by decide⟩
    · exact ⟨by decide, by decide, by decide, by decide, by decide⟩)).2
    (Or.inr ⟨rfl, nofun, by decide, by decide⟩) fun _ => []

/-- The secure copies fail for the one string `"a"`. -/
theorem secure_fails : ¬ ∀ old, ∃ fuel, getStringArray .secure old fuel
    (writeArray (fun _ _ => none) (some [0x53]) (some [0x4b]) (some [[0x61]]) (-1) none).2 (some [0x53])
      (some [0x4b]) none true = some [[0x61]] := by
  intro h
  obtain ⟨fuel, hfuel⟩ := h fun _ => []
  obtain ⟨hget, hread⟩ := getStringArray_text (writeArray_here _ _ _ _ _) hfuel
  have hdefault : (none : Option CString) ≠ some [] := nofun
  have hbuild := (getStringArray_split hget hread (by decide) hdefault hfuel).1
  exact absurd hbuild (by decide)

end StarLib.Ini
