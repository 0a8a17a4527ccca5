import Mathlib.Data.Int.Cast.Lemmas
import StarLib.FileMisc.Delete
import StarLib.Foundations.Rounding

/-! # The size of a folder

`Star::File::GetDirSize` adds the lower halves of the file sizes up in a `DWORD` and keeps the paths in arrays of
`MAX_PATH` characters; `GetFolderSize` adds the sizes up in a `double` and passes over names that start with a dot.
-/

namespace StarLib.FileMisc
open Foundations
set_option autoImplicit false
set_option maxHeartbeats 250000
set_option maxRecDepth 120000

/-- `nFileSizeHigh` and `nFileSizeLow`. -/
abbrev FileSize := BitVec 64

abbrev DWORD := BitVec 32

def FileSize.nFileSizeHigh (c : FileSize) : DWORD := (c >>> 32).setWidth 32

def FileSize.nFileSizeLow (c : FileSize) : DWORD := c.setWidth 32

variable {wild : CString → CString → Bool} {e : Env} {hTerminate bIncludeSubFolders : Bool} {szFileMask : CString}

/-- The sizes of all files. The entries `.` and `..` are not in the folder. -/
def Listing.total : Listing FileSize → ℕ
  | .nil => 0
  | .file name c rest => (if name ∈ dots then 0 else c.toNat) + rest.total
  | .folder name items rest => (if name ∈ dots then 0 else items.total) + rest.total

/-! ## `GetDirSize` -/

def MAX_PATH : ℕ := 260

/-- A file or folder in a folder. -/
def subPath (lpsPath name : CString) : CString := lpsPath ++ [0x5c] ++ name

/-- The entries that `FindFirstFile` and `FindNextFile` yield; the first one is treated like the others. For a
sub-folder the path goes into one array and, with `\\* ` behind it, into another; there is no result when an array is
too short. -/
def getDirSizeLoop : Listing FileSize → CString → DWORD → Option DWORD
  | .nil, _, m_Size => some m_Size
  | .file name c rest, lpsPath, m_Size =>
    getDirSizeLoop rest lpsPath (if name ∈ dots then m_Size else m_Size + c.nFileSizeLow)
  | .folder name items rest, lpsPath, m_Size =>
    if name ∈ dots then getDirSizeLoop rest lpsPath m_Size
    else if MAX_PATH < (subPath lpsPath name).length + 1 then none
    else if MAX_PATH < (subPath lpsPath name).length + 3 + 1 then none
    else (getDirSizeLoop items (subPath lpsPath name) m_Size).bind (getDirSizeLoop rest lpsPath)

def getDirSize (l : Listing FileSize) (lpsPath : CString) (m_Size : DWORD) : Option DWORD :=
  if MAX_PATH < lpsPath.length + 3 + 1 then none else getDirSizeLoop l lpsPath m_Size

/-! ## `GetFolderSize` -/

/-- A `double` that holds an integer. -/
abbrev Double := ℤ

def Double.add (x y : Double) : Double := roundInt 53 (x + y)

def Double.mul (x y : Double) : Double := roundInt 53 (x * y)

def MAXDWORD : ℤ := 0xffffffff

/-- `(finfo.nFileSizeHigh * ((double)MAXDWORD + 1)) + finfo.nFileSizeLow`. -/
def fileSize (c : FileSize) : Double :=
  Double.add (Double.mul c.nFileSizeHigh.toNat (Double.add MAXDWORD 1)) c.nFileSizeLow.toNat

structure Sum where
  dSize : Double
  bStopped : Bool
  waits : ℕ

/-- A look at `hTerminate`. -/
def look (e : Env) (hTerminate : Bool) (s : Sum) : Sum := { s with bStopped := hTerminate && e.signalled s.waits, waits := s.waits + 1 }

/-- An entry in the loop `do … while (!bStopped && FindNextFile(…))`. -/
def sumEntry (e : Env) (hTerminate found : Bool) (turn next : Sum → Sum) (s : Sum) : Sum :=
  if found then
    let s := look e hTerminate (turn s)
    if s.bStopped then s else next s
  else next s

/-- A call: a first look, and the loop over what is found. -/
def sumFolder (e : Env) (hTerminate : Bool) (loop : Sum → Sum) (waits : ℕ) : Sum :=
  let s := look e hTerminate ⟨0, false, waits⟩
  if s.bStopped then s else loop s

def Sum.returned (s : Sum) : Double := if s.bStopped then -1 else s.dSize

/-- `sFileMask`. -/
def sizeMask (szFileMask : CString) : CString := if szFileMask.isEmpty then anyFile else szFileMask

def sizeLoop (wild : CString → CString → Bool) (e : Env) (hTerminate bIncludeSubFolders : Bool) (sFileMask : CString) :
    Listing FileSize → Sum → Sum
  | .nil, s => s
  | .file name c rest, s =>
    sumEntry e hTerminate (wild sFileMask name)
      (fun s => if plain name then { s with dSize := s.dSize.add (fileSize c) } else s)
      (sizeLoop wild e hTerminate bIncludeSubFolders sFileMask rest) s
  | .folder name items rest, s =>
    sumEntry e hTerminate (wild sFileMask name)
      (fun s =>
        if plain name && bIncludeSubFolders then
          let r := sumFolder e hTerminate (sizeLoop wild e hTerminate bIncludeSubFolders sFileMask items) s.waits
          { s with dSize := s.dSize.add r.returned, waits := r.waits }
        else s)
      (sizeLoop wild e hTerminate bIncludeSubFolders sFileMask rest) s

/-- `GetFolderSize` for a folder that exists. -/
def getFolderSize (wild : CString → CString → Bool) (e : Env) (hTerminate bIncludeSubFolders : Bool) (szFileMask : CString)
    (l : Listing FileSize) : Double :=
  (sumFolder e hTerminate (sizeLoop wild e hTerminate bIncludeSubFolders (sizeMask szFileMask) l) 0).returned

/-! ## What `GetDirSize` adds up -/

/-- The paths of the sub-folders fit the arrays. -/
def Listing.Fits : Listing FileSize → ℕ → Prop
  | .nil, _ => True
  | .file _ _ rest, n => rest.Fits n
  | .folder name items rest, n =>
    (name ∉ dots → n + 1 + name.length + 4 ≤ MAX_PATH ∧ items.Fits (n + 1 + name.length)) ∧ rest.Fits n

theorem subPath_length (lpsPath name : CString) : (subPath lpsPath name).length = lpsPath.length + 1 + name.length := by
  unfold subPath
  rw [List.length_append, List.length_append, List.length_singleton]

theorem nFileSizeLow_eq (c : FileSize) : c.nFileSizeLow = BitVec.ofNat 32 c.toNat := by
  apply BitVec.eq_of_toNat_eq
  unfold FileSize.nFileSizeLow
  rw [BitVec.toNat_setWidth, BitVec.toNat_ofNat]

theorem getDirSizeLoop_fits : ∀ (l : Listing FileSize) (lpsPath : CString) (m_Size : DWORD), l.Fits lpsPath.length →
    getDirSizeLoop l lpsPath m_Size = some (m_Size + BitVec.ofNat 32 l.total)
  | .nil, _, m_Size, _ => congrArg some (BitVec.add_zero m_Size).symm
  | .file name c rest, lpsPath, m_Size, h => by
    have hrest := fun m => getDirSizeLoop_fits rest lpsPath m h
    unfold getDirSizeLoop Listing.total
    rw [hrest, BitVec.ofNat_add, ← BitVec.add_assoc]
    by_cases hdots : name ∈ dots
    · rw [if_pos hdots, if_pos hdots, BitVec.add_zero]
    · rw [if_neg hdots, if_neg hdots, nFileSizeLow_eq]
  | .folder name items rest, lpsPath, m_Size, h => by
    have hrest := fun m => getDirSizeLoop_fits rest lpsPath m h.2
    unfold getDirSizeLoop Listing.total
    rw [BitVec.ofNat_add, ← BitVec.add_assoc]
    by_cases hdots : name ∈ dots
    · rw [if_pos hdots, if_pos hdots, hrest, BitVec.add_zero]
    · obtain ⟨hroom, hitems⟩ := h.1 hdots
      have hlength := subPath_length lpsPath name
      have hsub := getDirSizeLoop_fits items (subPath lpsPath name) m_Size (hlength ▸ hitems)
      rw [if_neg hdots, if_neg hdots, if_neg (by omega), if_neg (by omega), hsub, Option.bind_some, hrest]

theorem fits_of_getDirSizeLoop : ∀ (l : Listing FileSize) (lpsPath : CString) (m_Size t : DWORD),
    getDirSizeLoop l lpsPath m_Size = some t → l.Fits lpsPath.length
  | .nil, _, _, _, _ => trivial
  | .file name c rest, lpsPath, m_Size, t, h => fits_of_getDirSizeLoop rest lpsPath _ t h
  | .folder name items rest, lpsPath, m_Size, t, h => by
    unfold getDirSizeLoop at h
    by_cases hdots : name ∈ dots
    · rw [if_pos hdots] at h
      exact ⟨fun hnot => absurd hdots hnot, fits_of_getDirSizeLoop rest lpsPath _ t h⟩
    · rw [if_neg hdots] at h
      split at h
      · exact absurd h nofun
      · split at h
        · exact absurd h nofun
        · next hroom =>
          obtain ⟨m, hitems, hrest⟩ := Option.bind_eq_some_iff.1 h
          have hlength := subPath_length lpsPath name
          have hsub := fits_of_getDirSizeLoop items (subPath lpsPath name) m_Size m hitems
          rw [hlength] at hsub
          exact ⟨fun _ => ⟨by omega, hsub⟩, fits_of_getDirSizeLoop rest lpsPath m t hrest⟩

theorem getDirSize_exact_iff (l : Listing FileSize) (lpsPath : CString) :
    (∃ t, getDirSize l lpsPath 0 = some t ∧ t.toNat = l.total) ↔
      lpsPath.length + 4 ≤ MAX_PATH ∧ l.Fits lpsPath.length ∧ l.total < 2 ^ 32 := by
  unfold getDirSize
  constructor
  · rintro ⟨t, h, ht⟩
    split at h
    · exact absurd h nofun
    · next hroom => exact ⟨by omega, fits_of_getDirSizeLoop l lpsPath 0 t h, ht ▸ t.isLt⟩
  · rintro ⟨hroom, hfits, hsmall⟩
    refine ⟨_, (if_neg (by omega)).trans (getDirSizeLoop_fits l lpsPath 0 hfits), ?_⟩
    show (0#32 + BitVec.ofNat 32 l.total).toNat = l.total
    rw [BitVec.zero_add, BitVec.toNat_ofNat, Nat.mod_eq_of_lt hsmall]

/-! ## What `GetFolderSize` adds up -/

/-- The sizes of the files whose path has no name that starts with a dot. -/
def Listing.visible : Listing FileSize → ℕ
  | .nil => 0
  | .file name c rest => (if plain name then c.toNat else 0) + rest.visible
  | .folder name items rest => (if plain name then items.visible else 0) + rest.visible

theorem Double.add_exact {x y : ℕ} (h : x + y < 2 ^ 53) : Double.add x y = (x + y : ℕ) := by
  unfold Double.add
  rw [← Nat.cast_add]
  exact roundInt_exact (by decide) h

theorem fileSize_exact {c : FileSize} (h : c.toNat < 2 ^ 53) : fileSize c = c.toNat := by
  have hone : Double.add MAXDWORD 1 = ((2 ^ 32 : ℕ) : ℤ) := by decide
  have hsplit : c.nFileSizeHigh.toNat * 2 ^ 32 + c.nFileSizeLow.toNat = c.toNat := by
    unfold FileSize.nFileSizeHigh FileSize.nFileSizeLow
    rw [BitVec.toNat_setWidth, BitVec.toNat_setWidth, BitVec.toNat_ushiftRight, Nat.shiftRight_eq_div_pow]
    have hc := c.isLt
    omega
  have hmul : Double.mul c.nFileSizeHigh.toNat ((2 ^ 32 : ℕ) : ℤ) = (c.nFileSizeHigh.toNat * 2 ^ 32 : ℕ) := by
    unfold Double.mul
    rw [← Nat.cast_mul]
    exact roundInt_exact (by decide) (by omega)
  unfold fileSize
  rw [hone, hmul, Double.add_exact (by omega), hsplit]

theorem sumEntry_going {turn next : Sum → Sum} {s : Sum} {d : Double} {w : ℕ} (hturn : turn s = ⟨d, false, w⟩) :
    sumEntry e false true turn next s = next ⟨d, false, w + 1⟩ := by
  unfold sumEntry look
  rw [hturn]
  rfl

/-- What the loop adds when every name is found and nothing stops it, as long as a `double` can hold it. -/
theorem sizeLoop_visible (hall : ∀ name, wild anyFile name = true) :
    ∀ (l : Listing FileSize) (n w : ℕ), n + l.visible < 2 ^ 53 →
      ∃ w', sizeLoop wild e false true anyFile l ⟨n, false, w⟩ = ⟨(n + l.visible : ℕ), false, w'⟩
  | .nil, _, w, _ => ⟨w, rfl⟩
  | .file name c rest, n, w, h => by
    unfold Listing.visible at h ⊢
    unfold sizeLoop
    rw [hall]
    by_cases hname : plain name = true
    · rw [if_pos hname] at h ⊢
      obtain ⟨w', hrest⟩ := sizeLoop_visible hall rest (n + c.toNat) (w + 1) (by omega)
      refine ⟨w', (sumEntry_going (d := (n + c.toNat : ℕ)) (w := w) ?_).trans ?_⟩
      · simp only [hname, if_true]
        rw [fileSize_exact (by omega), Double.add_exact (by omega)]
      · rw [hrest, Nat.add_assoc]
    · rw [if_neg hname] at h ⊢
      obtain ⟨w', hrest⟩ := sizeLoop_visible hall rest n (w + 1) (by omega)
      refine ⟨w', (sumEntry_going (d := n) (w := w) ?_).trans ?_⟩
      · exact if_neg hname
      · rw [hrest, Nat.zero_add]
  | .folder name items rest, n, w, h => by
    unfold Listing.visible at h ⊢
    unfold sizeLoop
    rw [hall]
    by_cases hname : plain name = true
    · rw [if_pos hname] at h ⊢
      obtain ⟨w₁, hitems⟩ := sizeLoop_visible hall items 0 (w + 1) (by omega)
      obtain ⟨w', hrest⟩ := sizeLoop_visible hall rest (n + items.visible) (w₁ + 1) (by omega)
      have hsub : sumFolder e false (sizeLoop wild e false true anyFile items) w = ⟨(items.visible : ℕ), false, w₁⟩ := by
        rw [Nat.zero_add] at hitems
        exact hitems
      refine ⟨w', (sumEntry_going (d := (n + items.visible : ℕ)) (w := w₁) ?_).trans ?_⟩
      · have hreturned : (Sum.mk (items.visible : ℕ) false w₁).returned = (items.visible : ℕ) := if_neg Bool.false_ne_true
        simp only [hname, Bool.and_true, if_true, hsub, hreturned]
        rw [Double.add_exact (by omega)]
      · rw [hrest, Nat.add_assoc]
    · rw [if_neg hname] at h ⊢
      obtain ⟨w', hrest⟩ := sizeLoop_visible hall rest n (w + 1) (by omega)
      refine ⟨w', (sumEntry_going (d := n) (w := w) ?_).trans ?_⟩
      · simp only [hname, Bool.and_true]
        rfl
      · rw [hrest, Nat.zero_add]

theorem getFolderSize_visible (hall : ∀ name, wild anyFile name = true) {l : Listing FileSize} (h : l.visible < 2 ^ 53) :
    getFolderSize wild e false true [] l = (l.visible : ℕ) := by
  obtain ⟨w, hloop⟩ := sizeLoop_visible (e := e) hall l 0 1 (by omega)
  rw [Nat.zero_add] at hloop
  have hsum : sumFolder e false (sizeLoop wild e false true (sizeMask []) l) 0 = ⟨(l.visible : ℕ), false, w⟩ := hloop
  unfold getFolderSize
  rw [hsum]
  rfl

/-! ## Where the two agree -/

theorem plain_of_notDots {name : CString} (h : plain name = true) : name ∉ dots := by
  intro hdots
  rcases List.mem_pair.1 hdots with rfl | rfl
  · exact Bool.noConfusion h
  · exact Bool.noConfusion h

/-- The files with a name that starts with a dot on their path, the entries `.` and `..` apart, are empty. -/
def Listing.HiddenEmpty (l : Listing FileSize) : Prop :=
  ∀ q c, l.Holds q c → (∀ name ∈ q, name ∉ dots) → ¬ Plain q → c = 0

/-- All files are empty, but those below `.` and `..`. -/
theorem total_eq_zero_iff : ∀ l : Listing FileSize, l.total = 0 ↔ ∀ q c, l.Holds q c → (∀ name ∈ q, name ∉ dots) → c = 0
  | .nil => ⟨fun _ _ _ hq => hq.elim, fun _ => rfl⟩
  | .file name c rest => by
    unfold Listing.total
    rw [Nat.add_eq_zero_iff, total_eq_zero_iff rest]
    constructor
    · rintro ⟨hzero, hrest⟩ q c' (⟨rfl, rfl⟩ | hq) hnames
      · rw [if_neg (hnames name (List.mem_singleton_self name))] at hzero
        exact BitVec.eq_of_toNat_eq hzero
      · exact hrest q c' hq hnames
    · intro h
      refine ⟨?_, fun q c' hq => h q c' (Or.inr hq)⟩
      split
      · rfl
      · next hdots =>
        rw [h [name] c (Or.inl ⟨rfl, rfl⟩) fun other hother => by rwa [List.mem_singleton.1 hother]]
        rfl
  | .folder name items rest => by
    unfold Listing.total
    rw [Nat.add_eq_zero_iff, total_eq_zero_iff rest]
    constructor
    · rintro ⟨hzero, hrest⟩ q c (⟨q, rfl, hq⟩ | hq) hnames
      · rw [if_neg (hnames name List.mem_cons_self), total_eq_zero_iff items] at hzero
        exact hzero q c hq fun other hother => hnames other (List.mem_cons_of_mem name hother)
      · exact hrest q c hq hnames
    · intro h
      refine ⟨?_, fun q c hq => h q c (Or.inr hq)⟩
      split
      · rfl
      · next hdots =>
        rw [total_eq_zero_iff items]
        intro q c hq hnames
        refine h (name :: q) c (Or.inl ⟨q, rfl, hq⟩) fun other hother => ?_
        rcases List.mem_cons.1 hother with rfl | hother
        · exact hdots
        · exact hnames other hother

/-- The sizes of the files with a name that starts with a dot on their path. -/
def Listing.hidden : Listing FileSize → ℕ
  | .nil => 0
  | .file name c rest => (if plain name ∨ name ∈ dots then 0 else c.toNat) + rest.hidden
  | .folder name items rest => (if plain name then items.hidden else if name ∈ dots then 0 else items.total) + rest.hidden

theorem total_eq_visible : ∀ l : Listing FileSize, l.total = l.visible + l.hidden
  | .nil => rfl
  | .file name c rest => by
    have hrest := total_eq_visible rest
    unfold Listing.total Listing.visible Listing.hidden
    by_cases hname : plain name = true
    · rw [if_pos hname, if_neg (plain_of_notDots hname), if_pos (Or.inl hname)]
      omega
    · rw [if_neg hname]
      by_cases hdots : name ∈ dots
      · rw [if_pos hdots, if_pos (Or.inr hdots)]
        omega
      · rw [if_neg hdots, if_neg (not_or.2 ⟨hname, hdots⟩)]
        omega
  | .folder name items rest => by
    have hrest := total_eq_visible rest
    have hitems := total_eq_visible items
    unfold Listing.total Listing.visible Listing.hidden
    by_cases hname : plain name = true
    · rw [if_pos hname, if_neg (plain_of_notDots hname), if_pos hname]
      omega
    · rw [if_neg hname, if_neg hname]
      omega

theorem not_plain_single {name : CString} : ¬ Plain [name] ↔ ¬ plain name = true :=
  not_congr ⟨fun h => h name (List.mem_singleton_self name), Plain.single⟩

theorem hidden_eq_zero_iff : ∀ l : Listing FileSize, l.hidden = 0 ↔ l.HiddenEmpty
  | .nil => ⟨fun _ _ _ hq => hq.elim, fun _ => rfl⟩
  | .file name c rest => by
    unfold Listing.hidden
    rw [Nat.add_eq_zero_iff, hidden_eq_zero_iff rest]
    constructor
    · rintro ⟨hzero, hrest⟩ q c' (⟨rfl, rfl⟩ | hq) hnames hplain
      · rw [if_neg (not_or.2 ⟨not_plain_single.1 hplain, hnames name (List.mem_singleton_self name)⟩)] at hzero
        exact BitVec.eq_of_toNat_eq hzero
      · exact hrest q c' hq hnames hplain
    · intro h
      refine ⟨?_, fun q c' hq => h q c' (Or.inr hq)⟩
      split
      · rfl
      · next hnot =>
        rw [not_or] at hnot
        rw [h [name] c (Or.inl ⟨rfl, rfl⟩) (fun other hother => by rw [List.mem_singleton.1 hother]; exact hnot.2)
          (not_plain_single.2 hnot.1)]
        rfl
  | .folder name items rest => by
    unfold Listing.hidden
    rw [Nat.add_eq_zero_iff, hidden_eq_zero_iff rest]
    by_cases hname : plain name = true
    · rw [if_pos hname, hidden_eq_zero_iff items]
      constructor
      · rintro ⟨hitems, hrest⟩ q c (⟨q, rfl, hq⟩ | hq) hnames hplain
        · exact hitems q c hq (fun other hother => hnames other (List.mem_cons_of_mem name hother)) fun h => hplain (h.cons hname)
        · exact hrest q c hq hnames hplain
      · refine fun h => ⟨fun q c hq hnames hplain => ?_, fun q c hq => h q c (Or.inr hq)⟩
        refine h (name :: q) c (Or.inl ⟨q, rfl, hq⟩) (fun other hother => ?_) fun h => hplain fun other hother =>
          h other (List.mem_cons_of_mem name hother)
        rcases List.mem_cons.1 hother with rfl | hother
        · exact plain_of_notDots hname
        · exact hnames other hother
    · rw [if_neg hname]
      constructor
      · rintro ⟨hzero, hrest⟩ q c (⟨q, rfl, hq⟩ | hq) hnames hplain
        · rw [if_neg (hnames name List.mem_cons_self), total_eq_zero_iff items] at hzero
          exact hzero q c hq fun other hother => hnames other (List.mem_cons_of_mem name hother)
        · exact hrest q c hq hnames hplain
      · intro h
        refine ⟨?_, fun q c hq => h q c (Or.inr hq)⟩
        split
        · rfl
        · next hdots =>
          rw [total_eq_zero_iff items]
          intro q c hq hnames
          refine h (name :: q) c (Or.inl ⟨q, rfl, hq⟩) (fun other hother => ?_) fun h => hname (h name List.mem_cons_self)
          rcases List.mem_cons.1 hother with rfl | hother
          · exact hdots
          · exact hnames other hother

/-- Both report the exact sum: the one as a `DWORD` that starts at zero, the other without a mask and a handle, its
sub-folders included. -/
def SizesExact (wild : CString → CString → Bool) (e : Env) (lpsPath : CString) (l : Listing FileSize) : Prop :=
  (∃ t, getDirSize l lpsPath 0 = some t ∧ t.toNat = l.total) ∧ getFolderSize wild e false true [] l = (l.total : ℕ)

theorem sizesExact_iff (hall : ∀ name, wild anyFile name = true) (e : Env) (lpsPath : CString) (l : Listing FileSize) :
    SizesExact wild e lpsPath l ↔
      (lpsPath.length + 4 ≤ MAX_PATH ∧ l.Fits lpsPath.length ∧ l.total < 2 ^ 32) ∧ l.HiddenEmpty := by
  unfold SizesExact
  rw [getDirSize_exact_iff]
  refine and_congr_right fun ⟨_, _, hsmall⟩ => ?_
  have htotal := total_eq_visible l
  have hlarge : 2 ^ 32 < 2 ^ 53 := by decide
  rw [getFolderSize_visible hall (by omega), ← hidden_eq_zero_iff, Nat.cast_inj]
  omega

/-- A file of 4 GB. -/
def fourGigabytes : Listing FileSize := .folder [0x2e] .nil (.folder [0x2e, 0x2e] .nil (.file [0x62] 0x100000000 .nil))

/-- A file of five bytes. -/
def fiveBytes : Listing FileSize := .file [0x62] 5 .nil

theorem sizesExact_sample : SizesExact literal yielding [0x63, 0x3a] fiveBytes ↔
    ([0x63, 0x3a].length + 4 ≤ MAX_PATH ∧ fiveBytes.Fits [0x63, 0x3a].length ∧ fiveBytes.total < 2 ^ 32) ∧ fiveBytes.HiddenEmpty :=
  sizesExact_iff literal_all yielding [0x63, 0x3a] fiveBytes

theorem fourGigabytes_not_exact : ¬ SizesExact literal yielding [0x63, 0x3a] fourGigabytes := by
  rintro ⟨⟨t, h, ht⟩, _⟩
  have hzero : getDirSize fourGigabytes [0x63, 0x3a] 0 = some 0 := by decide
  rw [hzero] at h
  rw [← Option.some.inj h] at ht
  revert ht
  decide

end StarLib.FileMisc
