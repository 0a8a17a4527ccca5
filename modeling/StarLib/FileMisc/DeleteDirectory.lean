import StarLib.FileMisc.Move

/-! # `Star::File::DeleteDirectory`

The call for a sub-folder deletes what is in it, but its count is dropped. What is returned is the number of the files of
the folder itself.
-/

namespace StarLib.FileMisc
open Foundations
set_option autoImplicit false
set_option maxHeartbeats 250000
set_option maxRecDepth 120000

variable {γ : Type}

/-- The counter of the function, and the disk. -/
structure Cleaning (γ : Type) where
  i : BitVec 32
  disk : Disk γ

section Function
variable (wild : CString → CString → Bool) (e : Env)

/-- `DeleteFile`; what it returns is not looked at. -/
def deleteFile (p : Path) (d : Disk γ) : Disk γ := (call e (.deleteFile p) (Disk.delete p) ⟨true, false, d⟩).disk

/-- The end of the function. -/
def finish (bDeleteSelf : Bool) (l : Listing γ) (p : Path) (s : Cleaning γ) : Cleaning γ :=
  if bDeleteSelf then { s with disk := (removeDirectory e p l ⟨true, false, s.disk⟩).disk } else s

/-- The loop over what the search finds. Only folders are dots. -/
def cleanLoop : Listing γ → Path → Cleaning γ → Cleaning γ
  | .nil, _, s => s
  | .file name _ rest, path, s =>
    cleanLoop rest path
      (if wild anyFile name && !s.disk.deletedFiles (path ++ [name]) then ⟨s.i + 1, deleteFile e (path ++ [name]) s.disk⟩
      else s)
  | .folder name items rest, path, s =>
    cleanLoop rest path
      (if wild anyFile name && !s.disk.removedFolders (path ++ [name]) && !dots.contains name then
        { s with disk := (finish e true items (path ++ [name]) (cleanLoop items (path ++ [name]) ⟨0, s.disk⟩)).disk }
      else s)

/-- `DeleteDirectory` for the folder at a path. -/
def deleteDirectory (bDeleteSelf : Bool) (l : Listing γ) (path : Path) (d : Disk γ) : Cleaning γ :=
  finish e bDeleteSelf l path (cleanLoop wild e l path ⟨0, d⟩)

end Function

/-! ## What is under a folder -/

/-- A sub-folder is there. -/
def Listing.Contains : Listing γ → Path → Prop
  | .nil, _ => False
  | .file _ _ rest, q => rest.Contains q
  | .folder name items rest, q => (∃ q', q = name :: q' ∧ (q' = [] ∨ items.Contains q')) ∨ rest.Contains q

/-- The folders on the way to a file are not `.` and `..`. -/
def Entered (q : Path) : Prop := ∀ name ∈ q.dropLast, name ∉ dots

/-- The files of the folder itself. -/
def Listing.direct : Listing γ → ℕ
  | .nil => 0
  | .file _ _ rest => rest.direct + 1
  | .folder _ _ rest => rest.direct

/-- The files under the folder. -/
def Listing.count : Listing γ → ℕ
  | .nil => 0
  | .file _ _ rest => rest.count + 1
  | .folder name items rest => (if dots.contains name then 0 else items.count) + rest.count

/-- All files and sub-folders are gone, the folder itself when that was asked for, and the files are counted. -/
structure Removes (wild : CString → CString → Bool) (e : Env) (bDeleteSelf : Bool) (l : Listing γ) (path : Path)
    (d : Disk γ) : Prop where
  files : ∀ q c, l.Holds q c → Entered q →
    (deleteDirectory wild e bDeleteSelf l path d).disk.deletedFiles (path ++ q) = true
  folders : ∀ q, l.Contains q → (∀ name ∈ q, name ∉ dots) →
    (deleteDirectory wild e bDeleteSelf l path d).disk.removedFolders (path ++ q) = true
  self : (deleteDirectory wild e bDeleteSelf l path d).disk.removedFolders path = bDeleteSelf
  count : (deleteDirectory wild e bDeleteSelf l path d).i.toInt = l.count

section Under
variable {l : Listing γ} {name : CString} {q : Path} {c : γ}

theorem entered_single (name : CString) : Entered [name] := fun _ hother => absurd hother List.not_mem_nil

theorem entered_cons (hq : q ≠ []) : Entered (name :: q) ↔ name ∉ dots ∧ Entered q := by
  unfold Entered
  rw [List.dropLast_cons_of_ne_nil hq, List.forall_mem_cons]

/-- No file is in a sub-folder. -/
def Listing.Flat (l : Listing γ) : Prop := ∀ q c, l.Holds q c → Entered q → q.length = 1

/-- A sub-folder adds nothing when it is one of the two dots, or has no file under it. -/
theorem under_eq_zero_iff {items : Listing γ} (hitems : items.count = 0 ↔ ∀ q c, items.Holds q c → ¬ Entered q) :
    (if dots.contains name then 0 else items.count) = 0 ↔ ∀ q c, items.Holds q c → ¬ Entered (name :: q) := by
  by_cases hdots : dots.contains name = true
  · rw [if_pos hdots]
    rw [List.contains_iff_mem] at hdots
    refine iff_of_true rfl fun q c hq hentered => ?_
    rw [entered_cons fun hnil => (hnil ▸ hq : items.Holds [] c).ne_nil] at hentered
    exact hentered.1 hdots
  · rw [if_neg hdots, hitems]
    rw [List.contains_iff_mem] at hdots
    refine forall₃_congr fun q c hq => not_congr ?_
    rw [entered_cons fun hnil => (hnil ▸ hq : items.Holds [] c).ne_nil]
    exact (and_iff_right hdots).symm

theorem count_eq_zero_iff : ∀ l : Listing γ, l.count = 0 ↔ ∀ q c, l.Holds q c → ¬ Entered q
  | .nil => ⟨fun _ _ _ hq => hq.elim, fun _ => rfl⟩
  | .file name c rest => by
    refine iff_of_false (Nat.succ_ne_zero _) fun h => ?_
    exact h [name] c (Or.inl ⟨rfl, rfl⟩) (entered_single name)
  | .folder name items rest => by
    unfold Listing.count
    rw [Nat.add_eq_zero_iff, count_eq_zero_iff rest, under_eq_zero_iff (count_eq_zero_iff items)]
    constructor
    · rintro ⟨hunder, hrest⟩ q c (⟨q, rfl, hq⟩ | hq)
      · exact hunder q c hq
      · exact hrest q c hq
    · exact fun h => ⟨fun q c hq => h (name :: q) c (Or.inl ⟨q, rfl, hq⟩), fun q c hq => h q c (Or.inr hq)⟩

theorem direct_le_count : ∀ l : Listing γ, l.direct ≤ l.count
  | .nil => le_refl 0
  | .file _ _ rest => Nat.succ_le_succ (direct_le_count rest)
  | .folder _ _ rest => (direct_le_count rest).trans (Nat.le_add_left _ _)

/-- The files of the folder itself are all of them exactly when no other is under it. -/
theorem direct_eq_count_iff : ∀ l : Listing γ, l.direct = l.count ↔ l.Flat
  | .nil => iff_of_true rfl fun _ _ hq => hq.elim
  | .file name c rest => by
    unfold Listing.direct Listing.count
    rw [Nat.add_right_cancel_iff, direct_eq_count_iff rest]
    constructor
    · rintro hrest q c' (⟨rfl, -⟩ | hq) hentered
      · rfl
      · exact hrest q c' hq hentered
    · exact fun h q c' hq => h q c' (Or.inr hq)
  | .folder name items rest => by
    have hle := direct_le_count rest
    have hsplit : (Listing.folder name items rest).direct = (Listing.folder name items rest).count ↔
        (if dots.contains name then 0 else items.count) = 0 ∧ rest.direct = rest.count := by
      show rest.direct = (if dots.contains name then 0 else items.count) + rest.count ↔ _
      omega
    rw [hsplit, direct_eq_count_iff rest, under_eq_zero_iff (count_eq_zero_iff items)]
    constructor
    · rintro ⟨hunder, hrest⟩ q c (⟨q, rfl, hq⟩ | hq) hentered
      · exact absurd hentered (hunder q c hq)
      · exact hrest q c hq hentered
    · intro h
      refine ⟨fun q c hq hentered => ?_, fun q c hq => h q c (Or.inr hq)⟩
      have hne : q ≠ [] := fun hnil => (hnil ▸ hq : items.Holds [] c).ne_nil
      have hone := h (name :: q) c (Or.inl ⟨q, rfl, hq⟩) hentered
      rw [List.length_cons] at hone
      exact hne (List.length_eq_zero_iff.1 (by omega))

end Under

/-! ## Where the calls leave their traces -/

/-- Every file and every folder can be deleted. -/
def Deleting (e : Env) : Prop := ∀ n p, e.succeeds n (.deleteFile p) = true ∧ e.succeeds n (.removeDirectory p) = true

/-- Only what is below the named entries of a folder has changed. -/
def Below (names : List CString) (path : Path) (d d' : Disk γ) : Prop :=
  ∀ p, (∀ name ∈ names, ∀ q, p ≠ path ++ name :: q) →
    d'.deletedFiles p = d.deletedFiles p ∧ d'.removedFolders p = d.removedFolders p

/-- Nothing below the named entries is gone yet. -/
def Untouched (names : List CString) (path : Path) (d : Disk γ) : Prop :=
  ∀ name ∈ names, ∀ q, d.deletedFiles (path ++ name :: q) = false ∧ d.removedFolders (path ++ name :: q) = false

section Traces
variable {wild : CString → CString → Bool} {e : Env} {names : List CString} {path p : Path} {name : CString}
variable {d d' d'' : Disk γ}

theorem Below.trans (h : Below names path d d') (h' : Below names path d' d'') : Below names path d d'' := by
  intro p hp
  obtain ⟨hfile, hfolder⟩ := h p hp
  obtain ⟨hfile', hfolder'⟩ := h' p hp
  exact ⟨hfile'.trans hfile, hfolder'.trans hfolder⟩

theorem Below.mono (h : Below names path d d') {names' : List CString} (hnames : names ⊆ names') :
    Below names' path d d' :=
  fun p hp => h p fun name hname => hp name (hnames hname)

theorem below_refl (names : List CString) (path : Path) (d : Disk γ) : Below names path d d := fun _ _ => ⟨rfl, rfl⟩

theorem deleteFile_eq (h : Deleting e) (p : Path) (d : Disk γ) :
    deleteFile e p d = Disk.delete p { d with calls := d.calls + 1 } := by
  unfold deleteFile call
  rw [if_pos (h d.calls p).1]

theorem removeDirectory_eq (h : Deleting e) {l : Listing γ} (hl : l.emptied d p = true) :
    (removeDirectory e p l ⟨true, false, d⟩).disk = Disk.remove p { d with calls := d.calls + 1 } := by
  unfold removeDirectory call
  rw [if_pos hl, if_pos (h d.calls p).2]

theorem below_delete (h : Deleting e) (path : Path) (name : CString) (d : Disk γ) :
    Below [name] path d (deleteFile e (path ++ [name]) d) := by
  intro p hp
  rw [deleteFile_eq h]
  refine ⟨Function.update_of_ne (hp name List.mem_cons_self []) _ _, rfl⟩

theorem below_finish (h : Deleting e) {l : Listing γ} (path : Path) (name : CString) (s : Cleaning γ) :
    Below [name] path s.disk (finish e true l (path ++ [name]) s).disk := by
  intro p hp
  unfold finish
  rw [if_pos rfl]
  by_cases hl : l.emptied s.disk (path ++ [name]) = true
  · dsimp only
    rw [removeDirectory_eq h hl]
    exact ⟨rfl, Function.update_of_ne (hp name List.mem_cons_self []) _ _⟩
  · unfold removeDirectory
    rw [if_neg hl]
    exact ⟨rfl, rfl⟩

theorem Below.up (h : Below names (path ++ [name]) d d') : Below [name] path d d' := by
  intro p hp
  refine h p fun other _ q heq => hp name List.mem_cons_self (other :: q) ?_
  rw [heq, List.append_assoc]
  rfl

theorem cleanLoop_below (h : Deleting e) : ∀ (l : Listing γ) (path : Path) (s : Cleaning γ),
    Below l.names path s.disk (cleanLoop wild e l path s).disk
  | .nil, path, s => below_refl _ path s.disk
  | .file name c rest, path, s => by
    unfold cleanLoop
    have hrest : Below rest.names path _ _ := cleanLoop_below h rest path
      (if wild anyFile name && !s.disk.deletedFiles (path ++ [name]) then ⟨s.i + 1, deleteFile e (path ++ [name]) s.disk⟩
      else s)
    refine Below.trans ?_ (hrest.mono (List.subset_cons_self name rest.names))
    split
    · exact (below_delete h path name s.disk).mono (List.cons_subset_cons name (List.nil_subset _))
    · exact below_refl _ path s.disk
  | .folder name items rest, path, s => by
    unfold cleanLoop
    have hitems := cleanLoop_below h items (path ++ [name]) ⟨0, s.disk⟩
    refine Below.trans ?_ ((cleanLoop_below h rest path _).mono (List.subset_cons_self name rest.names))
    split
    · refine Below.mono (hitems.up.trans ?_) (List.cons_subset_cons name (List.nil_subset rest.names))
      exact below_finish h path name _
    · exact below_refl _ path s.disk

end Traces

/-! ## What is gone -/

/-- The files and sub-folders of a listing are gone. -/
structure Gone (l : Listing γ) (path : Path) (d : Disk γ) : Prop where
  files : ∀ q c, l.Holds q c → Entered q → d.deletedFiles (path ++ q) = true
  folders : ∀ q, l.Contains q → (∀ name ∈ q, name ∉ dots) → d.removedFolders (path ++ q) = true

section Gone
variable {wild : CString → CString → Bool} {e : Env} {path : Path} {name : CString} {d d' : Disk γ}

theorem Listing.Contains.ne_nil {l : Listing γ} : ¬ l.Contains [] := by
  induction l with
  | nil => exact id
  | file name c rest ih => exact ih
  | folder name items rest _ ih =>
    rintro (⟨q, hq, -⟩ | h)
    · exact absurd hq.symm (List.cons_ne_nil name q)
    · exact ih h

theorem Listing.Contains.mem_names {l : Listing γ} {q : Path} (h : l.Contains (name :: q)) : name ∈ l.names := by
  induction l with
  | nil => exact h.elim
  | file other c rest ih => exact List.mem_cons_of_mem other (ih h)
  | folder other items rest _ ih =>
    rcases h with ⟨q', heq, -⟩ | h
    · rw [(List.cons_eq_cons.1 heq).1]
      exact List.mem_cons_self
    · exact List.mem_cons_of_mem other (ih h)

theorem Gone.emptied : ∀ {l : Listing γ}, Gone l path d → l.emptied d path = true
  | .nil, _ => rfl
  | .file name c rest, h => by
    have hrest : Gone rest path d := ⟨fun q c hq => h.files q c (Or.inr hq), fun q hq => h.folders q hq⟩
    unfold Listing.emptied
    rw [h.files [name] c (Or.inl ⟨rfl, rfl⟩) (entered_single name), hrest.emptied]
    rfl
  | .folder name items rest, h => by
    have hrest : Gone rest path d := ⟨fun q c hq => h.files q c (Or.inr hq), fun q hq => h.folders q (Or.inr hq)⟩
    unfold Listing.emptied
    rw [hrest.emptied, Bool.and_true, Bool.or_eq_true, List.contains_eq_mem, decide_eq_true_eq]
    by_cases hdots : name ∈ dots
    · exact Or.inl hdots
    · right
      refine h.folders [name] (Or.inl ⟨[], rfl, Or.inl rfl⟩) fun other hother => ?_
      rw [List.mem_singleton.1 hother]
      exact hdots

theorem Gone.kept {l : Listing γ} {names : List CString} (h : Gone l path d) (hd : Below names path d d')
    (hnames : ∀ name ∈ l.names, name ∉ names) : Gone l path d' := by
  have hsame : ∀ name ∈ l.names, ∀ q, d'.deletedFiles (path ++ name :: q) = d.deletedFiles (path ++ name :: q) ∧
      d'.removedFolders (path ++ name :: q) = d.removedFolders (path ++ name :: q) := by
    intro name hname q
    refine hd _ fun other hother q' heq => hnames name hname ?_
    rw [(List.cons_eq_cons.1 (List.append_cancel_left heq)).1]
    exact hother
  constructor
  · intro q c hq hentered
    cases q with
    | nil => exact hq.ne_nil.elim
    | cons name q =>
      rw [(hsame name hq.mem_names q).1]
      exact h.files _ c hq hentered
  · intro q hq hdots
    cases q with
    | nil => exact absurd hq Listing.Contains.ne_nil
    | cons name q =>
      rw [(hsame name hq.mem_names q).2]
      exact h.folders _ hq hdots

theorem Untouched.kept {names names' : List CString} (h : Untouched names path d) (hd : Below names' path d d')
    (hnames : ∀ name ∈ names, name ∉ names') : Untouched names path d' := by
  intro name hname q
  obtain ⟨hfile, hfolder⟩ := hd (path ++ name :: q) fun other hother q' heq => by
    refine hnames name hname ?_
    rw [(List.cons_eq_cons.1 (List.append_cancel_left heq)).1]
    exact hother
  rw [hfile, hfolder]
  exact h name hname q

theorem Untouched.tail {names : List CString} (h : Untouched (name :: names) path d) : Untouched names path d :=
  fun other hother => h other (List.mem_cons_of_mem name hother)

theorem Untouched.down {names names' : List CString} (h : Untouched (name :: names) path d) :
    Untouched names' (path ++ [name]) d := by
  intro other _ q
  rw [List.append_assoc]
  exact h name List.mem_cons_self (other :: q)

/-- The call for a sub-folder leaves nothing of it. -/
theorem finish_gone (he : Deleting e) {items : Listing γ} {s : Cleaning γ} (h : Gone items (path ++ [name]) s.disk) :
    Gone (.folder name items .nil) path (finish e true items (path ++ [name]) s).disk := by
  have hdisk : (finish e true items (path ++ [name]) s).disk =
      Disk.remove (path ++ [name]) { s.disk with calls := s.disk.calls + 1 } := by
    unfold finish
    rw [if_pos rfl]
    exact removeDirectory_eq he h.emptied
  rw [hdisk]
  have hpath : ∀ q, path ++ name :: q = (path ++ [name]) ++ q := fun q => List.append_cons path name q
  constructor
  · rintro q c (⟨q, rfl, hq⟩ | hq) hentered
    · rw [entered_cons fun hnil => (hnil ▸ hq : items.Holds [] c).ne_nil] at hentered
      rw [hpath q]
      exact h.files q c hq hentered.2
    · exact hq.elim
  · rintro q (⟨q, rfl, hq⟩ | hq) hdots
    · rw [hpath q]
      unfold Disk.remove
      dsimp only
      rcases hq with rfl | hq
      · rw [List.append_nil, Function.update_self]
      · have hne : path ++ [name] ++ q ≠ path ++ [name] := by
          intro heq
          rw [List.append_right_eq_self] at heq
          exact Listing.Contains.ne_nil (heq ▸ hq)
        rw [Function.update_of_ne hne]
        exact h.folders q hq fun other hother => hdots other (List.mem_cons_of_mem name hother)
    · exact hq.elim

theorem deleteFile_gone (he : Deleting e) (path : Path) (name : CString) (c : γ) (d : Disk γ) :
    Gone (.file name c .nil) path (deleteFile e (path ++ [name]) d) := by
  constructor
  · rintro q c' (⟨rfl, -⟩ | hq) _
    · rw [deleteFile_eq he]
      exact Function.update_self _ _ _
    · exact hq.elim
  · exact fun q hq => hq.elim

/-- The loop leaves nothing, and counts the files of the folder itself. -/
theorem cleanLoop_gone (hall : ∀ name, wild anyFile name = true) (he : Deleting e) :
    ∀ (l : Listing γ) (path : Path) (s : Cleaning γ), l.Distinct → Untouched l.names path s.disk →
      Gone l path (cleanLoop wild e l path s).disk ∧ (cleanLoop wild e l path s).i = s.i + BitVec.ofNat 32 l.direct
  | .nil, path, s, _, _ => by
    refine ⟨⟨fun _ _ hq => hq.elim, fun _ hq => hq.elim⟩, ?_⟩
    exact (BitVec.add_zero s.i).symm
  | .file name c rest, path, s, hl, hs => by
    obtain ⟨hname, hdistinct⟩ := hl
    have hfound : (wild anyFile name && !s.disk.deletedFiles (path ++ [name])) = true := by
      rw [hall, (hs name List.mem_cons_self []).1]
      rfl
    unfold cleanLoop
    rw [if_pos hfound]
    have hbelow := below_delete he path name s.disk
    have hother : ∀ other ∈ rest.names, other ∉ [name] := by
      intro other hother heq
      rw [List.mem_singleton.1 heq] at hother
      exact hname hother
    obtain ⟨hgone, hi⟩ := cleanLoop_gone hall he rest path ⟨s.i + 1, deleteFile e (path ++ [name]) s.disk⟩ hdistinct
      (hs.tail.kept hbelow hother)
    have hlater : Below rest.names path (deleteFile e (path ++ [name]) s.disk)
        (cleanLoop wild e rest path ⟨s.i + 1, deleteFile e (path ++ [name]) s.disk⟩).disk :=
      cleanLoop_below he rest path _
    have hfirst := (deleteFile_gone he path name c s.disk).kept hlater fun other hother => by
      rw [List.mem_singleton.1 hother]
      exact hname
    refine ⟨⟨fun q c' hq => ?_, hgone.folders⟩, ?_⟩
    · rcases hq with hq | hq
      · exact hfirst.files q c' (Or.inl hq)
      · exact hgone.files q c' hq
    · rw [hi]
      show s.i + 1 + BitVec.ofNat 32 rest.direct = s.i + BitVec.ofNat 32 (rest.direct + 1)
      rw [BitVec.ofNat_add, BitVec.add_assoc, BitVec.add_comm 1]
      rfl
  | .folder name items rest, path, s, hl, hs => by
    obtain ⟨hname, hitems, hdistinct⟩ := hl
    unfold cleanLoop
    by_cases hdots : name ∈ dots
    · have hskip : ¬ (wild anyFile name && !s.disk.removedFolders (path ++ [name]) && !dots.contains name) = true := by
        rw [List.contains_eq_mem, decide_eq_true hdots]
        simp
      rw [if_neg hskip]
      obtain ⟨hgone, hi⟩ := cleanLoop_gone hall he rest path s hdistinct hs.tail
      refine ⟨⟨fun q c hq hentered => ?_, fun q hq hnames => ?_⟩, hi⟩
      · rcases hq with ⟨q, rfl, hq⟩ | hq
        · rw [entered_cons fun hnil => (hnil ▸ hq : items.Holds [] c).ne_nil] at hentered
          exact absurd hdots hentered.1
        · exact hgone.files q c hq hentered
      · rcases hq with ⟨q, rfl, -⟩ | hq
        · exact absurd hdots (hnames name List.mem_cons_self)
        · exact hgone.folders q hq hnames
    · have hfound : (wild anyFile name && !s.disk.removedFolders (path ++ [name]) && !dots.contains name) = true := by
        rw [hall, (hs name List.mem_cons_self []).2, List.contains_eq_mem, decide_eq_false hdots]
        rfl
      rw [if_pos hfound]
      obtain ⟨hsub, -⟩ := cleanLoop_gone hall he items (path ++ [name]) ⟨0, s.disk⟩ hitems hs.down
      have hfinish := finish_gone he hsub
      have hbelow : Below [name] path s.disk
          (finish e true items (path ++ [name]) (cleanLoop wild e items (path ++ [name]) ⟨0, s.disk⟩)).disk :=
        (cleanLoop_below he items (path ++ [name]) ⟨0, s.disk⟩).up.trans (below_finish he path name _)
      have hother : ∀ other ∈ rest.names, other ∉ [name] := by
        intro other hother heq
        rw [List.mem_singleton.1 heq] at hother
        exact hname hother
      generalize (finish e true items (path ++ [name]) (cleanLoop wild e items (path ++ [name]) ⟨0, s.disk⟩)).disk = d
        at hfinish hbelow
      obtain ⟨hgone, hi⟩ := cleanLoop_gone hall he rest path ⟨s.i, d⟩ hdistinct (hs.tail.kept hbelow hother)
      have hlater : Below rest.names path d (cleanLoop wild e rest path ⟨s.i, d⟩).disk := cleanLoop_below he rest path _
      have hfirst := hfinish.kept hlater fun other hother => by
        rw [List.mem_singleton.1 hother]
        exact hname
      refine ⟨⟨fun q c hq => ?_, fun q hq => ?_⟩, hi⟩
      · rcases hq with hq | hq
        · exact hfirst.files q c (Or.inl hq)
        · exact hgone.files q c hq
      · rcases hq with hq | hq
        · exact hfirst.folders q (Or.inl hq)
        · exact hgone.folders q hq

/-- Whatever is under the folder is deleted, and what is returned is the number of its own files. -/
theorem deleteDirectory_clears (hall : ∀ name, wild anyFile name = true) (he : Deleting e) (bDeleteSelf : Bool)
    {l : Listing γ} (hl : l.Distinct)
    (hd : ∀ q, d.deletedFiles (path ++ q) = false ∧ d.removedFolders (path ++ q) = false) :
    Gone l path (deleteDirectory wild e bDeleteSelf l path d).disk ∧
      (deleteDirectory wild e bDeleteSelf l path d).disk.removedFolders path = bDeleteSelf ∧
      (deleteDirectory wild e bDeleteSelf l path d).i = BitVec.ofNat 32 l.direct := by
  have huntouched : Untouched l.names path d := fun name _ q => hd (name :: q)
  obtain ⟨hgone, hi⟩ := cleanLoop_gone hall he l path ⟨0, d⟩ hl huntouched
  have hi' : (cleanLoop wild e l path ⟨0, d⟩).i = BitVec.ofNat 32 l.direct := hi.trans (BitVec.zero_add _)
  unfold deleteDirectory finish
  cases bDeleteSelf with
  | true =>
    rw [if_pos rfl]
    dsimp only
    rw [removeDirectory_eq he hgone.emptied]
    refine ⟨⟨hgone.files, fun q hq hdots => ?_⟩, Function.update_self _ _ _, hi'⟩
    have hne : path ++ q ≠ path := by
      intro heq
      rw [List.append_right_eq_self] at heq
      exact Listing.Contains.ne_nil (heq ▸ hq)
    exact (Function.update_of_ne hne _ _).trans (hgone.folders q hq hdots)
  | false =>
    rw [if_neg Bool.false_ne_true]
    refine ⟨hgone, ?_, hi'⟩
    have hbelow : Below l.names path d (cleanLoop wild e l path ⟨0, d⟩).disk := cleanLoop_below he l path ⟨0, d⟩
    have hself := (hd []).2
    rw [List.append_nil] at hself
    rw [(hbelow path fun name _ q heq => ?_).2, hself]
    rw [List.self_eq_append_right] at heq
    exact absurd heq (List.cons_ne_nil name q)

/-- The claimed count is returned exactly when no file is in a sub-folder and the counter can hold the number. -/
theorem deleteDirectory_iff (hall : ∀ name, wild anyFile name = true) (he : Deleting e) (bDeleteSelf : Bool)
    {l : Listing γ} (hl : l.Distinct)
    (hd : ∀ q, d.deletedFiles (path ++ q) = false ∧ d.removedFolders (path ++ q) = false) :
    Removes wild e bDeleteSelf l path d ↔ l.Flat ∧ l.count < 0x80000000 := by
  obtain ⟨hgone, hself, hi⟩ := deleteDirectory_clears hall he bDeleteSelf hl hd
  have hcount : (deleteDirectory wild e bDeleteSelf l path d).i.toInt = l.count ↔ l.Flat ∧ l.count < 0x80000000 := by
    have hle := direct_le_count l
    have hmod := Nat.mod_le l.direct (2 ^ 32)
    rw [hi, BitVec.toInt_eq_toNat_cond, BitVec.toNat_ofNat, ← direct_eq_count_iff]
    split <;> omega
  exact ⟨fun h => hcount.1 h.count, fun h => ⟨hgone.files, hgone.folders, hself, hcount.2 h⟩⟩

end Gone

/-- A folder with the file `a` and the empty folder `b`. -/
def flatFolder : Listing Unit := .file [0x61] () (.folder [0x62] .nil .nil)

/-- A folder with the folder `b`, and in it the file `a`. -/
def nestedFolder : Listing Unit := .folder [0x62] (.file [0x61] () .nil) .nil

theorem flatFolder_distinct : flatFolder.Distinct := ⟨by decide, by decide, trivial, trivial⟩

theorem nestedFolder_distinct : nestedFolder.Distinct := ⟨by decide, ⟨by decide, trivial⟩, trivial⟩

theorem yielding_deletes : Deleting yielding := fun _ _ => ⟨rfl, rfl⟩

theorem intact_fresh (path : Path) (q : Path) : (intact fun _ => none : Disk Unit).deletedFiles (path ++ q) = false ∧
    (intact fun _ => none : Disk Unit).removedFolders (path ++ q) = false := ⟨rfl, rfl⟩

theorem deleteDirectory_sample : Removes literal yielding true flatFolder [] (intact fun _ => none) ↔
    flatFolder.Flat ∧ flatFolder.count < 0x80000000 :=
  deleteDirectory_iff literal_all yielding_deletes true flatFolder_distinct (intact_fresh [])

/-- The file in the sub-folder is deleted, but not counted. -/
theorem nested_uncounted : ¬ ∀ (wild : CString → CString → Bool) (e : Env) (bDeleteSelf : Bool) (l : Listing Unit)
    (path : Path) (d : Disk Unit), (∀ name, wild anyFile name = true) → Deleting e → l.Distinct →
    (∀ q, d.deletedFiles (path ++ q) = false ∧ d.removedFolders (path ++ q) = false) →
    Removes wild e bDeleteSelf l path d := by
  intro hall
  have hremoves := hall literal yielding false nestedFolder [] (intact fun _ => none) literal_all yielding_deletes
    nestedFolder_distinct (intact_fresh [])
  have hcount := hremoves.count
  revert hcount
  decide

end StarLib.FileMisc
