import StarLib.FileMisc.Folders

/-! # What `DeleteFolderContents` deletes

The second pass over a folder, the one for its sub-folders, takes every file that it finds as well. Files
that do not match the mask survive only where there is no second pass.
-/

namespace StarLib.FileMisc
open Foundations
set_option autoImplicit false
set_option maxHeartbeats 250000
set_option maxRecDepth 120000

variable {γ : Type} {wild : CString → CString → Bool} {e : Env} {hTerminate bIncludeSubFolders : Bool} {szFileMask : CString}

/-! ## Invariants of the disk -/

/-- Properties of a disk that do not count the calls. -/
def Uncounted (P : Disk γ → Prop) : Prop := ∀ d calls waits, P d → P { d with calls := calls, waits := waits }

section Invariants
variable {P : Disk γ → Prop} (hP : Uncounted P)

include hP

theorem wait_inv {s : Search γ} (hs : P s.disk) : P (wait e hTerminate s).disk := hP _ _ _ hs

theorem call_inv {op : Op} {f : Disk γ → Disk γ} {s : Search γ} (hs : P s.disk)
    (hf : e.succeeds s.disk.calls op = true → ∀ d, P d → P (f d)) : P (call e op f s).disk := by
  unfold call
  by_cases hok : e.succeeds s.disk.calls op = true
  · rw [if_pos hok]
    exact hf hok _ (hP _ _ _ hs)
  · rw [if_neg hok]
    exact hP _ _ _ hs

theorem passes_inv {n : ℕ} {loop : ℕ → Search γ → Search γ} (hloop : ∀ k < n, ∀ s, P s.disk → P (loop k s).disk)
    {d : Disk γ} (hd : P d) : P (passes e hTerminate n loop d).disk := by
  refine forRange_inv (P := fun _ (s : Search γ) => P s.disk) (Nat.zero_le n) (wait_inv hP hd) ?_
  intro k s _ hk hs
  show P (if s.bStopped then s else loop k s).disk
  split
  · exact hs
  · exact hloop k hk s hs

theorem entry_inv {found : Bool} {turn next : Search γ → Search γ} {s : Search γ} (hturn : found = true → P (turn s).disk)
    (hnext : ∀ s, P s.disk → P (next s).disk) (hs : P s.disk) : P (entry e hTerminate found turn next s).disk := by
  unfold entry
  split
  · next hfound =>
    have hwait : P (wait e hTerminate (turn s)).disk := wait_inv hP (hturn hfound)
    simp only
    split
    · exact hnext _ hwait
    · exact hwait
  · exact hnext s hs

end Invariants

/-! ## Which files a run can delete -/

/-- No name of the path starts with a dot. -/
def Plain (q : Path) : Prop := ∀ name ∈ q, plain name = true

def Deletable (wild : CString → CString → Bool) (bIncludeSubFolders : Bool) (szFileMask : CString) (q : Path) : Prop :=
  Plain q ∧ (bIncludeSubFolders = false → ∃ name, q = [name] ∧ wild (passMask szFileMask 0) name = true)

theorem Plain.cons {name : CString} {q : Path} (hname : plain name = true) (hq : Plain q) : Plain (name :: q) := by
  intro other hother
  rcases List.mem_cons.1 hother with rfl | hother
  · exact hname
  · exact hq other hother

theorem Plain.single {name : CString} (hname : plain name = true) : Plain [name] :=
  Plain.cons hname fun _ h => absurd h List.not_mem_nil

theorem deleteLoop_inv {P : Disk γ → Prop} (hP : Uncounted P) (hremove : szFileMask = [] → ∀ p d, P d → P (d.remove p)) :
    ∀ (l : Listing γ) (path : Path) (nPass : ℕ) (s : Search γ), (bIncludeSubFolders = false → nPass = 0) →
      (∀ q c d, l.Holds q c → Deletable wild bIncludeSubFolders szFileMask q → P d → P (d.delete (path ++ q))) → P s.disk →
      P (deleteLoop wild e hTerminate bIncludeSubFolders szFileMask l path nPass s).disk
  | .nil, _, _, _, _, _, hs => hs
  | .file name content rest, path, nPass, s, hpass, hdelete, hs => by
    have hrest := fun s hs => deleteLoop_inv hP hremove rest path nPass s hpass
      (fun q c d hq => hdelete q c d (Or.inr hq)) hs
    refine entry_inv hP (fun hfound => ?_) hrest hs
    unfold deleteFileTurn
    split
    · next hname =>
      refine call_inv hP hs fun _ d hd => hdelete [name] content d (Or.inl ⟨rfl, rfl⟩) ⟨Plain.single hname, fun hsub => ?_⟩ hd
      rw [hpass hsub, Bool.and_eq_true] at hfound
      exact ⟨name, rfl, hfound.1⟩
    · exact hs
  | .folder name items rest, path, nPass, s, hpass, hdelete, hs => by
    have hrest := fun s hs => deleteLoop_inv hP hremove rest path nPass s hpass
      (fun q c d hq => hdelete q c d (Or.inr hq)) hs
    refine entry_inv hP (fun _ => ?_) hrest hs
    unfold deleteFolderTurn
    split
    · next hturn =>
      rw [Bool.and_eq_true, Bool.and_eq_true] at hturn
      obtain ⟨hname, hsub, _⟩ := hturn
      have hnot : ¬ bIncludeSubFolders = false := by
        rw [hsub]
        exact Bool.noConfusion
      have hcontents : P (passes e hTerminate (nPasses bIncludeSubFolders szFileMask)
          (deleteLoop wild e hTerminate bIncludeSubFolders szFileMask items (path ++ [name])) s.disk).disk := by
        refine passes_inv hP (fun k _ s hs => deleteLoop_inv hP hremove items (path ++ [name]) k s
          (fun hsub => absurd hsub hnot) (fun q c d hq hplain hd => ?_) hs) hs
        rw [List.append_assoc]
        exact hdelete (name :: q) c d (Or.inl ⟨q, rfl, hq⟩) ⟨Plain.cons hname hplain.1, fun hsub => absurd hsub hnot⟩ hd
      simp only
      split
      · next hremoved =>
        rw [Bool.and_eq_true, List.isEmpty_iff] at hremoved
        unfold removeDirectory
        split
        · exact call_inv hP hcontents fun _ d => hremove hremoved.2 _ d
        · exact hP _ _ _ hcontents
      · exact hcontents
    · exact hs

/-! ## Runs in which everything succeeds -/

theorem entry_going {turn next : Search γ → Search γ} {s : Search γ} (h : (turn s).bResult = true) :
    entry e false true turn next s = next (wait e false (turn s)) :=
  if_pos h

theorem passes_run {n : ℕ} {loop : ℕ → Search γ → Search γ} {d : Disk γ} (Q : ℕ → Search γ → Prop)
    (hstart : Q 0 (wait e hTerminate ⟨true, false, d⟩)) (hstopped : ∀ k s, s.bStopped = true → Q k s → Q (k + 1) s)
    (hloop : ∀ k < n, ∀ s, s.bStopped = false → Q k s → Q (k + 1) (loop k s)) : Q n (passes e hTerminate n loop d) := by
  refine forRange_inv Q (Nat.zero_le n) hstart fun k s _ hk hs => ?_
  show Q (k + 1) (if s.bStopped then s else loop k s)
  split
  · next hstop => exact hstopped k s hstop hs
  · next hgoing => exact hloop k hk s (Bool.eq_false_iff.2 hgoing) hs

/-- A search that goes on, with all folders still there. -/
structure Going (s : Search γ) : Prop where
  bResult : s.bResult = true
  bStopped : s.bStopped = false
  removedFolders : ∀ p, s.disk.removedFolders p = false

theorem Going.wait {s : Search γ} (h : Going s) : Going (wait e false s) := ⟨h.bResult, rfl, h.removedFolders⟩

theorem uncounted_removedFolders (p : Path) : Uncounted fun d : Disk γ => d.removedFolders p = false := fun _ _ _ h => h

theorem uncounted_deletedFiles (p : Path) : Uncounted fun d : Disk γ => d.deletedFiles p = true := fun _ _ _ h => h

theorem Disk.delete_mono {d : Disk γ} {p : Path} (h : d.deletedFiles p = true) (p' : Path) : (d.delete p').deletedFiles p = true := by
  show Function.update d.deletedFiles p' true p = true
  by_cases hp : p = p'
  · rw [hp, Function.update_self]
  · rw [Function.update_of_ne hp, h]

theorem deleteLoop_keepsDeleted (l : Listing γ) (path : Path) {nPass : ℕ} (hpass : bIncludeSubFolders = false → nPass = 0)
    {s : Search γ} {p : Path} (h : s.disk.deletedFiles p = true) :
    (deleteLoop wild e hTerminate bIncludeSubFolders szFileMask l path nPass s).disk.deletedFiles p = true :=
  deleteLoop_inv (uncounted_deletedFiles p) (fun _ _ _ h => h) l path nPass s hpass (fun _ _ _ _ _ h => Disk.delete_mono h _) h

theorem passMask_second (szFileMask : CString) : passMask szFileMask 1 = anyFile := if_pos (Bool.or_true _)

theorem passMask_first (h : szFileMask ≠ []) : passMask szFileMask 0 = szFileMask := by
  cases szFileMask with
  | nil => exact absurd rfl h
  | cons c cs => rfl

theorem nPasses_two (h : szFileMask ≠ []) : nPasses true szFileMask = 2 := by
  cases szFileMask with
  | nil => exact absurd rfl h
  | cons c cs => rfl

/-- Every file of a folder that has no dot in front is deleted. -/
def AllDeleted (l : Listing γ) (path : Path) (d : Disk γ) : Prop := ∀ q c, l.Holds q c → Plain q → d.deletedFiles (path ++ q) = true

theorem passes_succeed {loop : ℕ → Search γ → Search γ} (P : Disk γ → Prop)
    (hloop : ∀ k s, Going s → Going (loop k s) ∧ (k = 1 → P (loop k s).disk)) {d : Disk γ} (hd : ∀ p, d.removedFolders p = false) :
    Going (passes e false 2 loop d) ∧ P (passes e false 2 loop d).disk := by
  have hrun : Going (passes e false 2 loop d) ∧ (2 = 2 → P (passes e false 2 loop d).disk) :=
    passes_run (fun k s => Going s ∧ (k = 2 → P s.disk)) ⟨⟨rfl, rfl, hd⟩, fun h => absurd h (by decide)⟩
      (fun k s hstop hs => absurd hs.1.bStopped (by rw [hstop]; exact Bool.noConfusion))
      fun k _ s _ hs => ⟨(hloop k s hs.1).1, fun hk => (hloop k s hs.1).2 (by omega)⟩
  exact ⟨hrun.1, hrun.2 rfl⟩

section Success
variable (hall : ∀ name, wild anyFile name = true) (hmask : szFileMask ≠ []) (hsucceeds : ∀ n p, e.succeeds n (.deleteFile p) = true)

section Turns

include hsucceeds in
theorem deleteFileTurn_succeeds (p : Path) (name : CString) {s : Search γ} (hs : Going s) :
    Going (deleteFileTurn e p name s) ∧ (plain name = true → (deleteFileTurn e p name s).disk.deletedFiles p = true) := by
  unfold deleteFileTurn call
  by_cases hname : plain name = true
  · rw [if_pos hname, if_pos (hsucceeds _ p)]
    exact ⟨⟨rfl, hs.bStopped, hs.removedFolders⟩, fun _ => Function.update_self ..⟩
  · rw [if_neg hname]
    exact ⟨hs, fun h => absurd h hname⟩

include hmask in
theorem deleteFolderTurn_succeeds (p : Path) (name : CString) (items : Listing γ) (nPass : ℕ) {contents : Disk γ → Search γ}
    {s : Search γ} {P : Disk γ → Prop} (hs : Going s) (hcontents : Going (contents s.disk) ∧ P (contents s.disk).disk) :
    Going (deleteFolderTurn e true szFileMask p name items contents nPass s) ∧
      (nPass = 1 → plain name = true → P (deleteFolderTurn e true szFileMask p name items contents nPass s).disk) := by
  have hempty : szFileMask.isEmpty = false := by
    cases szFileMask with
    | nil => exact absurd rfl hmask
    | cons c cs => rfl
  unfold deleteFolderTurn
  split
  · simp only [hempty, Bool.and_false]
    exact ⟨⟨hs.bResult, hs.bStopped, hcontents.1.removedFolders⟩, fun _ _ => hcontents.2⟩
  · next hturn =>
    refine ⟨hs, fun hpass hname => absurd ?_ hturn⟩
    rw [hpass, hname]
    rfl

end Turns

include hall hmask hsucceeds

/-- With a mask and sub-folders the second pass deletes whatever has no dot in front. -/
theorem deleteLoop_succeeds : ∀ (l : Listing γ) (path : Path) (nPass : ℕ) (s : Search γ), Going s →
    Going (deleteLoop wild e false true szFileMask l path nPass s) ∧
      (nPass = 1 → AllDeleted l path (deleteLoop wild e false true szFileMask l path nPass s).disk)
  | .nil, _, _, _, hs => ⟨hs, fun _ _ _ hq => hq.elim⟩
  | .file name content rest, path, nPass, s, hs => by
    unfold deleteLoop
    cases hfound : wild (passMask szFileMask nPass) name && !s.disk.deletedFiles (path ++ [name]) with
    | false =>
      obtain ⟨hgoing, hrest⟩ := deleteLoop_succeeds rest path nPass s hs
      refine ⟨hgoing, fun hpass q c hq hplain => ?_⟩
      rcases hq with ⟨rfl, _⟩ | hq
      · refine deleteLoop_keepsDeleted rest path (fun h : true = false => Bool.noConfusion h) ?_
        rwa [hpass, passMask_second, hall, Bool.true_and, Bool.not_eq_false'] at hfound
      · exact hrest hpass q c hq hplain
    | true =>
      have hturn := deleteFileTurn_succeeds hsucceeds (path ++ [name]) name hs
      rw [entry_going hturn.1.bResult]
      obtain ⟨hgoing, hrest⟩ := deleteLoop_succeeds rest path nPass _ hturn.1.wait
      refine ⟨hgoing, fun hpass q c hq hplain => ?_⟩
      rcases hq with ⟨rfl, _⟩ | hq
      · exact deleteLoop_keepsDeleted rest path (fun h : true = false => Bool.noConfusion h) (hturn.2 (hplain name (List.mem_singleton_self name)))
      · exact hrest hpass q c hq hplain
  | .folder name items rest, path, nPass, s, hs => by
    have hcontents := passes_succeed (e := e) (AllDeleted items (path ++ [name]))
      (fun k s hs => deleteLoop_succeeds items (path ++ [name]) k s hs) hs.removedFolders
    rw [← nPasses_two hmask] at hcontents
    unfold deleteLoop
    cases hfound : wild (passMask szFileMask nPass) name && !s.disk.removedFolders (path ++ [name]) with
    | false =>
      obtain ⟨hgoing, hrest⟩ := deleteLoop_succeeds rest path nPass s hs
      refine ⟨hgoing, fun hpass => ?_⟩
      rw [hpass, passMask_second, hall, hs.removedFolders] at hfound
      exact Bool.noConfusion hfound
    | true =>
      have hturn := deleteFolderTurn_succeeds (e := e) hmask (path ++ [name]) name items nPass
        (P := AllDeleted items (path ++ [name])) hs hcontents
      rw [entry_going hturn.1.bResult]
      obtain ⟨hgoing, hrest⟩ := deleteLoop_succeeds rest path nPass _ hturn.1.wait
      refine ⟨hgoing, fun hpass q c hq hplain => ?_⟩
      rcases hq with ⟨q, rfl, hq⟩ | hq
      · refine deleteLoop_keepsDeleted rest path (fun h : true = false => Bool.noConfusion h) ?_
        have hdeleted := hturn.2 hpass (hplain name List.mem_cons_self) q c hq fun other h => hplain other (List.mem_cons_of_mem name h)
        rwa [List.append_assoc] at hdeleted
      · exact hrest hpass q c hq hplain

end Success

/-! ## What the mask promises -/

def fileName (q : Path) : CString := q.getLastD []

/-- Whatever fails and whenever the run is stopped, it deletes files that match the mask only, and no folders. -/
def DeletesMatching (wild : CString → CString → Bool) (bIncludeSubFolders : Bool) (szFileMask : CString) (l : Listing γ) : Prop :=
  ∀ (e : Env) (hTerminate : Bool) (d : Disk γ),
    (∀ q, (deleteFolderContents wild e hTerminate bIncludeSubFolders szFileMask l d).2.removedFolders q = d.removedFolders q) ∧
    ∀ q, (deleteFolderContents wild e hTerminate bIncludeSubFolders szFileMask l d).2.deletedFiles q = true →
      d.deletedFiles q = true ∨ wild szFileMask (fileName q) = true

/-- Every call succeeds and no event is set. -/
def yielding : Env := ⟨fun _ _ => true, fun _ => false⟩

/-- Nothing is deleted. -/
def intact (dest : Path → Option γ) : Disk γ := ⟨fun _ => false, fun _ => false, dest, 0, 0⟩

theorem deleteFolderContents_inv {P : Disk γ → Prop} (hP : Uncounted P) (hremove : szFileMask = [] → ∀ p d, P d → P (d.remove p))
    {l : Listing γ} {d : Disk γ}
    (hdelete : ∀ q c d, l.Holds q c → Deletable wild bIncludeSubFolders szFileMask q → P d → P (d.delete q)) (hd : P d) :
    P (deleteFolderContents wild e hTerminate bIncludeSubFolders szFileMask l d).2 := by
  refine passes_inv hP (fun k hk s hs => deleteLoop_inv hP hremove l [] k s (fun hsub => ?_) hdelete hs) hd
  have hone : nPasses bIncludeSubFolders szFileMask = 1 := by
    rw [hsub]
    rfl
  omega

theorem deletesMatching_iff (hall : ∀ name, wild anyFile name = true) (hmask : szFileMask ≠ []) (l : Listing γ) :
    DeletesMatching wild bIncludeSubFolders szFileMask l ↔
      bIncludeSubFolders = false ∨ ∀ q c, l.Holds q c → Plain q → wild szFileMask (fileName q) = true := by
  constructor
  · intro h
    cases bIncludeSubFolders with
    | false => exact Or.inl rfl
    | true =>
      refine Or.inr fun q c hq hplain => ?_
      have hrun := passes_succeed (e := yielding) (d := intact fun _ => none) (AllDeleted l [])
        (fun k s hs => deleteLoop_succeeds (e := yielding) hall hmask (fun _ _ => rfl) l [] k s hs) fun _ => rfl
      rw [← nPasses_two hmask] at hrun
      exact ((h yielding false (intact fun _ => none)).2 q (hrun.2 q c hq hplain)).resolve_left Bool.noConfusion
  · intro h e hTerminate d
    refine ⟨fun q => ?_, fun q hq => ?_⟩
    · exact deleteFolderContents_inv (P := fun d' => d'.removedFolders q = d.removedFolders q) (fun _ _ _ h => h)
        (fun h => absurd h hmask) (fun _ _ _ _ _ h => h) rfl
    · refine deleteFolderContents_inv (P := fun d' => d'.deletedFiles q = true → d.deletedFiles q = true ∨ wild szFileMask (fileName q) = true)
        (fun _ _ _ h => h) (fun h => absurd h hmask) (fun q' c d' hq' hdeletable hd' hdeleted => ?_) (fun h => Or.inl h) hq
      by_cases hqq' : q = q'
      · right
        rcases h with hsub | hmatch
        · obtain ⟨name, hname, hwild⟩ := hdeletable.2 hsub
          rw [passMask_first hmask] at hwild
          rw [hqq', hname]
          exact hwild
        · rw [hqq']
          exact hmatch q' c hq' hdeletable.1
      · refine hd' ?_
        rwa [← Function.update_of_ne hqq' true d'.deletedFiles]

/-- A folder with the file `b`, and the masks `a` and `b`. -/
def oneFile : Listing Unit := .folder [0x2e] .nil (.folder [0x2e, 0x2e] .nil (.file [0x62] () .nil))

theorem literal_all (name : CString) : literal anyFile name = true := rfl

theorem deletesMatching_sample : DeletesMatching literal true [0x62] oneFile ↔
    true = false ∨ ∀ q c, oneFile.Holds q c → Plain q → literal [0x62] (fileName q) = true :=
  deletesMatching_iff literal_all (List.cons_ne_nil _ _) oneFile

theorem unmatched_deleted : ¬ DeletesMatching literal true [0x61] oneFile := by
  intro h
  have hdeleted := (h yielding false (intact fun _ => none)).2 [[0x62]] (by decide)
  revert hdeleted
  decide

end StarLib.FileMisc
