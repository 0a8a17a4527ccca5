import StarLib.FileMisc.Delete

/-! # What `MoveFolder` loses

`CopyFolder` drops the mask in sub-folders, and with a mask its second pass may forget that a file could not be
copied; `DeleteFolderContents` deletes more than the mask selects. Without a mask, or without sub-folders, what is
deleted has been copied.
-/

namespace StarLib.FileMisc
open Foundations
set_option autoImplicit false
set_option maxHeartbeats 250000
set_option maxRecDepth 120000

variable {γ : Type} {wild : CString → CString → Bool} {e : Env} {hTerminate bIncludeSubFolders : Bool} {szFileMask : CString}

/-! ## Which files a pass copies -/

def Taken (wild : CString → CString → Bool) (bIncludeSubFolders : Bool) (szFileMask : CString) (nPass : ℕ) : Path → Prop
  | [] => False
  | [name] => plain name = true ∧ wild (passMask szFileMask nPass) name = true ∧ nPass = 0
  | name :: q => plain name = true ∧ Plain q ∧ wild (passMask szFileMask nPass) name = true ∧
      (nPass = 1 ∨ nPasses bIncludeSubFolders szFileMask = 1) ∧ bIncludeSubFolders = true

theorem Listing.Holds.ne_nil {l : Listing γ} {c : γ} (h : l.Holds [] c) : False := by
  induction l with
  | nil => exact h
  | file name content rest ih =>
    rcases h with h | h
    · exact List.cons_ne_nil _ _ h.1.symm
    · exact ih h
  | folder name items rest _ ih =>
    rcases h with ⟨q, h, _⟩ | h
    · exact List.cons_ne_nil _ _ h.symm
    · exact ih h

theorem Taken.plain {nPass : ℕ} {q : Path} (h : Taken wild bIncludeSubFolders szFileMask nPass q) : Plain q := by
  match q, h with
  | [name], h => exact Plain.single h.1
  | name :: next :: q, h => exact Plain.cons h.1 h.2.1

/-- A file of a sub-folder is taken where the sub-folder is and no name below has a dot in front. -/
theorem taken_cons {nPass : ℕ} {name : CString} {l : Listing γ} {q : Path} {c : γ} (hq : l.Holds q c) :
    Taken wild bIncludeSubFolders szFileMask nPass (name :: q) ↔ FileMisc.plain name = true ∧ Plain q ∧
      wild (passMask szFileMask nPass) name = true ∧ (nPass = 1 ∨ nPasses bIncludeSubFolders szFileMask = 1) ∧
        bIncludeSubFolders = true := by
  cases q with
  | nil => exact hq.ne_nil.elim
  | cons next q => rfl

theorem Plain.taken (hall : ∀ name, wild anyFile name = true) {l : Listing γ} {q : Path} {c : γ} (hq : l.Holds q c) (h : Plain q) :
    Taken wild true [] 0 q := by
  match q, h with
  | [], _ => exact hq.ne_nil.elim
  | [name], h => exact ⟨h name (List.mem_singleton_self name), hall name, rfl⟩
  | name :: next :: q, h =>
    exact ⟨h name List.mem_cons_self, fun other hother => h other (List.mem_cons_of_mem name hother), hall name, Or.inr rfl, rfl⟩

/-! ## Invariants of the disk -/

theorem createThen_inv {P : Disk γ → Prop} (hP : Uncounted P) {p : Path} {f : Disk γ → Search γ} (hf : ∀ d, P d → P (f d).disk)
    {d : Disk γ} (hd : P d) : P (createThen e p f d).disk := by
  have hcall : P (call e (.createFolder p) id ⟨true, false, d⟩).disk := call_inv hP hd fun _ _ h => h
  unfold createThen
  simp only
  split
  · exact hf _ hcall
  · exact hcall

theorem copyLoop_inv {P : Disk γ → Prop} (hP : Uncounted P) :
    ∀ (l : Listing γ) (bIncludeSubFolders : Bool) (szFileMask : CString) (path : Path) (nPass : ℕ) (s : Search γ),
      (∀ q c d n, l.Holds q c → Taken wild bIncludeSubFolders szFileMask nPass q → e.succeeds n (.copyFile (path ++ q)) = true →
        P d → P (d.copy (path ++ q) c)) → P s.disk →
      P (copyLoop wild e hTerminate l bIncludeSubFolders szFileMask path nPass s).disk
  | .nil, _, _, _, _, _, _, hs => hs
  | .file name content rest, bIncludeSubFolders, szFileMask, path, nPass, s, hcopy, hs => by
    refine entry_inv hP (fun hfound => ?_) (fun s hs => copyLoop_inv hP rest bIncludeSubFolders szFileMask path nPass s
      (fun q c d n hq => hcopy q c d n (Or.inr hq)) hs) hs
    unfold copyFileTurn
    split
    · next hturn =>
      rw [Bool.and_eq_true, beq_iff_eq] at hturn
      exact call_inv hP hs fun hok d hd => hcopy [name] content d _ (Or.inl ⟨rfl, rfl⟩) ⟨hturn.1, hfound, hturn.2⟩ hok hd
    · exact hs
  | .folder name items rest, bIncludeSubFolders, szFileMask, path, nPass, s, hcopy, hs => by
    refine entry_inv hP (fun hfound => ?_) (fun s hs => copyLoop_inv hP rest bIncludeSubFolders szFileMask path nPass s
      (fun q c d n hq => hcopy q c d n (Or.inr hq)) hs) hs
    unfold copyFolderTurn
    split
    · next hturn =>
      rw [Bool.and_eq_true, Bool.and_eq_true, Bool.or_eq_true, beq_iff_eq, beq_iff_eq] at hturn
      refine createThen_inv hP (fun d hd => passes_inv hP (fun k _ s hs => copyLoop_inv hP items true [] (path ++ [name]) k s
        (fun q c d n hq htaken => ?_) hs) hd) hs
      rw [List.append_assoc]
      exact hcopy (name :: q) c d n (Or.inl ⟨q, rfl, hq⟩) ((taken_cons hq).2 ⟨hturn.1, htaken.plain, hfound, hturn.2⟩)
    · exact hs

/-! ## A copy that returns `TRUE` -/

/-- The destination has a file of the source there. -/
def Copied (H : Path → γ → Prop) (p : Path) (d : Disk γ) : Prop := ∃ c, H p c ∧ d.dest p = some c

theorem uncounted_copied (H : Path → γ → Prop) (p : Path) : Uncounted (Copied H p) := fun _ _ _ h => h

theorem Copied.copy {H : Path → γ → Prop} {p p' : Path} {c : γ} {d : Disk γ} (h : Copied H p d) (hc : H p' c) :
    Copied H p (d.copy p' c) := by
  by_cases hp : p = p'
  · exact ⟨c, hp ▸ hc, by rw [hp]; exact Function.update_self ..⟩
  · obtain ⟨c', hc', hdest⟩ := h
    exact ⟨c', hc', (Function.update_of_ne hp ..).trans hdest⟩

theorem entry_returned {found : Bool} {turn next : Search γ → Search γ} {s : Search γ}
    (h : (entry e hTerminate found turn next s).returned = true) :
    (found = false ∧ (next s).returned = true) ∨
      (found = true ∧ (wait e hTerminate (turn s)).returned = true ∧ (next (wait e hTerminate (turn s))).returned = true ∧
        entry e hTerminate found turn next s = next (wait e hTerminate (turn s))) := by
  cases found with
  | false => exact Or.inl ⟨rfl, h⟩
  | true =>
    by_cases hgoing : (wait e hTerminate (turn s)).returned = true
    · have hnext : entry e hTerminate true turn next s = next (wait e hTerminate (turn s)) := if_pos hgoing
      rw [hnext] at h
      exact Or.inr ⟨rfl, hgoing, h, hnext⟩
    · have hlast : entry e hTerminate true turn next s = wait e hTerminate (turn s) := if_neg hgoing
      rw [hlast] at h
      exact absurd h hgoing

theorem returned_iff {s : Search γ} : s.returned = true ↔ s.bStopped = false ∧ s.bResult = true := by
  unfold Search.returned
  rw [Bool.and_eq_true, Bool.not_eq_true']

theorem passes_one (loop : ℕ → Search γ → Search γ) (d : Disk γ) : passes e hTerminate 1 loop d =
    if (wait e hTerminate ⟨true, false, d⟩).bStopped then wait e hTerminate ⟨true, false, d⟩
    else loop 0 (wait e hTerminate ⟨true, false, d⟩) := rfl

theorem copyLoop_keeps {H : Path → γ → Prop} {l : Listing γ} {path : Path} (hH : ∀ q c, l.Holds q c → H (path ++ q) c)
    {nPass : ℕ} {p : Path} {s : Search γ} (h : Copied H p s.disk) :
    Copied H p (copyLoop wild e hTerminate l bIncludeSubFolders szFileMask path nPass s).disk :=
  copyLoop_inv (uncounted_copied H p) l bIncludeSubFolders szFileMask path nPass s (fun q c _ _ hq _ _ h => h.copy (hH q c hq)) h

theorem copyFileTurn_copied {H : Path → γ → Prop} {p : Path} {name : CString} {c : γ} {s : Search γ} (hname : plain name = true)
    (hc : H p c) (h : (wait e hTerminate (copyFileTurn e p name c 0 s)).returned = true) :
    Copied H p (wait e hTerminate (copyFileTurn e p name c 0 s)).disk := by
  have hturn : copyFileTurn e p name c 0 s = call e (.copyFile p) (Disk.copy p c) s := if_pos (by rw [hname]; rfl)
  rw [hturn] at h ⊢
  unfold call at h ⊢
  by_cases hok : e.succeeds s.disk.calls (.copyFile p) = true
  · rw [if_pos hok]
    exact ⟨c, hc, Function.update_self ..⟩
  · rw [if_neg hok] at h
    exact absurd (returned_iff.1 h).2 Bool.noConfusion

theorem copyFolderTurn_eq {name : CString} {contents : Disk γ → Search γ} {nPass : ℕ} (hname : plain name = true)
    (hpass : nPass = 1 ∨ nPasses bIncludeSubFolders szFileMask = 1) (hsub : bIncludeSubFolders = true) (s : Search γ) :
    copyFolderTurn bIncludeSubFolders szFileMask name contents nPass s =
      { s with bResult := (contents s.disk).returned, disk := (contents s.disk).disk } := by
  refine if_pos ?_
  rw [Bool.and_eq_true, Bool.and_eq_true, Bool.or_eq_true, beq_iff_eq, beq_iff_eq]
  exact ⟨hname, hpass, hsub⟩

theorem createThen_returned {p : Path} {f : Disk γ → Search γ} {d : Disk γ} (h : (createThen e p f d).returned = true) :
    ∃ d', createThen e p f d = f d' ∧ (f d').returned = true := by
  by_cases hok : (call e (.createFolder p) id ⟨true, false, d⟩).bResult = true
  · have hthen : createThen e p f d = f (call e (.createFolder p) id ⟨true, false, d⟩).disk := if_pos hok
    rw [hthen] at h
    exact ⟨_, hthen, h⟩
  · have hfailed : createThen e p f d = call e (.createFolder p) id ⟨true, false, d⟩ := if_neg hok
    rw [hfailed] at h
    exact absurd (returned_iff.1 h).2 hok

theorem passes_one_returned {loop : ℕ → Search γ → Search γ} {d : Disk γ} (h : (passes e hTerminate 1 loop d).returned = true) :
    ∃ s, passes e hTerminate 1 loop d = loop 0 s ∧ (loop 0 s).returned = true := by
  rw [passes_one] at h ⊢
  split at h
  · next hstopped => exact absurd ((returned_iff.1 h).1.symm.trans hstopped) Bool.noConfusion
  · next hgoing =>
    rw [if_neg hgoing]
    exact ⟨_, rfl, h⟩

/-- All that the pass had to copy is copied, when the loop ends with `TRUE`. -/
theorem copyLoop_complete (hall : ∀ name, wild anyFile name = true) {H : Path → γ → Prop} :
    ∀ (l : Listing γ) (bIncludeSubFolders : Bool) (szFileMask : CString) (path : Path) (nPass : ℕ) (s : Search γ),
      (∀ q c, l.Holds q c → H (path ++ q) c) →
      (copyLoop wild e hTerminate l bIncludeSubFolders szFileMask path nPass s).returned = true →
      ∀ q c, l.Holds q c → Taken wild bIncludeSubFolders szFileMask nPass q →
        Copied H (path ++ q) (copyLoop wild e hTerminate l bIncludeSubFolders szFileMask path nPass s).disk
  | .nil, _, _, _, _, _, _, _, _, _, hq, _ => hq.elim
  | .file name content rest, bIncludeSubFolders, szFileMask, path, nPass, s, hH, h, q, c, hq, htaken => by
    have hHrest : ∀ q c, rest.Holds q c → H (path ++ q) c := fun q c hq => hH q c (Or.inr hq)
    have hrest := fun s h => copyLoop_complete hall rest bIncludeSubFolders szFileMask path nPass s hHrest h q c
    unfold copyLoop at h ⊢
    rcases entry_returned h with ⟨hfound, h⟩ | ⟨hfound, hwait, h, hentry⟩
    · rw [hfound]
      rcases hq with ⟨rfl, _⟩ | hq
      · exact absurd (htaken.2.1.symm.trans hfound) Bool.noConfusion
      · exact hrest s h hq htaken
    · rw [hentry]
      rcases hq with ⟨rfl, _⟩ | hq
      · obtain ⟨hname, _, rfl⟩ := htaken
        exact copyLoop_keeps hHrest (copyFileTurn_copied hname (hH _ _ (Or.inl ⟨rfl, rfl⟩)) hwait)
      · exact hrest _ h hq htaken
  | .folder name items rest, bIncludeSubFolders, szFileMask, path, nPass, s, hH, h, q, c, hq, htaken => by
    have hHrest : ∀ q c, rest.Holds q c → H (path ++ q) c := fun q c hq => hH q c (Or.inr hq)
    have hrest := fun s h => copyLoop_complete hall rest bIncludeSubFolders szFileMask path nPass s hHrest h q c
    unfold copyLoop at h ⊢
    rcases entry_returned h with ⟨hfound, h⟩ | ⟨hfound, hwait, h, hentry⟩
    · rw [hfound]
      rcases hq with ⟨q, rfl, hq⟩ | hq
      · exact absurd (((taken_cons hq).1 htaken).2.2.1.symm.trans hfound) Bool.noConfusion
      · exact hrest s h hq htaken
    · rw [hentry]
      rcases hq with ⟨q, rfl, hq⟩ | hq
      · refine copyLoop_keeps hHrest ?_
        obtain ⟨hname, hplain, _, hpass, hsub⟩ := (taken_cons hq).1 htaken
        rw [copyFolderTurn_eq hname hpass hsub] at hwait ⊢
        obtain ⟨d, hthen, hpasses⟩ := createThen_returned (returned_iff.1 hwait).2
        obtain ⟨s', hone, hreturned⟩ := passes_one_returned hpasses
        have hcopied := copyLoop_complete hall items true [] (path ++ [name]) 0 s'
          (fun q c hq => by rw [List.append_assoc]; exact hH (name :: q) c (Or.inl ⟨q, rfl, hq⟩)) hreturned q c hq
          (hplain.taken hall hq)
        rw [← hthen.trans hone, List.append_assoc] at hcopied
        exact hcopied
      · exact hrest _ h hq htaken

/-! ## Copies that succeed -/

/-- The loop is not stopped, and not by a failure. -/
structure Running (s : Search γ) : Prop where
  bResult : s.bResult = true
  bStopped : s.bStopped = false

theorem Running.wait {s : Search γ} (h : s.bResult = true) : Running (wait e false s) := ⟨h, rfl⟩

theorem passes_running {n : ℕ} {loop : ℕ → Search γ → Search γ} (hloop : ∀ k < n, ∀ s, Running s → Running (loop k s)) (d : Disk γ) :
    Running (passes e false n loop d) :=
  passes_run (fun _ s => Running s) ⟨rfl, rfl⟩ (fun _ _ _ h => h) fun k hk s _ h => hloop k hk s h

section Success
variable (hcreate : ∀ n p, e.succeeds n (.createFolder p) = true)

include hcreate

theorem createThen_running {p : Path} {f : Disk γ → Search γ} (hf : ∀ d, Running (f d)) (d : Disk γ) :
    Running (createThen e p f d) := by
  have hok : (call e (.createFolder p) id ⟨true, false, d⟩).bResult = true := by
    unfold call
    rw [if_pos (hcreate _ p)]
  have hthen : createThen e p f d = f (call e (.createFolder p) id ⟨true, false, d⟩).disk := if_pos hok
  rw [hthen]
  exact hf _

theorem copyLoop_running : ∀ (l : Listing γ) (bIncludeSubFolders : Bool) (szFileMask : CString) (path : Path) (nPass : ℕ) (s : Search γ),
    (∀ q c n, l.Holds q c → Taken wild bIncludeSubFolders szFileMask nPass q → e.succeeds n (.copyFile (path ++ q)) = true) →
    Running s → Running (copyLoop wild e false l bIncludeSubFolders szFileMask path nPass s)
  | .nil, _, _, _, _, _, _, hs => hs
  | .file name content rest, bIncludeSubFolders, szFileMask, path, nPass, s, hcopy, hs => by
    have hrest := fun s hs => copyLoop_running rest bIncludeSubFolders szFileMask path nPass s (fun q c n hq => hcopy q c n (Or.inr hq)) hs
    unfold copyLoop
    cases hfound : wild (passMask szFileMask nPass) name with
    | false => exact hrest s hs
    | true =>
      have hturn : (copyFileTurn e (path ++ [name]) name content nPass s).bResult = true := by
        unfold copyFileTurn
        split
        · next hturn =>
          rw [Bool.and_eq_true, beq_iff_eq] at hturn
          unfold call
          rw [if_pos (hcopy [name] content _ (Or.inl ⟨rfl, rfl⟩) ⟨hturn.1, hfound, hturn.2⟩)]
        · exact hs.bResult
      rw [entry_going hturn]
      exact hrest _ (Running.wait hturn)
  | .folder name items rest, bIncludeSubFolders, szFileMask, path, nPass, s, hcopy, hs => by
    have hrest := fun s hs => copyLoop_running rest bIncludeSubFolders szFileMask path nPass s (fun q c n hq => hcopy q c n (Or.inr hq)) hs
    unfold copyLoop
    cases hfound : wild (passMask szFileMask nPass) name with
    | false => exact hrest s hs
    | true =>
      have hturn : (copyFolderTurn bIncludeSubFolders szFileMask name (createThen e (path ++ [name]) (passes e false (nPasses true [])
          (copyLoop wild e false items true [] (path ++ [name])))) nPass s).bResult = true := by
        unfold copyFolderTurn
        split
        · next hturn =>
          rw [Bool.and_eq_true, Bool.and_eq_true, Bool.or_eq_true, beq_iff_eq, beq_iff_eq] at hturn
          have hcontents : Running (createThen e (path ++ [name]) (passes e false (nPasses true [])
              (copyLoop wild e false items true [] (path ++ [name]))) s.disk) := by
            refine createThen_running hcreate (passes_running fun k _ s hs => copyLoop_running items true [] (path ++ [name]) k s
              (fun q c n hq htaken => ?_) hs) s.disk
            rw [List.append_assoc]
            exact hcopy (name :: q) c n (Or.inl ⟨q, rfl, hq⟩) ((taken_cons hq).2 ⟨hturn.1, htaken.plain, hfound, hturn.2⟩)
          exact returned_iff.2 ⟨hcontents.bStopped, hcontents.bResult⟩
        · exact hs.bResult
      rw [entry_going hturn]
      exact hrest _ (Running.wait hturn)

end Success

/-! ## The two passes -/

/-- The search finds a folder first, and not `.`: this is a root folder. -/
def Listing.startsWithFolder : Listing γ → Bool
  | .folder name _ _ => plain name
  | _ => false

def NoFileOnTop (l : Listing γ) : Prop := ∀ name c, l.Holds [name] c → plain name = false

theorem entry_stuck {turn next : Search γ → Search γ} {s : Search γ} (h : (turn s).bResult = false) :
    (entry e hTerminate true turn next s).returned = false := by
  have hwait : (wait e hTerminate (turn s)).returned = false := (congrArg (!_ && ·) h).trans (Bool.and_false _)
  show (if (wait e hTerminate (turn s)).returned then next (wait e hTerminate (turn s)) else wait e hTerminate (turn s)).returned = false
  rw [hwait, if_neg Bool.noConfusion, hwait]

/-- After a failure the second pass looks at its first entry only, when that is not a folder. -/
theorem copyLoop_stuck (hall : ∀ name, wild anyFile name = true) {l : Listing γ} (hl : l.startsWithFolder = false)
    (path : Path) {s : Search γ} (hs : s.bResult = false) :
    (copyLoop wild e hTerminate l bIncludeSubFolders szFileMask path 1 s).returned = false := by
  cases l with
  | nil => exact (congrArg (!_ && ·) hs).trans (Bool.and_false _)
  | file name content rest =>
    unfold copyLoop
    rw [passMask_second, hall]
    refine entry_stuck ?_
    have hturn : copyFileTurn e (path ++ [name]) name content 1 s = s := if_neg (by rw [Bool.and_eq_true]; exact fun h => Bool.noConfusion h.2)
    rw [hturn, hs]
  | folder name items rest =>
    unfold copyLoop
    rw [passMask_second, hall]
    refine entry_stuck ?_
    have hname : plain name = false := hl
    have hturn : ∀ contents : Disk γ → Search γ, copyFolderTurn bIncludeSubFolders szFileMask name contents 1 s = s :=
      fun _ => if_neg (by rw [hname, Bool.false_and]; exact Bool.noConfusion)
    rw [hturn, hs]

theorem entry_unstopped {found : Bool} {turn next : Search γ → Search γ} {s : Search γ}
    (hnext : ∀ s, s.bStopped = false → (next s).bStopped = false) (hs : s.bStopped = false) :
    (entry e false found turn next s).bStopped = false := by
  unfold entry
  split
  · simp only
    split
    · exact hnext _ rfl
    · rfl
  · exact hnext s hs

theorem entry_bResult {found : Bool} {turn next : Search γ → Search γ} {s : Search γ} (hturn : turn s = s)
    (hnext : ∀ s, s.bResult = true → (next s).bResult = true) (hs : s.bResult = true) :
    (entry e hTerminate found turn next s).bResult = true := by
  unfold entry
  rw [hturn]
  split
  · simp only
    split
    · exact hnext _ hs
    · exact hs
  · exact hnext s hs

/-- Without files to copy the first pass cannot fail. -/
theorem copyLoop_quiet (hmask : szFileMask ≠ []) (path : Path) :
    ∀ (l : Listing γ) (s : Search γ), NoFileOnTop l → s.bResult = true →
      (copyLoop wild e hTerminate l true szFileMask path 0 s).bResult = true
  | .nil, _, _, hs => hs
  | .file name content rest, s, hl, hs => by
    have hname : plain name = false := hl name content (Or.inl ⟨rfl, rfl⟩)
    have hturn : copyFileTurn e (path ++ [name]) name content 0 s = s :=
      if_neg (by rw [hname, Bool.false_and]; exact Bool.noConfusion)
    exact entry_bResult hturn (fun s hs => copyLoop_quiet hmask path rest s (fun name c h => hl name c (Or.inr h)) hs) hs
  | .folder name items rest, s, hl, hs => by
    refine entry_bResult (if_neg ?_) (fun s hs => copyLoop_quiet hmask path rest s (fun name c h => hl name c (Or.inr h)) hs) hs
    rw [nPasses_two hmask, Bool.and_eq_true]
    exact fun h => Bool.noConfusion h.2

theorem passes_two (loop : ℕ → Search γ → Search γ) (d : Disk γ) : passes e hTerminate 2 loop d =
    if (passes e hTerminate 1 loop d).bStopped then passes e hTerminate 1 loop d
    else loop 1 (passes e hTerminate 1 loop d) := rfl

theorem passes_two_returned {loop : ℕ → Search γ → Search γ} {d : Disk γ} (h : (passes e hTerminate 2 loop d).returned = true) :
    ∃ s, s.bResult = true ∧ (loop 0 s).bStopped = false ∧ passes e hTerminate 2 loop d = loop 1 (loop 0 s) := by
  rw [passes_two] at h ⊢
  split at h
  · next hstopped => exact absurd ((returned_iff.1 h).1.symm.trans hstopped) Bool.noConfusion
  · next hgoing =>
    rw [if_neg hgoing]
    rw [passes_one] at hgoing ⊢
    split at hgoing
    · next hstopped => exact absurd hstopped hgoing
    · next hstart =>
      rw [if_neg hstart]
      exact ⟨_, rfl, Bool.eq_false_iff.2 hgoing, rfl⟩

theorem nPasses_one (h : ¬ (bIncludeSubFolders = true ∧ szFileMask ≠ [])) : nPasses bIncludeSubFolders szFileMask = 1 := by
  refine if_neg fun htwo => h ?_
  rw [Bool.and_eq_true, Bool.not_eq_true', List.isEmpty_eq_false_iff] at htwo
  exact htwo

theorem copyFolder_inv {P : Disk γ → Prop} (hP : Uncounted P) {l : Listing γ} {d : Disk γ}
    (hcopy : ∀ k < nPasses bIncludeSubFolders szFileMask, ∀ q c d n, l.Holds q c →
      Taken wild bIncludeSubFolders szFileMask k q → e.succeeds n (.copyFile q) = true → P d → P (d.copy q c)) (hd : P d) :
    P (copyFolder wild e hTerminate bIncludeSubFolders szFileMask l d).2 :=
  createThen_inv hP (fun _ hd => passes_inv hP (fun k hk s hs =>
    copyLoop_inv hP l bIncludeSubFolders szFileMask [] k s (hcopy k hk) hs) hd) hd

theorem copyFolder_complete (hall : ∀ name, wild anyFile name = true) {l : Listing γ} {d : Disk γ}
    (hl : bIncludeSubFolders = true → szFileMask ≠ [] → l.startsWithFolder = true → NoFileOnTop l)
    (h : (copyFolder wild e hTerminate bIncludeSubFolders szFileMask l d).1 = true) {q : Path} {c : γ} (hq : l.Holds q c)
    {k : ℕ} (hk : k < nPasses bIncludeSubFolders szFileMask) (htaken : Taken wild bIncludeSubFolders szFileMask k q) :
    Copied l.Holds q (copyFolder wild e hTerminate bIncludeSubFolders szFileMask l d).2 := by
  obtain ⟨d', hthen, hpasses⟩ := createThen_returned h
  show Copied l.Holds q (createThen _ _ _ _).disk
  rw [hthen]
  have hH : ∀ q c, l.Holds q c → l.Holds ([] ++ q) c := fun _ _ hq => hq
  by_cases htwo : bIncludeSubFolders = true ∧ szFileMask ≠ []
  · obtain ⟨rfl, hmask⟩ := htwo
    rw [nPasses_two hmask] at hpasses hk ⊢
    obtain ⟨s, hs, hgoing, heq⟩ := passes_two_returned hpasses
    rw [heq] at hpasses ⊢
    have hfirst : (copyLoop wild e hTerminate l true szFileMask [] 0 s).bResult = true := by
      cases hstart : l.startsWithFolder with
      | true => exact copyLoop_quiet hmask [] l s (hl rfl hmask hstart) hs
      | false =>
        by_contra hfailed
        exact absurd ((copyLoop_stuck hall hstart [] (Bool.eq_false_iff.2 hfailed)).symm.trans hpasses) Bool.noConfusion
    rcases (by omega : k = 0 ∨ k = 1) with rfl | rfl
    · exact copyLoop_keeps hH (copyLoop_complete hall l true szFileMask [] 0 s hH (returned_iff.2 ⟨hgoing, hfirst⟩) q c hq htaken)
    · exact copyLoop_complete hall l true szFileMask [] 1 _ hH hpasses q c hq htaken
  · have hone := nPasses_one htwo
    rw [hone] at hpasses hk ⊢
    obtain ⟨s, heq, hreturned⟩ := passes_one_returned hpasses
    have hzero : k = 0 := by omega
    rw [heq]
    rw [hzero] at htaken
    exact copyLoop_complete hall l bIncludeSubFolders szFileMask [] 0 s hH hreturned q c hq htaken

/-! ## Nothing is lost -/

/-- The names of the entries. -/
def Listing.names : Listing γ → List CString
  | .nil => []
  | .file name _ rest => name :: rest.names
  | .folder name _ rest => name :: rest.names

/-- No two entries of a folder have the same name. -/
def Listing.Distinct : Listing γ → Prop
  | .nil => True
  | .file name _ rest => name ∉ rest.names ∧ rest.Distinct
  | .folder name items rest => name ∉ rest.names ∧ items.Distinct ∧ rest.Distinct

theorem Listing.Holds.mem_names {l : Listing γ} {name : CString} {q : Path} {c : γ} (h : l.Holds (name :: q) c) : name ∈ l.names := by
  induction l with
  | nil => exact h.elim
  | file other content rest ih =>
    rcases h with ⟨h, _⟩ | h
    · rw [(List.cons_eq_cons.1 h).1]
      exact List.mem_cons_self
    · exact List.mem_cons_of_mem _ (ih h)
  | folder other items rest _ ih =>
    rcases h with ⟨q', h, _⟩ | h
    · rw [(List.cons_eq_cons.1 h).1]
      exact List.mem_cons_self
    · exact List.mem_cons_of_mem _ (ih h)

theorem Listing.Distinct.content {l : Listing γ} (hl : l.Distinct) {q : Path} {c c' : γ} (h : l.Holds q c) (h' : l.Holds q c') :
    c = c' := by
  induction l generalizing q with
  | nil => exact h.elim
  | file name content rest ih =>
    rcases h with ⟨rfl, rfl⟩ | h
    · rcases h' with ⟨_, rfl⟩ | h'
      · rfl
      · exact absurd h'.mem_names hl.1
    · rcases h' with ⟨rfl, _⟩ | h'
      · exact absurd h.mem_names hl.1
      · exact ih hl.2 h h'
  | folder name items rest ihitems ih =>
    rcases h with ⟨q, rfl, h⟩ | h
    · rcases h' with ⟨q', heq, h'⟩ | h'
      · rw [← (List.cons_eq_cons.1 heq).2] at h'
        exact ihitems hl.2.1 h h'
      · exact absurd h'.mem_names hl.1
    · rcases h' with ⟨q, rfl, _⟩ | h'
      · exact absurd h.mem_names hl.1
      · exact ih hl.2.2 h h'

/-- The files that a mask selects: at every depth, or on top without sub-folders. -/
def Selected (wild : CString → CString → Bool) (bIncludeSubFolders : Bool) (szFileMask : CString) (l : Listing γ) (q : Path) : Prop :=
  (∃ c, l.Holds q c) ∧ (bIncludeSubFolders = true ∨ q.length = 1) ∧ wild szFileMask (fileName q) = true

/-- Whatever fails and whatever the destination held: what is deleted is there with its content, and with a mask
exactly the files that it selects are copied. -/
def MovesSafely (wild : CString → CString → Bool) (bIncludeSubFolders : Bool) (szFileMask : CString) (l : Listing γ) : Prop :=
  ∀ (e : Env) (hTerminate : Bool) (dest : Path → Option γ),
    let r := moveFolder wild e hTerminate bIncludeSubFolders szFileMask l (intact dest)
    (∀ q c, l.Holds q c → r.2.deletedFiles q = true → r.2.dest q = some c) ∧
    (szFileMask ≠ [] → (∀ q, r.2.dest q ≠ dest q → Selected wild bIncludeSubFolders szFileMask l q) ∧
      (r.1 = true → ∀ q c, l.Holds q c → Selected wild bIncludeSubFolders szFileMask l q → r.2.dest q = some c))

/-- What a folder must be like for its files to be safe where a mask is given. -/
structure Movable (wild : CString → CString → Bool) (bIncludeSubFolders : Bool) (szFileMask : CString) (l : Listing γ) : Prop where
  reached : ∀ q, Selected wild bIncludeSubFolders szFileMask l q → Plain q
  matching : bIncludeSubFolders = true → ∀ q c, l.Holds q c → Plain q → wild szFileMask (fileName q) = true
  top : bIncludeSubFolders = true → l.startsWithFolder = true → NoFileOnTop l

/-! ### Where it is true -/

theorem moveFolder_copied {l : Listing γ} {d : Disk γ} (h : (copyFolder wild e hTerminate bIncludeSubFolders szFileMask l d).1 = true) :
    moveFolder wild e hTerminate bIncludeSubFolders szFileMask l d = (true, (deleteFolderContents wild e false bIncludeSubFolders
      szFileMask l (copyFolder wild e hTerminate bIncludeSubFolders szFileMask l d).2).2) :=
  if_pos h

theorem moveFolder_failed {l : Listing γ} {d : Disk γ} (h : ¬ (copyFolder wild e hTerminate bIncludeSubFolders szFileMask l d).1 = true) :
    moveFolder wild e hTerminate bIncludeSubFolders szFileMask l d =
      (false, (copyFolder wild e hTerminate bIncludeSubFolders szFileMask l d).2) :=
  if_neg h

theorem deleteFolderContents_dest {l : Listing γ} (d : Disk γ) :
    (deleteFolderContents wild e hTerminate bIncludeSubFolders szFileMask l d).2.dest = d.dest :=
  deleteFolderContents_inv (P := fun d' => d'.dest = d.dest) (fun _ _ _ h => h) (fun _ _ _ h => h) (fun _ _ _ _ _ h => h) rfl

theorem moveFolder_dest {l : Listing γ} {d : Disk γ} : (moveFolder wild e hTerminate bIncludeSubFolders szFileMask l d).2.dest =
    (copyFolder wild e hTerminate bIncludeSubFolders szFileMask l d).2.dest := by
  by_cases h : (copyFolder wild e hTerminate bIncludeSubFolders szFileMask l d).1 = true
  · rw [moveFolder_copied h]
    exact deleteFolderContents_dest _
  · rw [moveFolder_failed h]

theorem deleteFolderContents_deletable {l : Listing γ} {d : Disk γ} {q : Path} (hd : d.deletedFiles q = false)
    (h : (deleteFolderContents wild e hTerminate bIncludeSubFolders szFileMask l d).2.deletedFiles q = true) :
    Deletable wild bIncludeSubFolders szFileMask q := by
  refine deleteFolderContents_inv (P := fun d' => d'.deletedFiles q = true → Deletable wild bIncludeSubFolders szFileMask q)
    (fun _ _ _ h => h) (fun _ _ _ h => h) (fun q' c d' _ hdeletable hd' hdeleted => ?_)
    (fun hdeleted => absurd (hd.symm.trans hdeleted) Bool.noConfusion) h
  by_cases hqq' : q = q'
  · rw [hqq']
    exact hdeletable
  · refine hd' ?_
    rwa [← Function.update_of_ne hqq' true d'.deletedFiles]

theorem nPasses_pos : 0 < nPasses bIncludeSubFolders szFileMask := by
  unfold nPasses
  split <;> decide

/-- What is deleted is copied. -/
theorem Deletable.taken (hall : ∀ name, wild anyFile name = true) {l : Listing γ}
    (hmovable : szFileMask = [] ∨ Movable wild bIncludeSubFolders szFileMask l) {q : Path} {c : γ} (hq : l.Holds q c)
    (h : Deletable wild bIncludeSubFolders szFileMask q) :
    ∃ k < nPasses bIncludeSubFolders szFileMask, Taken wild bIncludeSubFolders szFileMask k q := by
  cases bIncludeSubFolders with
  | false =>
    obtain ⟨name, rfl, hwild⟩ := h.2 rfl
    exact ⟨0, nPasses_pos, h.1 name (List.mem_singleton_self name), hwild, rfl⟩
  | true =>
    by_cases hmask : szFileMask = []
    · rw [hmask]
      exact ⟨0, nPasses_pos, h.1.taken hall hq⟩
    · have hmatch := (hmovable.resolve_left hmask).matching rfl q c hq h.1
      rw [nPasses_two hmask]
      match q, h.1, hmatch with
      | [], _, _ => exact hq.ne_nil.elim
      | [name], hplain, hmatch =>
        refine ⟨0, Nat.two_pos, hplain name (List.mem_singleton_self name), ?_, rfl⟩
        rwa [passMask_first hmask]
      | name :: next :: q, hplain, _ =>
        refine ⟨1, Nat.one_lt_two, hplain name List.mem_cons_self, fun other hother => hplain other (List.mem_cons_of_mem name hother),
          ?_, Or.inl rfl, rfl⟩
        rw [passMask_second, hall]

/-- What is copied is selected. -/
theorem Taken.selected (hmask : szFileMask ≠ []) {l : Listing γ} (hmovable : Movable wild bIncludeSubFolders szFileMask l)
    {q : Path} {c : γ} (hq : l.Holds q c) {k : ℕ} (h : Taken wild bIncludeSubFolders szFileMask k q) :
    Selected wild bIncludeSubFolders szFileMask l q := by
  cases bIncludeSubFolders with
  | true => exact ⟨⟨c, hq⟩, Or.inl rfl, hmovable.matching rfl q c hq h.plain⟩
  | false =>
    match q, h with
    | [name], h =>
      obtain ⟨_, hwild, rfl⟩ := h
      rw [passMask_first hmask] at hwild
      exact ⟨⟨c, hq⟩, Or.inr rfl, hwild⟩
    | name :: next :: q, h => exact absurd h.2.2.2.2 Bool.noConfusion

theorem Selected.deletable (hmask : szFileMask ≠ []) {l : Listing γ} (hmovable : Movable wild bIncludeSubFolders szFileMask l)
    {q : Path} (h : Selected wild bIncludeSubFolders szFileMask l q) : Deletable wild bIncludeSubFolders szFileMask q := by
  refine ⟨hmovable.reached q h, fun hsub => ?_⟩
  have hlength : q.length = 1 := h.2.1.resolve_left (by rw [hsub]; exact Bool.noConfusion)
  obtain ⟨name, rfl⟩ := List.length_eq_one_iff.1 hlength
  exact ⟨name, rfl, by rw [passMask_first hmask]; exact h.2.2⟩

theorem movesSafely_of (hall : ∀ name, wild anyFile name = true) {l : Listing γ} (hl : l.Distinct)
    (h : szFileMask = [] ∨ Movable wild bIncludeSubFolders szFileMask l) : MovesSafely wild bIncludeSubFolders szFileMask l := by
  intro e hTerminate dest
  have hcomplete : (copyFolder wild e hTerminate bIncludeSubFolders szFileMask l (intact dest)).1 = true →
      ∀ q c, l.Holds q c → Deletable wild bIncludeSubFolders szFileMask q →
        (copyFolder wild e hTerminate bIncludeSubFolders szFileMask l (intact dest)).2.dest q = some c := by
    intro hreturned q c hq hdeletable
    obtain ⟨k, hk, htaken⟩ := hdeletable.taken hall h hq
    obtain ⟨c', hc', hdest⟩ := copyFolder_complete hall (fun hsub hmask => (h.resolve_left hmask).top hsub) hreturned hq hk htaken
    rw [hdest, hl.content hc' hq]
  have hkept : ∀ q, (copyFolder wild e hTerminate bIncludeSubFolders szFileMask l
      (intact dest)).2.deletedFiles q = false := fun q =>
    copyFolder_inv (P := fun d => d.deletedFiles q = false) (fun _ _ _ h => h) (fun _ _ _ _ _ _ _ _ _ h => h) rfl
  simp only [moveFolder_dest]
  refine ⟨fun q c hq hdeleted => ?_, fun hmask => ⟨fun q => ?_, fun hreturned q c hq hselected => ?_⟩⟩
  · by_cases hreturned : (copyFolder wild e hTerminate bIncludeSubFolders szFileMask l (intact dest)).1 = true
    · rw [moveFolder_copied hreturned] at hdeleted
      exact hcomplete hreturned q c hq (deleteFolderContents_deletable (hkept q) hdeleted)
    · rw [moveFolder_failed hreturned] at hdeleted
      exact absurd ((hkept q).symm.trans hdeleted) Bool.noConfusion
  · refine copyFolder_inv (P := fun d => d.dest q ≠ dest q → Selected wild bIncludeSubFolders szFileMask l q) (fun _ _ _ h => h)
      (fun k _ q' c d _ hq' htaken _ hd hdest => ?_) (fun h => absurd rfl h)
    by_cases hqq' : q = q'
    · rw [hqq']
      exact htaken.selected hmask (h.resolve_left hmask) hq'
    · refine hd ?_
      rwa [← Function.update_of_ne hqq' (some c) d.dest]
  · by_cases hcopied : (copyFolder wild e hTerminate bIncludeSubFolders szFileMask l (intact dest)).1 = true
    · exact hcomplete hcopied q c hq (hselected.deletable hmask (h.resolve_left hmask))
    · rw [moveFolder_failed hcopied] at hreturned
      exact absurd hreturned Bool.noConfusion

/-! ### Where it is not -/

/-- One file cannot be copied. -/
def refusing (p : Path) : Env := ⟨fun _ op => decide (op ≠ .copyFile p), fun _ => false⟩

/-- A failure of the first pass is forgotten when a folder comes first in the second one. -/
theorem copyLoop_forgets (hall : ∀ name, wild anyFile name = true) {l : Listing γ} (hl : l.startsWithFolder = true) (path : Path)
    (s : Search γ) : copyLoop wild e hTerminate l true szFileMask path 1 s =
      copyLoop wild e hTerminate l true szFileMask path 1 { s with bResult := true } := by
  cases l with
  | nil => exact absurd hl Bool.noConfusion
  | file name content rest => exact absurd hl Bool.noConfusion
  | folder name items rest =>
    unfold copyLoop entry
    rw [passMask_second, hall, copyFolderTurn_eq hl (Or.inl rfl) rfl, copyFolderTurn_eq hl (Or.inl rfl) rfl,
      if_pos rfl, if_pos rfl]

theorem copyLoop_unstopped : ∀ (l : Listing γ) (path : Path) (nPass : ℕ) (s : Search γ), s.bStopped = false →
    (copyLoop wild e false l bIncludeSubFolders szFileMask path nPass s).bStopped = false
  | .nil, _, _, _, hs => hs
  | .file _ _ rest, path, nPass, _, hs => entry_unstopped (copyLoop_unstopped rest path nPass) hs
  | .folder _ _ rest, path, nPass, _, hs => entry_unstopped (copyLoop_unstopped rest path nPass) hs

/-- A run in which only one file on top cannot be copied, in a folder where a sub-folder comes first. -/
theorem copyFolder_forgets (hall : ∀ name, wild anyFile name = true) (hmask : szFileMask ≠ []) {l : Listing γ}
    (hl : l.startsWithFolder = true) (name : CString) (d : Disk γ) :
    (copyFolder wild (refusing [name]) false true szFileMask l d).1 = true := by
  have hrun : ∀ d, Running (passes (refusing [name]) false (nPasses true szFileMask)
      (copyLoop wild (refusing [name]) false l true szFileMask []) d) := by
    intro d
    rw [nPasses_two hmask]
    refine (passes_run (fun k s => s.bStopped = false ∧ (k = 2 → Running s)) ⟨rfl, fun h => absurd h (by decide)⟩
      (fun k s hstop hs => absurd (hs.1.symm.trans hstop) Bool.noConfusion) (fun k hk s _ hs => ?_)).2 rfl
    refine ⟨copyLoop_unstopped l [] k s hs.1, fun hlast => ?_⟩
    have hone : k = 1 := by omega
    rw [hone, copyLoop_forgets hall hl]
    refine copyLoop_running (fun _ _ => rfl) l true szFileMask [] 1 _ (fun q c n _ htaken => decide_eq_true ?_) ⟨rfl, hs.1⟩
    intro heq
    rw [List.nil_append, Op.copyFile.injEq] at heq
    rw [heq] at htaken
    exact absurd htaken.2.2 Nat.one_ne_zero
  have hall := createThen_running (e := refusing [name]) (p := []) (fun _ _ => rfl) hrun d
  exact returned_iff.2 ⟨hall.bStopped, hall.bResult⟩

theorem copyFolder_yielding {l : Listing γ} {d : Disk γ} :
    (copyFolder wild yielding false bIncludeSubFolders szFileMask l d).1 = true := by
  have hrun : ∀ d, Running (passes yielding false (nPasses bIncludeSubFolders szFileMask)
      (copyLoop wild yielding false l bIncludeSubFolders szFileMask []) d) :=
    passes_running fun k _ s hs => copyLoop_running (fun _ _ => rfl) l _ _ [] k s (fun _ _ _ _ _ => rfl) hs
  have hall := createThen_running (e := yielding) (p := []) (fun _ _ => rfl) hrun d
  exact returned_iff.2 ⟨hall.bStopped, hall.bResult⟩

theorem moveFolder_deletes (hall : ∀ name, wild anyFile name = true) (hmask : szFileMask ≠ [])
    (hsucceeds : ∀ n p, e.succeeds n (.deleteFile p) = true) {l : Listing γ}
    (h : (copyFolder wild e hTerminate true szFileMask l (intact fun _ => none)).1 = true) {q : Path} {c : γ} (hq : l.Holds q c)
    (hplain : Plain q) : (moveFolder wild e hTerminate true szFileMask l (intact fun _ => none)).2.deletedFiles q = true := by
  have hfolders : ∀ p, (copyFolder wild e hTerminate true szFileMask l (intact fun _ => none)).2.removedFolders p = false := fun p =>
    copyFolder_inv (uncounted_removedFolders p) (fun _ _ _ _ _ _ _ _ _ h => h) rfl
  have hrun := passes_succeed (e := e) (AllDeleted l [])
    (fun k s hs => deleteLoop_succeeds hall hmask hsucceeds l [] k s hs) hfolders
  rw [← nPasses_two hmask] at hrun
  rw [moveFolder_copied h]
  exact hrun.2 q c hq hplain

/-- What no pass copies is not in an empty destination. -/
theorem copyFolder_none {l : Listing γ} {q : Path}
    (h : ∀ k n, Taken wild bIncludeSubFolders szFileMask k q → ¬ e.succeeds n (.copyFile q) = true) :
    (copyFolder wild e hTerminate bIncludeSubFolders szFileMask l (intact fun _ => none)).2.dest q = none := by
  refine copyFolder_inv (P := fun d => d.dest q = none) (fun _ _ _ h => h) (fun k _ q' c d n _ htaken hok hd => ?_) rfl
  by_cases hqq' : q = q'
  · rw [← hqq'] at htaken hok
    exact absurd hok (h k n htaken)
  · exact (Function.update_of_ne hqq' ..).trans hd

theorem MovesSafely.movable (hall : ∀ name, wild anyFile name = true) {l : Listing γ} (hmask : szFileMask ≠ [])
    (h : MovesSafely wild bIncludeSubFolders szFileMask l) : Movable wild bIncludeSubFolders szFileMask l := by
  have hlost : ∀ e, (∀ n p, e.succeeds n (.deleteFile p) = true) → bIncludeSubFolders = true → ∀ q c, l.Holds q c → Plain q →
      (copyFolder wild e false bIncludeSubFolders szFileMask l (intact fun _ => none)).1 = true →
      ∃ k n, Taken wild bIncludeSubFolders szFileMask k q ∧ e.succeeds n (.copyFile q) = true := by
    rintro e hsucceeds rfl q c hq hplain hreturned
    by_contra hnone
    have hdest := (h e false fun _ => none).1 q c hq (moveFolder_deletes hall hmask hsucceeds hreturned hq hplain)
    rw [moveFolder_dest, copyFolder_none fun k n htaken hok => hnone ⟨k, n, htaken, hok⟩] at hdest
    exact absurd hdest.symm (Option.some_ne_none c)
  have htop : bIncludeSubFolders = true → l.startsWithFolder = true → NoFileOnTop l := by
    rintro rfl hl name c hq
    by_contra hname
    obtain ⟨_, _, _, hok⟩ := hlost (refusing [name]) (fun _ _ => rfl) rfl [name] c hq (Plain.single (Bool.not_eq_false _ ▸ hname))
      (copyFolder_forgets hall hmask hl name _)
    exact absurd rfl (of_decide_eq_true hok)
  refine ⟨fun q hselected => ?_, fun hsub q c hq hplain => ?_, htop⟩
  · by_contra hdotted
    obtain ⟨c, hq⟩ := hselected.1
    have hdest := ((h yielding false fun _ => none).2 hmask).2 (by rw [moveFolder_copied copyFolder_yielding]) q c hq hselected
    rw [moveFolder_dest, copyFolder_none fun k n htaken _ => hdotted htaken.plain] at hdest
    exact absurd hdest.symm (Option.some_ne_none c)
  · match q, hq, hplain with
    | [], hq, _ => exact hq.ne_nil.elim
    | [name], hq, hplain =>
      obtain ⟨k, _, ⟨_, hwild, hk⟩, _⟩ := hlost yielding (fun _ _ => rfl) hsub [name] c hq hplain copyFolder_yielding
      rwa [hk, passMask_first hmask] at hwild
    | name :: next :: q, hq, hplain =>
      subst hsub
      have htaken : Taken wild true szFileMask 1 (name :: next :: q) :=
        ⟨hplain name List.mem_cons_self, fun other hother => hplain other (List.mem_cons_of_mem name hother),
          by rw [passMask_second, hall], Or.inl rfl, rfl⟩
      obtain ⟨c', _, hdest⟩ := copyFolder_complete (d := intact fun _ => none) hall (fun hsub _ => htop hsub) copyFolder_yielding hq
        (by rw [nPasses_two hmask]; decide) htaken
      refine (((h yielding false fun _ => none).2 hmask).1 (name :: next :: q) ?_).2.2
      rw [moveFolder_dest, hdest]
      exact Option.some_ne_none c'

theorem movesSafely_iff (hall : ∀ name, wild anyFile name = true) {l : Listing γ} (hl : l.Distinct) :
    MovesSafely wild bIncludeSubFolders szFileMask l ↔ szFileMask = [] ∨ Movable wild bIncludeSubFolders szFileMask l := by
  constructor
  · intro h
    by_cases hmask : szFileMask = []
    · exact Or.inl hmask
    · exact Or.inr (h.movable hall hmask)
  · exact movesSafely_of hall hl

/-- The files `a` and `b`, and a folder `d` with a file `b`. -/
def twoFiles : Listing ℕ :=
  .folder [0x2e] .nil (.folder [0x2e, 0x2e] .nil
    (.file [0x61] 1 (.file [0x62] 2 (.folder [0x64] (.folder [0x2e] .nil (.folder [0x2e, 0x2e] .nil (.file [0x62] 3 .nil))) .nil))))

theorem twoFiles_distinct : twoFiles.Distinct := by
  unfold twoFiles
  simp only [Listing.Distinct, Listing.names]
  decide

theorem movesSafely_sample : MovesSafely literal true [] twoFiles := (movesSafely_iff literal_all twoFiles_distinct).2 (Or.inl rfl)

/-- With the mask `a`: the file `b` is deleted and was not copied, and the one in the folder is copied. -/
theorem unmatched_lost : ¬ MovesSafely literal true [0x61] twoFiles := by
  intro h
  have hlost := (h yielding false fun _ => none).1 [[0x62]] 2 (Or.inr (Or.inr (Or.inr (Or.inl ⟨rfl, rfl⟩)))) (by decide)
  revert hlost
  decide

end StarLib.FileMisc
