import StarLib.FileMisc.Move

/-! # What `DeleteFolderContents` reports

A failed call for a sub-folder does not change `bResult`, and names that start with a dot are passed over. What
`TRUE` says is that the files of the folder itself without a dot are gone.
-/

namespace StarLib.FileMisc
open Foundations
set_option autoImplicit false
set_option maxHeartbeats 250000
set_option maxRecDepth 120000

variable {γ : Type} {wild : CString → CString → Bool} {e : Env} {hTerminate bIncludeSubFolders : Bool} {szFileMask : CString}

/-- The files that the flags and the mask select; no mask selects what `*.*` does. -/
def Chosen (wild : CString → CString → Bool) (bIncludeSubFolders : Bool) (szFileMask : CString) (l : Listing γ) (q : Path) : Prop :=
  (∃ c, l.Holds q c) ∧ (bIncludeSubFolders = true ∨ q.length = 1) ∧ wild (passMask szFileMask 0) (fileName q) = true

/-- Whatever fails and whenever the run is stopped: after `TRUE` no selected file remains. -/
def ReportsRemaining (wild : CString → CString → Bool) (bIncludeSubFolders : Bool) (szFileMask : CString) (l : Listing γ) : Prop :=
  ∀ (e : Env) (hTerminate : Bool) (d : Disk γ),
    let r := deleteFolderContents wild e hTerminate bIncludeSubFolders szFileMask l d
    r.1 = true → ∀ q, Chosen wild bIncludeSubFolders szFileMask l q → r.2.deletedFiles q = true

/-! ## The files of the folder itself -/

theorem deleteFileTurn_deletes {p : Path} {name : CString} {s : Search γ} (hname : plain name = true)
    (h : (wait e hTerminate (deleteFileTurn e p name s)).returned = true) :
    (wait e hTerminate (deleteFileTurn e p name s)).disk.deletedFiles p = true := by
  have hturn : deleteFileTurn e p name s = call e (.deleteFile p) (Disk.delete p) s := if_pos hname
  rw [hturn] at h ⊢
  unfold call at h ⊢
  by_cases hok : e.succeeds s.disk.calls (.deleteFile p) = true
  · rw [if_pos hok]
    exact Function.update_self ..
  · rw [if_neg hok] at h
    exact absurd (returned_iff.1 h).2 Bool.noConfusion

/-- A pass that ends with `TRUE` has deleted every file of the folder that it looked for. -/
theorem deleteLoop_complete {nPass : ℕ} (hpass : bIncludeSubFolders = false → nPass = 0) (path : Path) :
    ∀ (l : Listing γ) (s : Search γ),
      (deleteLoop wild e hTerminate bIncludeSubFolders szFileMask l path nPass s).returned = true →
      ∀ name c, l.Holds [name] c → plain name = true → wild (passMask szFileMask nPass) name = true →
        (deleteLoop wild e hTerminate bIncludeSubFolders szFileMask l path nPass s).disk.deletedFiles (path ++ [name]) = true
  | .nil, _, _, _, _, hq, _, _ => hq.elim
  | .file other content rest, s, h, name, c, hq, hname, hmatch => by
    have hrest := fun s h => deleteLoop_complete hpass path rest s h name c
    unfold deleteLoop at h ⊢
    rcases entry_returned h with ⟨hfound, h⟩ | ⟨hfound, hwait, h, hentry⟩
    · rw [hfound]
      rcases hq with ⟨heq, _⟩ | hq
      · obtain rfl := (List.cons_eq_cons.1 heq).1
        refine deleteLoop_keepsDeleted rest path hpass ?_
        rwa [hmatch, Bool.true_and, Bool.not_eq_false'] at hfound
      · exact hrest s h hq hname hmatch
    · rw [hentry]
      rcases hq with ⟨heq, _⟩ | hq
      · obtain rfl := (List.cons_eq_cons.1 heq).1
        exact deleteLoop_keepsDeleted rest path hpass (deleteFileTurn_deletes hname hwait)
      · exact hrest _ h hq hname hmatch
  | .folder other items rest, s, h, name, c, hq, hname, hmatch => by
    have hrest := fun s h => deleteLoop_complete hpass path rest s h name c
    have hq' : rest.Holds [name] c := by
      rcases hq with ⟨q, heq, hq⟩ | hq
      · obtain rfl := (List.cons_eq_cons.1 heq).2
        exact hq.ne_nil.elim
      · exact hq
    unfold deleteLoop at h ⊢
    rcases entry_returned h with ⟨hfound, h⟩ | ⟨_, _, h, hentry⟩
    · rw [hfound]
      exact hrest s h hq' hname hmatch
    · rw [hentry]
      exact hrest _ h hq' hname hmatch

theorem passes_last {n : ℕ} (hn : n = 1 ∨ n = 2) {loop : ℕ → Search γ → Search γ} {d : Disk γ}
    (h : (passes e hTerminate n loop d).returned = true) :
    ∃ s, passes e hTerminate n loop d = loop (n - 1) s ∧ (loop (n - 1) s).returned = true := by
  rcases hn with rfl | rfl
  · exact passes_one_returned h
  · obtain ⟨s, _, _, heq⟩ := passes_two_returned h
    exact ⟨_, heq, heq ▸ h⟩

variable (bIncludeSubFolders szFileMask) in
theorem nPasses_cases : nPasses bIncludeSubFolders szFileMask = 1 ∨ bIncludeSubFolders = true ∧ nPasses bIncludeSubFolders szFileMask = 2 := by
  cases bIncludeSubFolders with
  | false => exact Or.inl rfl
  | true =>
    by_cases hmask : szFileMask = []
    · rw [hmask]
      exact Or.inl rfl
    · exact Or.inr ⟨rfl, nPasses_two hmask⟩

theorem deleteFolderContents_complete (hall : ∀ name, wild anyFile name = true) {l : Listing γ} {d : Disk γ}
    (h : (deleteFolderContents wild e hTerminate bIncludeSubFolders szFileMask l d).1 = true) {name : CString} {c : γ}
    (hq : l.Holds [name] c) (hname : plain name = true) (hmatch : wild (passMask szFileMask 0) name = true) :
    (deleteFolderContents wild e hTerminate bIncludeSubFolders szFileMask l d).2.deletedFiles [name] = true := by
  obtain ⟨s, heq, hlast⟩ := passes_last ((nPasses_cases bIncludeSubFolders szFileMask).imp id And.right) h
  show (passes ..).disk.deletedFiles [name] = true
  rw [heq]
  refine deleteLoop_complete (fun hsub => ?_) [] l s hlast name c hq hname ?_
  · rcases nPasses_cases bIncludeSubFolders szFileMask with hone | ⟨htrue, _⟩
    · rw [hone]
    · exact absurd (htrue.symm.trans hsub) Bool.noConfusion
  · rcases nPasses_cases bIncludeSubFolders szFileMask with hone | ⟨_, htwo⟩
    · rw [hone]
      exact hmatch
    · rw [htwo, passMask_second]
      exact hall name

/-! ## A run with interrupted sub-folders -/

/-- The looks at `hTerminate` before the first `n` are answered the same. -/
structure Agrees (n : ℕ) (e e' : Env) : Prop where
  succeeds : e'.succeeds = e.succeeds
  signalled : ∀ k < n, e'.signalled k = e.signalled k

theorem Agrees.refl (n : ℕ) (e : Env) : Agrees n e e := ⟨rfl, fun _ _ => rfl⟩

theorem Agrees.trans {n m : ℕ} {e e' e'' : Env} (h : Agrees n e e') (hle : n ≤ m) (h' : Agrees m e' e'') : Agrees n e e'' :=
  ⟨h'.succeeds.trans h.succeeds, fun k hk => (h'.signalled k (hk.trans_le hle)).trans (h.signalled k hk)⟩

/-- The look number `n` is answered with `b`. -/
def Env.answer (e : Env) (n : ℕ) (b : Bool) : Env := { e with signalled := Function.update e.signalled n b }

theorem answer_agrees {m n : ℕ} (hmn : m ≤ n) (e : Env) (b : Bool) : Agrees m e (e.answer n b) :=
  ⟨rfl, fun _ hk => Function.update_of_ne (hk.trans_le hmn).ne ..⟩

theorem answer_self (e : Env) (n : ℕ) (b : Bool) : (e.answer n b).signalled n = b := Function.update_self ..

theorem passes_stopped {n : ℕ} {loop : ℕ → Search γ → Search γ} {d : Disk γ} (h : e.signalled d.waits = true) :
    passes e true n loop d = ⟨true, true, { d with waits := d.waits + 1 }⟩ := by
  have hstart : wait e true ⟨true, false, d⟩ = ⟨true, true, { d with waits := d.waits + 1 }⟩ := by
    show Search.mk true (true && e.signalled d.waits) _ = _
    rw [h, Bool.and_true]
  refine passes_run (fun _ s => s = ⟨true, true, { d with waits := d.waits + 1 }⟩) hstart (fun _ _ _ h => h) fun _ _ s hgoing hs => ?_
  rw [hs] at hgoing
  exact Bool.noConfusion hgoing

/-- A file that a run has deleted was deleted before or is a file of the folder itself without a dot. -/
def OnTop (path : Path) (d d' : Disk γ) : Prop :=
  ∀ p, d'.deletedFiles p = true → d.deletedFiles p = true ∨ ∃ name, p = path ++ [name] ∧ plain name = true

theorem OnTop.trans {path : Path} {d d' d'' : Disk γ} (h : OnTop path d d') (h' : OnTop path d' d'') : OnTop path d d'' := by
  intro p hp
  rcases h' p hp with hp | hp
  · exact h p hp
  · exact Or.inr hp

/-- What a turn needs of the environment: some answers to its looks, and then the search goes on. -/
def Passable (e : Env) (path : Path) (turn : Env → Search γ → Search γ) (s : Search γ) : Prop :=
  ∃ e₁ t, Agrees s.disk.waits e e₁ ∧ s.disk.waits ≤ t.disk.waits ∧ t.returned = true ∧ OnTop path s.disk t.disk ∧
    ∀ e', Agrees t.disk.waits e₁ e' → wait e' true (turn e' s) = t

theorem Passable.of {path : Path} {turn : Env → Search γ → Search γ} {s t : Search γ} {e₀ : Env} (he₀ : Agrees s.disk.waits e e₀)
    (hle : s.disk.waits ≤ t.disk.waits) (ht : t.bResult = true) (htop : OnTop path s.disk t.disk)
    (hturn : ∀ e', Agrees t.disk.waits e₀ e' → turn e' s = t) : Passable e path turn s := by
  refine ⟨e₀.answer t.disk.waits false, ⟨true, false, { t.disk with waits := t.disk.waits + 1 }⟩,
    he₀.trans hle (answer_agrees (Nat.le_refl _) e₀ false), hle.trans (Nat.le_succ _), rfl, htop, fun e' he' => ?_⟩
  have hlook : e'.signalled t.disk.waits = false :=
    (he'.signalled _ (Nat.lt_succ_self _)).trans (answer_self e₀ t.disk.waits false)
  have hsame : Agrees t.disk.waits e₀ e' := (answer_agrees (Nat.le_refl _) e₀ false).trans (Nat.le_succ _) he'
  rw [hturn e' hsame]
  unfold wait
  rw [hlook, ht, Bool.and_false]

theorem Passable.idle {path : Path} {turn : Env → Search γ → Search γ} {s : Search γ} (hs : s.returned = true)
    (hturn : ∀ e', turn e' s = s) : Passable e path turn s :=
  Passable.of (Agrees.refl _ e) (Nat.le_refl _) (returned_iff.1 hs).2 (fun _ hp => Or.inl hp) fun e' _ => hturn e'

theorem deleteFileTurn_passable {path : Path} {name : CString} {s : Search γ} (hs : s.returned = true)
    (he : ∀ n op, e.succeeds n op = true) : Passable e path (fun e => deleteFileTurn e (path ++ [name]) name) s := by
  by_cases hname : plain name = true
  · refine Passable.of (t := ⟨true, s.bStopped, Disk.delete (path ++ [name]) { s.disk with calls := s.disk.calls + 1 }⟩)
      (Agrees.refl _ e) (Nat.le_refl _) rfl (fun p hp => ?_) fun e' he' => ?_
    · by_cases hp' : p = path ++ [name]
      · exact Or.inr ⟨name, hp', hname⟩
      · left
        rwa [← Function.update_of_ne hp' true s.disk.deletedFiles]
    · have hok : e'.succeeds s.disk.calls (.deleteFile (path ++ [name])) = true := by
        rw [he'.succeeds]
        exact he _ _
      unfold deleteFileTurn call
      rw [if_pos hname, if_pos hok]
  · exact Passable.idle hs fun _ => if_neg hname

/-- The call for a sub-folder is stopped at once. -/
theorem deleteFolderTurn_passable (path : Path) {p : Path} {name : CString} {items : Listing γ} {nPass n : ℕ} {s : Search γ}
    (loop : Env → ℕ → Search γ → Search γ) (hs : s.returned = true) :
    Passable e path (fun e => deleteFolderTurn e bIncludeSubFolders szFileMask p name items (passes e true n (loop e)) nPass) s := by
  by_cases hturn : (plain name && (bIncludeSubFolders && (nPass == 1 || nPasses bIncludeSubFolders szFileMask == 1))) = true
  · refine Passable.of (t := { s with disk := { s.disk with waits := s.disk.waits + 1 } })
      (answer_agrees (Nat.le_refl _) e true) (Nat.le_succ _) (returned_iff.1 hs).2 (fun _ hp => Or.inl hp) fun e' he' => ?_
    have hlook : e'.signalled s.disk.waits = true :=
      (he'.signalled _ (Nat.lt_succ_self _)).trans (answer_self e s.disk.waits true)
    unfold deleteFolderTurn
    rw [if_pos hturn, passes_stopped hlook]
    rfl
  · exact Passable.idle hs fun _ => if_neg hturn

/-- Some environment lets the search go on behind an entry. -/
theorem entry_passable {path : Path} {found : Bool} {turn next : Env → Search γ → Search γ} {s : Search γ} {Q : Env → Search γ → Prop}
    (hs : s.returned = true) (hturn : Passable e path turn s)
    (hnext : ∀ e₁ t, Agrees s.disk.waits e e₁ → s.disk.waits ≤ t.disk.waits → t.returned = true → OnTop path s.disk t.disk →
      ∃ e', Agrees t.disk.waits e₁ e' ∧ Q e' (next e' t)) :
    ∃ e', Agrees s.disk.waits e e' ∧ Q e' (entry e' true found (turn e') (next e') s) := by
  cases found with
  | false => exact hnext e s (Agrees.refl _ e) (Nat.le_refl _) hs fun _ hp => Or.inl hp
  | true =>
    obtain ⟨e₁, t, he₁, hle, ht, htop, hwait⟩ := hturn
    obtain ⟨e', he', hQ⟩ := hnext e₁ t he₁ hle ht htop
    refine ⟨e', he₁.trans hle he', ?_⟩
    have hgo : entry e' true true (turn e') (next e') s = next e' t := by
      unfold entry
      simp only [if_true]
      rw [hwait e' he', if_pos ht]
    rw [hgo]
    exact hQ

/-- A pass in which every call for a sub-folder is stopped and nothing else fails. -/
theorem deleteLoop_passable (path : Path) (nPass : ℕ) {Q : Env → Search γ → Prop} :
    ∀ (l : Listing γ) (e : Env) (s : Search γ), s.returned = true → (∀ n op, e.succeeds n op = true) →
      (∀ e₁ t, Agrees s.disk.waits e e₁ → s.disk.waits ≤ t.disk.waits → t.returned = true → OnTop path s.disk t.disk →
        ∃ e', Agrees t.disk.waits e₁ e' ∧ Q e' t) →
      ∃ e', Agrees s.disk.waits e e' ∧ Q e' (deleteLoop wild e' true bIncludeSubFolders szFileMask l path nPass s)
  | .nil, e, s, hs, _, hQ => hQ e s (Agrees.refl _ e) (Nat.le_refl _) hs fun _ hp => Or.inl hp
  | .file name content rest, e, s, hs, he, hQ => by
    refine entry_passable hs (deleteFileTurn_passable hs he) fun e₁ t he₁ hle ht htop => ?_
    refine deleteLoop_passable path nPass rest e₁ t ht (fun n op => he₁.succeeds ▸ he n op) fun e₂ t₂ he₂ hle₂ ht₂ htop₂ => ?_
    exact hQ e₂ t₂ (he₁.trans hle he₂) (hle.trans hle₂) ht₂ (htop.trans htop₂)
  | .folder name items rest, e, s, hs, he, hQ => by
    refine entry_passable hs (deleteFolderTurn_passable path
      (fun e => deleteLoop wild e true bIncludeSubFolders szFileMask items (path ++ [name])) hs) fun e₁ t he₁ hle ht htop => ?_
    refine deleteLoop_passable path nPass rest e₁ t ht (fun n op => he₁.succeeds ▸ he n op) fun e₂ t₂ he₂ hle₂ ht₂ htop₂ => ?_
    exact hQ e₂ t₂ (he₁.trans hle he₂) (hle.trans hle₂) ht₂ (htop.trans htop₂)

/-- Behind the first look at `hTerminate`, with nothing deleted. -/
def looked (dest : Path → Option γ) : Search γ := ⟨true, false, { intact dest with waits := 1 }⟩

variable (wild bIncludeSubFolders szFileMask) in
/-- A call that returns `TRUE` and deletes nothing but files of the folder itself without a dot. -/
theorem deleteFolderContents_passable (l : Listing γ) (dest : Path → Option γ) :
    ∃ e, (deleteFolderContents wild e true bIncludeSubFolders szFileMask l (intact dest)).1 = true ∧
      OnTop [] (intact dest) (deleteFolderContents wild e true bIncludeSubFolders szFileMask l (intact dest)).2 := by
  have hstart : ∀ e : Env, Agrees 1 yielding e → wait e true ⟨true, false, intact dest⟩ = looked dest := by
    intro e he
    show Search.mk true (true && e.signalled 0) _ = _
    rw [he.signalled 0 Nat.one_pos]
    rfl
  let loop : Env → ℕ → Search γ → Search γ := fun e => deleteLoop wild e true bIncludeSubFolders szFileMask l []
  have htop : OnTop [] (intact dest) (looked dest).disk := fun _ hp => Or.inl hp
  rcases (nPasses_cases bIncludeSubFolders szFileMask).imp id And.right with hone | htwo
  · obtain ⟨e, he, hrun⟩ : ∃ e, Agrees 1 yielding e ∧ (loop e 0 (looked dest)).returned = true ∧
        OnTop [] (intact dest) (loop e 0 (looked dest)).disk :=
      deleteLoop_passable (Q := fun _ t => t.returned = true ∧ OnTop [] (intact dest) t.disk) [] 0 l yielding (looked dest) rfl
        (fun _ _ => rfl) fun e t _ _ ht htop' => ⟨e, Agrees.refl _ e, ht, htop.trans htop'⟩
    refine ⟨e, ?_⟩
    unfold deleteFolderContents
    rw [hone, passes_one, hstart e he]
    exact hrun
  · obtain ⟨e, he, hgoing, hrun⟩ : ∃ e, Agrees 1 yielding e ∧ (loop e 0 (looked dest)).returned = true ∧
        (loop e 1 (loop e 0 (looked dest))).returned = true ∧
        OnTop [] (intact dest) (loop e 1 (loop e 0 (looked dest))).disk := by
      refine deleteLoop_passable (Q := fun e t => t.returned = true ∧ (loop e 1 t).returned = true ∧
        OnTop [] (intact dest) (loop e 1 t).disk) [] 0 l yielding (looked dest) rfl (fun _ _ => rfl) fun e t he _ ht htop' => ?_
      exact deleteLoop_passable (Q := fun _ t' => t.returned = true ∧ t'.returned = true ∧ OnTop [] (intact dest) t'.disk) [] 1 l e t ht
        (fun n op => by rw [he.succeeds]; rfl)
        fun e t' _ _ ht' htop'' => ⟨e, Agrees.refl _ e, ht, ht', (htop.trans htop').trans htop''⟩
    have hfirst : passes e true 1 (loop e) (intact dest) = loop e 0 (looked dest) := by
      rw [passes_one, hstart e he]
      rfl
    refine ⟨e, ?_⟩
    show (passes e true _ (loop e) (intact dest)).returned = true ∧ OnTop [] (intact dest) (passes e true _ (loop e) (intact dest)).disk
    rw [htwo, passes_two, hfirst, if_neg (by rw [(returned_iff.1 hgoing).1]; exact Bool.noConfusion)]
    exact hrun

/-! ## When the report is right -/

/-- `TRUE` means that no selected file remains exactly where all of them are files of the folder itself without a dot. -/
theorem reportsRemaining_iff (hall : ∀ name, wild anyFile name = true) (l : Listing γ) :
    ReportsRemaining wild bIncludeSubFolders szFileMask l ↔
      ∀ q, Chosen wild bIncludeSubFolders szFileMask l q → ∃ name, q = [name] ∧ plain name = true := by
  constructor
  · intro h q hq
    obtain ⟨e, hreturned, htop⟩ := deleteFolderContents_passable wild bIncludeSubFolders szFileMask l fun _ => none
    rcases htop q (h e true (intact fun _ => none) hreturned q hq) with hbefore | hdeleted
    · exact Bool.noConfusion hbefore
    · exact hdeleted
  · intro h e hTerminate d r hreturned q hq
    obtain ⟨name, rfl, hname⟩ := h q hq
    obtain ⟨⟨c, hc⟩, _, hmatch⟩ := hq
    exact deleteFolderContents_complete hall hreturned hc hname hmatch

/-- A folder with the file `b`, which is in a sub-folder `s`. -/
def oneFolder : Listing Unit := .folder [0x2e] .nil (.folder [0x2e, 0x2e] .nil (.folder [0x73] oneFile .nil))

/-- No call succeeds and no event is set. -/
def failing : Env := ⟨fun _ _ => false, fun _ => false⟩

theorem reportsRemaining_sample : ReportsRemaining literal true [] oneFile ↔
    ∀ q, Chosen literal true [] oneFile q → ∃ name, q = [name] ∧ plain name = true :=
  reportsRemaining_iff literal_all oneFile

/-- No deletion succeeds, and the answer is `TRUE`. -/
theorem failure_unreported : ¬ ReportsRemaining literal true [] oneFolder := by
  intro h
  have hdeleted := h failing false (intact fun _ => none) (by decide) [[0x73], [0x62]]
    ⟨⟨(), by simp [oneFolder, oneFile, Listing.Holds]⟩, Or.inl rfl, by decide⟩
  revert hdeleted
  decide

end StarLib.FileMisc
