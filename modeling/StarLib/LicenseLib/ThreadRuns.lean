import Mathlib.Tactic.Common
import StarLib.LicenseLib.Thread

/-! # What holds however the threads are interleaved

The handles move between the object and the local variables of the threads as in a ledger, so that each is closed at most
once. Where a thread is started only once, one thread at most gets its handle: either a `stop_thread`, and nobody deletes
the object, or the thread itself.
-/

namespace StarLib.LicenseLib.Thread
open Foundations Foundations.Transitions Foundations.Custody Function
set_option autoImplicit false
set_option maxHeartbeats 250000
set_option maxRecDepth 120000

variable {s s' : State} {p q : Party} {pc pc' : Pc} {e : Event} {ok : Bool}

/-! ## The ledger of the handles -/

/-- The handle in the local variable that the thread uses for its own. -/
def Pc.handle : Pc → HANDLE
  | .storing _ h => some h
  | .keeping h => some h
  | .stopWait h => some h
  | .stopTerminate h => some h
  | .stopClear h => some h
  | .stopClose h => some h
  | .destroyWait h => some h
  | .destroyTerminate h => some h
  | .destroyEnd h => h
  | .leaveClear h => some h
  | .leaveClose h => some h
  | _ => none

/-- The null handle is none of the system's. -/
def real (h : HANDLE) : Option ℕ := h.filter fun h => 0 < h

theorem real_some {h : HANDLE} {n : ℕ} : real h = some n ↔ h = some n ∧ 0 < n := by
  simp only [real, Option.filter_eq_some_iff, decide_eq_true_eq]

/-- Holders are the object itself and the threads. -/
def State.holds (s : State) : Option Party → HANDLE
  | none => s.thread_handle_
  | some p => (s.pc p).handle

def State.ledger (s : State) : Ledger (Option Party) ℕ where
  holds k := real (s.holds k)
  issued := {h | 0 < h ∧ h < s.next}
  closed := s.closed.filter fun h => 0 < h

/-- A step moves one handle at most. -/
def Follows (s s' : State) : Prop := Relation.ReflGen Move s.ledger s'.ledger

theorem Follows.of_eq (h : s'.ledger = s.ledger) : Follows s s' := by
  unfold Follows
  rw [h]

theorem ledger_set : (s.set p pc).ledger =
    ⟨update s.ledger.holds (some p) (real pc.handle), s.ledger.issued, s.ledger.closed⟩ := by
  unfold State.ledger
  congr 1
  funext k
  cases k with
  | none => rfl
  | some q =>
    by_cases hq : q = p
    · subst hq
      simp only [State.holds, State.set, update_self]
    · have hne : (some q : Option Party) ≠ some p := fun h => hq (Option.some.inj h)
      simp only [State.holds, State.set, update_of_ne hq, update_of_ne hne]

theorem ledger_set_same (h : pc.handle = (s.pc p).handle) : (s.set p pc).ledger = s.ledger := by
  have hheld : update s.ledger.holds (some p) (real pc.handle) = s.ledger.holds :=
    update_eq_self_iff.2 (congrArg real h)
  rw [ledger_set, hheld]

theorem follows_set_same (h : pc.handle = (s.pc p).handle) : Follows s (s.set p pc) := .of_eq (ledger_set_same h)

theorem follows_set_none (h : pc.handle = none) : Follows s (s.set p pc) := by
  unfold Follows
  rw [ledger_set, h]
  exact .single (.lose _ (some p))

theorem follows_TerminateThread (h : ℕ) : Follows s (s.TerminateThread h) := by
  unfold State.TerminateThread
  split
  · exact .refl
  · exact .refl
  · exact follows_set_none rfl

theorem follows_terminate (h : ℕ) (hpc : pc.handle = (s.pc p).handle) : Follows s ((s.set p pc).TerminateThread h) := by
  have hfollow : Follows (s.set p pc) ((s.set p pc).TerminateThread h) := follows_TerminateThread h
  unfold Follows at hfollow ⊢
  rwa [ledger_set_same hpc] at hfollow

/-- What a thread gets was in the object. -/
theorem follows_exchange {got : ℕ → Pc} {missed : Pc} (hgot : ∀ h, (got h).handle = some h)
    (hmissed : missed.handle = none) : Follows s (s.exchange p got missed) := by
  unfold State.exchange
  split
  · exact follows_set_none hmissed
  next h hmember =>
    have hpass := Move.pass s.ledger none (some p)
    unfold Follows
    rw [ledger_set, hgot]
    have hobject : s.ledger.holds none = real (some h) := congrArg real hmember
    have hrest : ({ s with thread_handle_ := none, taken := (p, h) :: s.taken } : State).ledger.holds =
        update s.ledger.holds none none := by
      funext k
      cases k with
      | none => rw [update_self]; rfl
      | some q => rw [update_of_ne (Option.some_ne_none q)]; rfl
    rw [hrest, ← hobject]
    exact .single hpass

theorem follows_store (suspended : Bool) {h : ℕ} (hpc : s.pc p = .storing suspended h) :
    Follows s ({ s with thread_handle_ := some h }.set p (.checking suspended)) := by
  have hpass := Move.pass s.ledger (some p) none
  have hlocal : s.ledger.holds (some p) = real (some h) := by
    simp only [State.ledger, State.holds, hpc, Pc.handle]
  unfold Follows
  rw [ledger_set]
  have hheld : update ({ s with thread_handle_ := some h } : State).ledger.holds (some p)
      (real (Pc.checking suspended).handle) =
        update (update s.ledger.holds (some p) none) none (s.ledger.holds (some p)) := by
    rw [hlocal]
    funext k
    cases k with
    | none => rw [update_self, update_of_ne (Option.some_ne_none p).symm]; rfl
    | some q =>
      rw [update_of_ne (Option.some_ne_none q)]
      by_cases hq : q = p
      · rw [hq, update_self, update_self]
        rfl
      · have hne : (some q : Option Party) ≠ some p := fun h => hq (Option.some.inj h)
        rw [update_of_ne hne, update_of_ne hne]
        rfl
  rw [hheld]
  exact .single hpass

theorem follows_close {h : ℕ} (hpc : (s.pc p).handle = some h) (hnone : pc.handle = none) :
    Follows s ((s.CloseHandle h).set p pc) := by
  unfold Follows
  rw [ledger_set, hnone]
  by_cases hreal : 0 < h
  · have hheld : s.ledger.holds (some p) = some h := real_some.2 ⟨hpc, hreal⟩
    have hclosed : (s.CloseHandle h).ledger.closed = h :: s.ledger.closed :=
      List.filter_cons_of_pos (p := fun h => decide (0 < h)) (decide_eq_true hreal)
    rw [hclosed]
    exact .single (.close _ (some p) h hheld)
  · have hclosed : (s.CloseHandle h).ledger.closed = s.ledger.closed :=
      List.filter_cons_of_neg (p := fun h => decide (0 < h)) (mt of_decide_eq_true hreal)
    rw [hclosed]
    exact .single (.lose _ (some p))

/-! ## Every step follows the ledger -/

/-- Threads that have not been made do nothing. -/
structure Valid (s : State) : Prop where
  next : 0 < s.next
  unborn : ∀ h, h = 0 ∨ s.next ≤ h → s.pc (.worker h) = .idle

theorem follows_create (h : Valid s) (suspended : Bool) (count : ℕ → ℕ) (id : ℕ) :
    Follows s (({ s with
      next := s.next + 1, thread_id_ := id, suspendCount := count }.set (.worker s.next) .executing).set p
        (.storing suspended s.next)) := by
  let made : State := { s with next := s.next + 1, thread_id_ := id, suspendCount := count }
  have hnew : s.next ∉ s.ledger.issued := fun hmem => Nat.lt_irrefl _ hmem.2
  have hissue := Move.issue s.ledger (some p) s.next hnew
  have hissued : made.ledger.issued = insert s.next s.ledger.issued := by
    ext n
    constructor
    · rintro ⟨hpos, hlt⟩
      rcases Nat.lt_succ_iff_lt_or_eq.1 hlt with hlt | heq
      · exact Or.inr ⟨hpos, hlt⟩
      · exact Or.inl heq
    · rintro (rfl | ⟨hpos, hlt⟩)
      · exact ⟨h.next, Nat.lt_succ_self _⟩
      · exact ⟨hpos, Nat.lt_succ_of_lt hlt⟩
  have hworker : Pc.executing.handle = (made.pc (.worker s.next)).handle :=
    (congrArg Pc.handle (h.unborn s.next (Or.inr (Nat.le_refl _)))).symm
  have hstored : real (Pc.storing suspended s.next).handle = some s.next := real_some.2 ⟨rfl, h.next⟩
  unfold Follows
  rw [ledger_set, ledger_set_same (s := made) hworker, hissued, hstored]
  exact .single hissue

/-! ## What one access can do -/

/-- The thread is in `start_thread` and its handle not yet in the object. -/
def Pc.making : Pc → Bool
  | .creating _ => true
  | .storing _ _ => true
  | _ => false

/-- The thread is in `execute` or in the destructor. -/
def Pc.dying : Pc → Bool
  | .destroying => true
  | .destroyWait _ => true
  | .destroyTerminate _ => true
  | .destroyEnd _ => true
  | .executing => true
  | .leaving => true
  | .leaveClear _ => true
  | .leaveClose _ => true
  | .leaveDelete => true
  | _ => false

/-- The thread has got the handle from the object. A thread that deletes the object itself has had it before. -/
def Pc.won (p : Party) : Pc → Bool
  | .keeping _ => true
  | .stopWait _ => true
  | .stopTerminate _ => true
  | .stopClear _ => true
  | .stopClose _ => true
  | .returned .stop_thread 1 => true
  | .destroyWait _ => true
  | .destroyTerminate _ => true
  | .leaveClear _ => true
  | .leaveClose _ => true
  | .leaveDelete => true
  | .destroying => match p with
    | .client _ => false
    | .worker _ => true
  | .destroyEnd h => match p with
    | .client _ => h.isSome
    | .worker _ => true
  | _ => false

/-- The thread goes on without having taken part in more than before. -/
structure Quiet (p : Party) (pc pc' : Pc) : Prop where
  making : pc'.making = true → pc.making = true
  dying : pc'.dying = true → pc.dying = true
  won : pc'.won p = true → pc.won p = true

inductive Access (s : State) (p : Party) : State → Prop
  | go (id : ℕ) (terminated del : Bool) (count : ℕ → ℕ) (pc : Pc) (hquiet : Quiet p (s.pc p) pc)
      (hheld : real pc.handle = real (s.pc p).handle) :
      Access s p ({ s with
        thread_id_ := id, terminated_ := terminated, self_delete_ := del, suspendCount := count }.set p pc)
  | create (suspended : Bool) (id : ℕ) (count : ℕ → ℕ) (hpc : s.pc p = .creating suspended) :
      Access s p (({ s with
        next := s.next + 1, thread_id_ := id, suspendCount := count }.set (.worker s.next) .executing).set p
          (.storing suspended s.next))
  | store (suspended : Bool) (h : ℕ) (hpc : s.pc p = .storing suspended h) :
      Access s p ({ s with thread_handle_ := some h }.set p (.checking suspended))
  | exchange (got : ℕ → Pc) (missed : Pc) (hgot : ∀ h, (got h).handle = some h ∧ (got h).making = false)
      (hmissed : missed.handle = none) (hwon : ∀ h, (got h).won p = true)
      (hdying : ∀ h, (got h).dying = true → (s.pc p).dying = true) (hquiet : Quiet p (s.pc p) missed) :
      Access s p (s.exchange p got missed)
  | terminate (h : ℕ) (pc : Pc) (hquiet : Quiet p (s.pc p) pc) (hheld : pc.handle = (s.pc p).handle) :
      Access s p ((s.set p pc).TerminateThread h)
  | close (h : ℕ) (pc : Pc) (hquiet : Quiet p (s.pc p) pc) (hheld : (s.pc p).handle = some h) (hnone : pc.handle = none) :
      Access s p ((s.CloseHandle h).set p pc)
  | free (pc : Pc) (hdying : (s.pc p).dying = true) (hwon : ∀ h, p = .worker h → (s.pc p).won p = true)
      (hquiet : Quiet p (s.pc p) pc) (hnone : pc.handle = none) :
      Access s p ({ s with thread_id_ := 0, deleted := true }.set p pc)

theorem Access.plain {pc : Pc} (hquiet : Quiet p (s.pc p) pc) (hheld : real pc.handle = real (s.pc p).handle) :
    Access s p (s.set p pc) := .go s.thread_id_ s.terminated_ s.self_delete_ s.suspendCount pc hquiet hheld

theorem Access.counts {pc : Pc} (count : ℕ → ℕ) (hquiet : Quiet p (s.pc p) pc)
    (hheld : real pc.handle = real (s.pc p).handle) : Access s p ({ s with suspendCount := count }.set p pc) :=
  .go s.thread_id_ s.terminated_ s.self_delete_ count pc hquiet hheld

theorem Quiet.of_false (hmaking : pc'.making = false) (hdying : pc'.dying = false) (hwon : pc'.won p = false) :
    Quiet p pc pc' where
  making h := absurd (hmaking.symm.trans h) Bool.false_ne_true
  dying h := absurd (hdying.symm.trans h) Bool.false_ne_true
  won h := absurd (hwon.symm.trans h) Bool.false_ne_true

theorem quiet_resumed (f : Call) (ticks : ℕ) : Quiet p pc (resumed f ticks) := by
  cases f <;> exact .of_false rfl rfl rfl

theorem handle_resumed (f : Call) (ticks : ℕ) : (resumed f ticks).handle = none := by
  cases f <;> rfl

theorem access_advance (hstep : advance s p ok = some s') : Access s p s' := by
  unfold advance at hstep
  cases hpc : s.pc p with
  | idle | returned | ended | killed => simp only [hpc] at hstep; exact absurd hstep (Option.some_ne_none s').symm
  | creating suspended =>
    simp only [hpc] at hstep
    split at hstep
    · exact Option.some.inj hstep ▸ .create suspended _ _ hpc
    · exact Option.some.inj hstep ▸ .plain (by rw [hpc]; exact ⟨fun _ => rfl, nofun, nofun⟩) (by rw [hpc]; rfl)
  | storing suspended h =>
    simp only [hpc] at hstep
    exact Option.some.inj hstep ▸ .store suspended h hpc
  | checking suspended =>
    simp only [hpc] at hstep
    exact Option.some.inj hstep ▸ .plain (.of_false rfl rfl rfl) (by rw [hpc]; rfl)
  | resuming f all | suspending | waiting =>
    simp only [hpc] at hstep
    exact Option.some.inj hstep ▸ .plain (.of_false rfl rfl rfl) (by rw [hpc]; rfl)
  | resumingWith f all h =>
    simp only [hpc] at hstep
    split at hstep
    · exact Option.some.inj hstep ▸ .plain (quiet_resumed f _) (by rw [hpc, handle_resumed]; rfl)
    · split at hstep
      · exact Option.some.inj hstep ▸ .counts _ (.of_false rfl rfl rfl) (by rw [hpc]; rfl)
      · exact Option.some.inj hstep ▸ .counts _ (quiet_resumed f _) (by rw [hpc, handle_resumed]; rfl)
  | suspendingWith h =>
    simp only [hpc] at hstep
    split at hstep
    · exact Option.some.inj hstep ▸ .plain (.of_false rfl rfl rfl) (by rw [hpc]; rfl)
    · exact Option.some.inj hstep ▸ .counts _ (.of_false rfl rfl rfl) (by rw [hpc]; rfl)
  | waitingWith h =>
    simp only [hpc] at hstep
    split at hstep
    · exact Option.some.inj hstep ▸ .plain (.of_false rfl rfl rfl) (by rw [hpc]; rfl)
    · split at hstep
      · obtain ⟨-, hstep⟩ := Option.ite_none_right_eq_some.1 hstep
        exact Option.some.inj hstep ▸ .plain (.of_false rfl rfl rfl) (by rw [hpc]; rfl)
      · exact Option.some.inj hstep ▸ .plain (.of_false rfl rfl rfl) (by rw [hpc]; rfl)
  | stopping =>
    simp only [hpc] at hstep
    exact Option.some.inj hstep ▸ .go s.thread_id_ true s.self_delete_ s.suspendCount _ (.of_false rfl rfl rfl)
      (by rw [hpc]; rfl)
  | exchanging =>
    simp only [hpc] at hstep
    exact Option.some.inj hstep ▸ .exchange _ _ (fun h => ⟨rfl, rfl⟩) rfl (fun h => rfl) (fun h => nofun)
      (.of_false rfl rfl rfl)
  | keeping h =>
    simp only [hpc] at hstep
    exact Option.some.inj hstep ▸ .go s.thread_id_ s.terminated_ false s.suspendCount _
      (by rw [hpc]; exact ⟨nofun, nofun, fun _ => rfl⟩) (by rw [hpc]; rfl)
  | stopWait h =>
    simp only [hpc] at hstep
    split at hstep
    · obtain ⟨-, hstep⟩ := Option.ite_none_right_eq_some.1 hstep
      exact Option.some.inj hstep ▸ .plain (by rw [hpc]; exact ⟨nofun, nofun, fun _ => rfl⟩) (by rw [hpc]; rfl)
    · exact Option.some.inj hstep ▸ .plain (by rw [hpc]; exact ⟨nofun, nofun, fun _ => rfl⟩) (by rw [hpc]; rfl)
  | stopTerminate h =>
    simp only [hpc] at hstep
    exact Option.some.inj hstep ▸ .terminate h _ (by rw [hpc]; exact ⟨nofun, nofun, fun _ => rfl⟩) (by rw [hpc]; rfl)
  | stopClear h =>
    simp only [hpc] at hstep
    exact Option.some.inj hstep ▸ .go 0 s.terminated_ s.self_delete_ s.suspendCount _
      (by rw [hpc]; exact ⟨nofun, nofun, fun _ => rfl⟩) (by rw [hpc]; rfl)
  | stopClose h =>
    simp only [hpc] at hstep
    exact Option.some.inj hstep ▸ .close h _ (by rw [hpc]; exact ⟨nofun, nofun, fun _ => rfl⟩) (by rw [hpc]; rfl) rfl
  | destroying =>
    simp only [hpc] at hstep
    refine Option.some.inj hstep ▸ .exchange _ _ (fun h => ⟨rfl, rfl⟩) rfl (fun h => rfl) (fun h _ => by rw [hpc]; rfl)
      ⟨nofun, fun _ => by rw [hpc]; rfl, fun hwon => ?_⟩
    rw [hpc]
    cases p with
    | client c => exact hwon
    | worker w => rfl
  | destroyWait h =>
    simp only [hpc] at hstep
    split at hstep
    · obtain ⟨-, hstep⟩ := Option.ite_none_right_eq_some.1 hstep
      exact Option.some.inj hstep ▸ .plain (by rw [hpc]; exact ⟨nofun, fun _ => rfl, fun _ => rfl⟩) (by rw [hpc]; rfl)
    · exact Option.some.inj hstep ▸ .plain (by rw [hpc]; exact ⟨nofun, fun _ => rfl, fun _ => rfl⟩) (by rw [hpc]; rfl)
  | destroyTerminate h =>
    simp only [hpc] at hstep
    exact Option.some.inj hstep ▸ .terminate h _ (by rw [hpc]; exact ⟨nofun, fun _ => rfl, fun _ => rfl⟩)
      (by rw [hpc]; rfl)
  | destroyEnd h =>
    simp only [hpc] at hstep
    cases p with
    | client c =>
      exact Option.some.inj hstep ▸ .free _ (by rw [hpc]; rfl) nofun (.of_false rfl rfl rfl) rfl
    | worker w =>
      exact Option.some.inj hstep ▸ .free _ (by rw [hpc]; rfl) (fun _ _ => by rw [hpc]; rfl) (.of_false rfl rfl rfl) rfl
  | executing =>
    simp only [hpc] at hstep
    exact Option.some.inj hstep ▸ .plain (by rw [hpc]; exact ⟨nofun, fun _ => rfl, nofun⟩) (by rw [hpc]; rfl)
  | leaving =>
    simp only [hpc] at hstep
    exact Option.some.inj hstep ▸ .exchange _ _ (fun h => ⟨rfl, rfl⟩) rfl (fun h => rfl) (fun h _ => by rw [hpc]; rfl)
      (.of_false rfl rfl rfl)
  | leaveClear h =>
    simp only [hpc] at hstep
    exact Option.some.inj hstep ▸ .plain (by rw [hpc]; exact ⟨nofun, fun _ => rfl, fun _ => rfl⟩) (by rw [hpc]; rfl)
  | leaveClose h =>
    simp only [hpc] at hstep
    exact Option.some.inj hstep ▸ .close h _ (by rw [hpc]; exact ⟨nofun, fun _ => rfl, fun _ => rfl⟩)
      (by rw [hpc]; rfl) rfl
  | leaveDelete =>
    simp only [hpc] at hstep
    obtain rfl := Option.some.inj hstep
    split
    · exact .plain (by rw [hpc]; exact ⟨nofun, fun _ => rfl, fun _ => rfl⟩) (by rw [hpc]; rfl)
    · exact .plain (.of_false rfl rfl rfl) (by rw [hpc]; rfl)

theorem follows_access (h : Valid s) (hacc : Access s p s') : Follows s s' := by
  cases hacc with
  | go id terminated del count pc _ hheld =>
    refine .of_eq ?_
    have hsame : update s.ledger.holds (some p) (real pc.handle) = s.ledger.holds := update_eq_self_iff.2 hheld
    rw [ledger_set]
    exact congrArg (fun held => (⟨held, s.ledger.issued, s.ledger.closed⟩ : Ledger (Option Party) ℕ)) hsame
  | create suspended id count => exact follows_create h suspended count id
  | store suspended n hpc => exact follows_store suspended hpc
  | exchange got missed hgot hmissed => exact follows_exchange (fun h => (hgot h).1) hmissed
  | terminate n pc _ hheld => exact follows_terminate n hheld
  | close n pc _ hheld hnone => exact follows_close hheld hnone
  | free pc _ _ _ hnone => exact follows_set_none (s := { s with thread_id_ := 0, deleted := true }) hnone


theorem Valid.of_pc (h : Valid s) (hnext : s.next ≤ s'.next)
    (hpc : ∀ n, s.pc (.worker n) = .idle → n = 0 ∨ s'.next ≤ n → s'.pc (.worker n) = .idle) : Valid s' where
  next := Nat.lt_of_lt_of_le h.next hnext
  unborn n hn := hpc n (h.unborn n (hn.imp_right hnext.trans)) hn

/-- A thread that takes a step has been made. -/
theorem Valid.set (h : Valid s) (hp : s.pc p ≠ .idle) : Valid (s.set p pc) :=
  h.of_pc (Nat.le_refl _) fun n hidle _ => by
    have hne : (Party.worker n) ≠ p := fun heq => hp (heq ▸ hidle)
    rwa [s.set_of_ne pc hne]

/-- The other fields do not matter. -/
theorem Valid.set_with (h : Valid s) (hpc : s'.pc = s.pc) (hnext : s'.next = s.next) (hp : s.pc p ≠ .idle) :
    Valid (s'.set p pc) :=
  (h.of_pc (Nat.le_of_eq hnext.symm) fun n hidle _ => by rwa [hpc]).set (hpc ▸ hp)

theorem Valid.terminate (h : Valid s) (n : ℕ) : Valid (s.TerminateThread n) := by
  unfold State.TerminateThread
  split
  · exact h
  · exact h
  next hidle _ => exact h.set hidle

theorem Access.valid (hacc : Access s p s') (h : Valid s) (hp : s.pc p ≠ .idle) : Valid s' := by
  cases hacc with
  | go id terminated del count => exact h.set_with rfl rfl hp
  | create suspended id count =>
    refine Valid.set (h.of_pc (Nat.le_succ _) fun n hidle hn => ?_) ?_
    · have hne : n ≠ s.next := by
        rcases hn with rfl | hle
        · exact Nat.ne_of_lt h.next
        · exact Nat.ne_of_gt hle
      rwa [State.set_of_ne _ _ (fun heq => hne (Party.worker.inj heq))]
    · have hne : p ≠ .worker s.next := fun heq => hp (heq ▸ h.unborn s.next (Or.inr (Nat.le_refl _)))
      rwa [State.set_of_ne _ _ hne]
  | store suspended n => exact h.set_with rfl rfl hp
  | exchange got missed =>
    unfold State.exchange
    split
    · exact h.set hp
    · exact h.set_with rfl rfl hp
  | terminate n pc => exact (h.set hp).terminate n
  | close n pc => exact h.set_with rfl rfl hp
  | free pc => exact h.set_with rfl rfl hp

theorem advance_idle (hstep : advance s p ok = some s') : s.pc p ≠ .idle := fun hidle => by
  simp only [advance, hidle] at hstep
  exact Option.some_ne_none s' hstep.symm

/-- The events, each with the access it is. -/
theorem step_cases (hstep : step s e = some s') :
    (∃ c f, e = .call c f ∧ s.deleted = false ∧ (s.pc (.client c)).free = true ∧ s' = s.set (.client c) f.first) ∨
    (∃ del, e = .set_autodelete del ∧ s.deleted = false ∧ s' = { s with self_delete_ := del }) ∨
    (e = .set_terminate ∧ s.deleted = false ∧ s' = { s with terminated_ := true }) ∨
    (∃ p ok, e = .step p ok ∧ (s.deleted = true → (s.pc p).touches = false) ∧ s.pc p ≠ .idle ∧ Access s p s') := by
  cases e with
  | call c f =>
    obtain ⟨⟨hdel, hfree⟩, heq⟩ := Option.ite_none_right_eq_some.1 hstep
    exact Or.inl ⟨c, f, rfl, hdel, hfree, (Option.some.inj heq).symm⟩
  | set_autodelete del =>
    obtain ⟨hdel, heq⟩ := Option.ite_none_right_eq_some.1 hstep
    exact Or.inr (Or.inl ⟨del, rfl, hdel, (Option.some.inj heq).symm⟩)
  | set_terminate =>
    obtain ⟨hdel, heq⟩ := Option.ite_none_right_eq_some.1 hstep
    exact Or.inr (Or.inr (Or.inl ⟨rfl, hdel, (Option.some.inj heq).symm⟩))
  | step p ok =>
    obtain ⟨⟨_, htouch⟩, heq⟩ := Option.ite_none_right_eq_some.1 hstep
    refine Or.inr (Or.inr (Or.inr ⟨p, ok, rfl, fun hdel => ?_, advance_idle heq, access_advance heq⟩))
    rwa [hdel, Bool.true_and] at htouch

theorem valid_step (h : Valid s) (hstep : step s e = some s') : Valid s' := by
  rcases step_cases hstep with ⟨c, f, -, -, -, rfl⟩ | ⟨del, -, -, rfl⟩ | ⟨-, -, rfl⟩ | ⟨p, ok, -, -, hidle, hacc⟩
  · exact h.of_pc (Nat.le_refl _) fun n hidle _ => by rwa [s.set_of_ne _ Party.noConfusion]
  · exact ⟨h.next, h.unborn⟩
  · exact ⟨h.next, h.unborn⟩
  · exact hacc.valid h hidle

theorem handle_free (h : pc.free = true) : pc.handle = none := by
  cases pc with
  | idle | returned => rfl
  | _ => exact absurd h Bool.false_ne_true

theorem handle_first (f : Call) : f.first.handle = none := by
  cases f <;> rfl

theorem follows_step (h : Valid s) (hstep : step s e = some s') : Follows s s' := by
  rcases step_cases hstep with ⟨c, f, -, -, hfree, rfl⟩ | ⟨del, -, -, rfl⟩ | ⟨-, -, rfl⟩ | ⟨p, ok, -, -, -, hacc⟩
  · exact follows_set_same ((handle_first f).trans (handle_free hfree).symm)
  · exact .of_eq rfl
  · exact .of_eq rfl
  · exact follows_access h hacc

theorem valid_CThread (del : Bool) : Valid (CThread del) := ⟨Nat.one_pos, fun _ _ => rfl⟩

theorem sole_CThread (del : Bool) : Sole (CThread del).ledger := by
  have hempty : (CThread del).ledger = ⟨fun _ => none, ∅, []⟩ := by
    unfold State.ledger
    congr 1
    · funext k
      cases k <;> rfl
    · exact Set.eq_empty_of_forall_notMem fun h hmem => Nat.lt_irrefl _ (Nat.lt_of_lt_of_le hmem.2 hmem.1)
  rw [hempty]
  exact .empty

variable {del : Bool} {events events' : List Event} {k k' : Option Party} {h : ℕ}

theorem valid_run (hrun : run step (CThread del) events = some s) : Valid s :=
  run_keeps (fun _ _ _ => valid_step) (valid_CThread del) hrun

theorem sole_run (hrun : run step (CThread del) events = some s) : Sole s.ledger :=
  (sole_CThread del).moves (run_simulates (fun _ _ _ => valid_step) (fun _ _ _ => follows_step) (valid_CThread del) hrun)

/-- A thread that leaves before its handle is in the object, and is stopped after that. -/
def lateStop : List Event :=
  [.call 0 (.start_thread false), .step (.client 0) true, .step (.worker 1) true, .step (.worker 1) true] ++
    List.replicate 2 (.step (.client 0) true) ++ [.call 0 .stop_thread] ++ List.replicate 8 (.step (.client 0) true)

def Event.starts : Event → Bool
  | .call _ (.start_thread _) => true
  | _ => false

/-- Nobody deletes the object from outside. -/
def Event.keepsObject : Event → Bool
  | .call _ .delete => false
  | _ => true

/-- The handle is on its way from the one `start_thread` to the one thread that gets it. -/
structure Single (s : State) : Prop where
  making : ∀ p q, (s.pc p).making = true → (s.pc q).making = true → p = q
  before : ∀ p, (s.pc p).making = true → s.thread_handle_ = none ∧ s.taken = []
  member : s.thread_handle_ ≠ none → s.taken = []
  once : s.taken.length ≤ 1
  won : ∀ p, (s.pc p).won p = true → ∃ h, (p, h) ∈ s.taken
  deleted : s.deleted = true → ∃ w h, (.worker w, h) ∈ s.taken
  clients : ∀ c, (s.pc (.client c)).dying = false

/-- A thread goes on, and nothing else that matters changes. -/
theorem Single.set (h : Single s) (hmaking : pc.making = true → (s.pc p).making = true)
    (hdying : ∀ c, p = .client c → pc.dying = true → (s.pc p).dying = true)
    (hwon : pc.won p = true → (s.pc p).won p = true) (hpc : s'.pc = s.pc)
    (hmember : s'.thread_handle_ = s.thread_handle_) (htaken : s'.taken = s.taken)
    (hdel : s'.deleted = true → ∃ w h, (.worker w, h) ∈ s.taken) : Single (s'.set p pc) := by
  have hmade : ∀ q, ((s'.set p pc).pc q).making = true → (s.pc q).making = true := by
    intro q hq
    by_cases hqp : q = p
    · subst hqp
      rw [State.set_self] at hq
      exact hmaking hq
    · rwa [State.set_of_ne _ _ hqp, hpc] at hq
  refine ⟨fun q q' hq hq' => h.making q q' (hmade q hq) (hmade q' hq'), fun q hq => ?_, fun hne => ?_, ?_, fun q hq => ?_,
    fun hdel' => ?_, fun c => ?_⟩
  · rw [State.set_thread_handle_, State.set_taken, hmember, htaken]
    exact h.before q (hmade q hq)
  · rw [State.set_taken, htaken]
    exact h.member (by rwa [State.set_thread_handle_, hmember] at hne)
  · rw [State.set_taken, htaken]
    exact h.once
  · rw [State.set_taken, htaken]
    by_cases hqp : q = p
    · subst hqp
      rw [State.set_self] at hq
      exact h.won q (hwon hq)
    · rw [State.set_of_ne _ _ hqp, hpc] at hq
      exact h.won q hq
  · rw [State.set_taken, htaken]
    exact hdel hdel'
  · by_cases hcp : .client c = p
    · subst hcp
      rw [State.set_self]
      exact Bool.eq_false_iff.2 fun hd => Bool.eq_false_iff.1 (h.clients c) (hdying c rfl hd)
    · rw [State.set_of_ne _ _ hcp, hpc]
      exact h.clients c

theorem Single.quiet (h : Single s) (hquiet : Quiet p (s.pc p) pc) (hpc : s'.pc = s.pc)
    (hmember : s'.thread_handle_ = s.thread_handle_) (htaken : s'.taken = s.taken)
    (hdel : s'.deleted = true → ∃ w h, (.worker w, h) ∈ s.taken) : Single (s'.set p pc) :=
  h.set hquiet.making (fun _ _ => hquiet.dying) hquiet.won hpc hmember htaken hdel

theorem Single.terminate (h : Single s) (n : ℕ) : Single (s.TerminateThread n) := by
  unfold State.TerminateThread
  split
  · exact h
  · exact h
  · exact h.quiet (.of_false rfl rfl rfl) rfl rfl rfl h.deleted

/-- The handle gets into the object, whose `start_thread` was the only one. -/
theorem Single.store (h : Single s) {suspended : Bool} {n : ℕ} (hpc : s.pc p = .storing suspended n) :
    Single ({ s with thread_handle_ := some n }.set p (.checking suspended)) := by
  have hp : (s.pc p).making = true := by rw [hpc]; rfl
  have hnone : ∀ q, (({ s with thread_handle_ := some n }.set p (.checking suspended)).pc q).making = false := by
    intro q
    by_cases hqp : q = p
    · subst hqp
      rw [State.set_self]
      rfl
    · rw [State.set_of_ne _ _ hqp]
      exact Bool.eq_false_iff.2 fun hq => hqp (h.making q p hq hp)
  refine ⟨fun q _ hq => absurd hq (Bool.eq_false_iff.1 (hnone q)), fun q hq => absurd hq (Bool.eq_false_iff.1 (hnone q)),
    fun _ => (h.before p hp).2, h.once, fun q hq => ?_, h.deleted, fun c => ?_⟩
  · by_cases hqp : q = p
    · subst hqp
      rw [State.set_self] at hq
      exact absurd hq Bool.false_ne_true
    · rw [State.set_of_ne _ _ hqp] at hq
      exact h.won q hq
  · by_cases hcp : .client c = p
    · subst hcp
      rw [State.set_self]
      rfl
    · rw [State.set_of_ne _ _ hcp]
      exact h.clients c

/-- The handle gets out of the object, and nobody has got it before. -/
theorem Single.exchange (h : Single s) {got : ℕ → Pc} {missed : Pc} (hmaking : ∀ n, (got n).making = false)
    (hdying : ∀ n, (got n).dying = true → (s.pc p).dying = true) (hquiet : Quiet p (s.pc p) missed) :
    Single (s.exchange p got missed) := by
  unfold State.exchange
  split
  · exact h.quiet hquiet rfl rfl rfl h.deleted
  next n hmember =>
    have hempty : s.taken = [] := h.member (by rw [hmember]; exact Option.some_ne_none n)
    have hidle : ∀ q, (s.pc q).making = false := fun q =>
      Bool.eq_false_iff.2 fun hq => Option.some_ne_none n (hmember.symm.trans (h.before q hq).1)
    have hnone : ∀ q, (({ s with
        thread_handle_ := none, taken := (p, n) :: s.taken }.set p (got n)).pc q).making = false := by
      intro q
      by_cases hqp : q = p
      · subst hqp
        rw [State.set_self]
        exact hmaking n
      · rw [State.set_of_ne _ _ hqp]
        exact hidle q
    refine ⟨fun q _ hq => absurd hq (Bool.eq_false_iff.1 (hnone q)),
      fun q hq => absurd hq (Bool.eq_false_iff.1 (hnone q)), fun hne => absurd rfl hne, ?_, fun q hq => ?_,
      fun hdel => ?_, fun c => ?_⟩
    · rw [State.set_taken, hempty]
      exact Nat.le_refl _
    · by_cases hqp : q = p
      · exact ⟨n, hqp ▸ List.mem_cons_self⟩
      · rw [State.set_of_ne _ _ hqp] at hq
        obtain ⟨m, hm⟩ := h.won q hq
        exact ⟨m, List.mem_cons_of_mem _ hm⟩
    · obtain ⟨w, m, hm⟩ := h.deleted hdel
      exact ⟨w, m, List.mem_cons_of_mem _ hm⟩
    · by_cases hcp : .client c = p
      · subst hcp
        rw [State.set_self]
        exact Bool.eq_false_iff.2 fun hd => Bool.eq_false_iff.1 (h.clients c) (hdying n hd)
      · rw [State.set_of_ne _ _ hcp]
        exact h.clients c

theorem Access.single (hacc : Access s p s') (h : Single s) (hvalid : Valid s) (hp : s.pc p ≠ .idle) : Single s' := by
  cases hacc with
  | go id terminated del count pc hquiet => exact h.quiet hquiet rfl rfl rfl h.deleted
  | create suspended id count hpc =>
    let made : State := { s with next := s.next + 1, thread_id_ := id, suspendCount := count }
    have hworker : Single (made.set (.worker s.next) .executing) :=
      h.set nofun nofun nofun (show made.pc = s.pc from rfl) rfl rfl h.deleted
    have hne : p ≠ .worker s.next := fun heq => hp (heq ▸ hvalid.unborn s.next (Or.inr (Nat.le_refl _)))
    refine hworker.quiet ?_ rfl rfl rfl hworker.deleted
    rw [State.set_of_ne _ _ hne]
    exact hpc ▸ ⟨fun _ => rfl, nofun, nofun⟩
  | store suspended n hpc => exact h.store hpc
  | exchange got missed hgot hmissed _ hdying hquiet => exact h.exchange (fun n => (hgot n).2) hdying hquiet
  | terminate n pc hquiet => exact (h.quiet hquiet rfl rfl rfl h.deleted).terminate n
  | close n pc hquiet => exact h.quiet hquiet rfl rfl rfl h.deleted
  | free pc hdying hwon hquiet =>
    refine h.quiet hquiet rfl rfl rfl fun _ => ?_
    cases p with
    | client c => exact absurd hdying (Bool.eq_false_iff.1 (h.clients c))
    | worker w =>
      obtain ⟨n, hn⟩ := h.won _ (hwon w rfl)
      exact ⟨w, n, hn⟩

theorem first_quiet {f : Call} {c : ℕ} (hkeep : (Event.call c f).keepsObject = true) :
    f.first.dying = false ∧ f.first.won (.client c) = false := by
  cases f with
  | delete => exact absurd hkeep Bool.false_ne_true
  | _ => exact ⟨rfl, rfl⟩

theorem first_making {f : Call} {c : ℕ} (hstart : (Event.call c f).starts = false) : f.first.making = false := by
  cases f with
  | start_thread suspended => exact absurd hstart.symm Bool.false_ne_true
  | _ => rfl

theorem single_step (hvalid : Valid s) (h : Single s) (hstart : e.starts = false) (hkeep : e.keepsObject = true)
    (hstep : step s e = some s') : Single s' := by
  rcases step_cases hstep with ⟨c, f, rfl, -, -, rfl⟩ | ⟨del, -, -, rfl⟩ | ⟨-, -, rfl⟩ | ⟨p, ok, -, -, hidle, hacc⟩
  · obtain ⟨hdying, hwon⟩ := first_quiet hkeep
    exact h.quiet (.of_false (first_making hstart) hdying hwon) rfl rfl rfl h.deleted
  · exact ⟨h.making, h.before, h.member, h.once, h.won, h.deleted, h.clients⟩
  · exact ⟨h.making, h.before, h.member, h.once, h.won, h.deleted, h.clients⟩
  · exact hacc.single h hvalid hidle

/-- Nobody has made a thread, and nobody is about to. -/
def Unmade (s : State) : Prop := (∀ p, (s.pc p).making = false) ∧ s.thread_handle_ = none ∧ s.taken = []

theorem Unmade.set (h : Unmade s) (hmaking : pc.making = false) (hpc : s'.pc = s.pc)
    (hmember : s'.thread_handle_ = s.thread_handle_) (htaken : s'.taken = s.taken) : Unmade (s'.set p pc) := by
  refine ⟨fun q => ?_, hmember.trans h.2.1, htaken.trans h.2.2⟩
  by_cases hqp : q = p
  · subst hqp
    rwa [State.set_self]
  · rw [State.set_of_ne _ _ hqp, hpc]
    exact h.1 q

theorem Access.unmade (hacc : Access s p s') (h : Unmade s) : Unmade s' := by
  have hp : ∀ pc', Quiet p (s.pc p) pc' → pc'.making = false := fun pc' hquiet =>
    Bool.eq_false_iff.2 fun hm => Bool.eq_false_iff.1 (h.1 p) (hquiet.making hm)
  cases hacc with
  | go id terminated del count pc hquiet => exact h.set (hp pc hquiet) rfl rfl rfl
  | create suspended id count hpc =>
    exact absurd (h.1 p) (by rw [hpc]; exact Bool.false_ne_true.symm)
  | store suspended n hpc => exact absurd (h.1 p) (by rw [hpc]; exact Bool.false_ne_true.symm)
  | exchange got missed _ _ _ _ hquiet =>
    unfold State.exchange
    rw [h.2.1]
    exact h.set (hp missed hquiet) rfl rfl rfl
  | terminate n pc hquiet =>
    have hset : Unmade (s.set p pc) := h.set (hp pc hquiet) rfl rfl rfl
    unfold State.TerminateThread
    split
    · exact hset
    · exact hset
    · exact hset.set rfl rfl rfl rfl
  | close n pc hquiet => exact h.set (hp pc hquiet) rfl rfl rfl
  | free pc _ _ hquiet => exact h.set (hp pc hquiet) rfl rfl rfl

theorem unmade_step (h : Unmade s) (hstart : e.starts = false) (hstep : step s e = some s') : Unmade s' := by
  rcases step_cases hstep with ⟨c, f, rfl, -, -, rfl⟩ | ⟨del, -, -, rfl⟩ | ⟨-, -, rfl⟩ | ⟨p, ok, -, -, -, hacc⟩
  · exact h.set (first_making hstart) rfl rfl rfl
  · exact h
  · exact h
  · exact hacc.unmade h

/-- The only call of `start_thread`. -/
theorem single_start (h : Single s) (hunmade : Unmade s) (hstart : e.starts = true) (hstep : step s e = some s') :
    Single s' := by
  rcases step_cases hstep with ⟨c, f, rfl, -, -, rfl⟩ | ⟨del, rfl, -⟩ | ⟨rfl, -⟩ | ⟨p, ok, rfl, -⟩
  · obtain ⟨suspended, rfl⟩ : ∃ suspended, f = .start_thread suspended := by
      cases f with
      | start_thread suspended => exact ⟨suspended, rfl⟩
      | _ => exact absurd hstart Bool.false_ne_true
    have honly : ∀ q, ((s.set (.client c) (.creating suspended)).pc q).making = true → q = .client c := by
      intro q hq
      by_contra hqc
      rw [State.set_of_ne _ _ hqc] at hq
      exact Bool.eq_false_iff.1 (hunmade.1 q) hq
    refine ⟨fun q q' hq hq' => (honly q hq).trans (honly q' hq').symm, fun q _ => hunmade.2, fun _ => hunmade.2.2, h.once,
      fun q hq => ?_, h.deleted, fun d => ?_⟩
    · by_cases hqc : q = .client c
      · rw [hqc, Call.first, State.set_self] at hq
        exact absurd hq Bool.false_ne_true
      · rw [State.set_of_ne _ _ hqc] at hq
        exact h.won q hq
    · by_cases hdc : Party.client d = .client c
      · rw [hdc, Call.first, State.set_self]
        rfl
      · rw [State.set_of_ne _ _ hdc]
        exact h.clients d
  · exact absurd hstart Bool.false_ne_true
  · exact absurd hstart Bool.false_ne_true
  · exact absurd hstart Bool.false_ne_true

/-- After the call. -/
theorem single_rest (hvalid : Valid s) (h : Single s) (hstart : events.countP Event.starts = 0)
    (hkeep : ∀ e ∈ events, e.keepsObject = true) (hrun : run step s events = some s') : Single s' := by
  induction events generalizing s with
  | nil => exact Option.some.inj hrun ▸ h
  | cons e events ih =>
    obtain ⟨t, ht, hrest⟩ := run_cons.1 hrun
    have hnone := List.countP_eq_zero.1 hstart
    have he : e.starts = false := Bool.eq_false_iff.2 (hnone e List.mem_cons_self)
    have hstart' : events.countP Event.starts = 0 :=
      List.countP_eq_zero.2 fun e he => hnone e (List.mem_cons_of_mem _ he)
    exact ih (valid_step hvalid ht) (single_step hvalid h he (hkeep e List.mem_cons_self) ht) hstart'
      (fun e he => hkeep e (List.mem_cons_of_mem _ he)) hrest

/-- Up to the call, and after it. -/
theorem single_run (hvalid : Valid s) (h : Single s) (hunmade : Unmade s) (hstart : events.countP Event.starts ≤ 1)
    (hkeep : ∀ e ∈ events, e.keepsObject = true) (hrun : run step s events = some s') : Single s' := by
  induction events generalizing s with
  | nil => exact Option.some.inj hrun ▸ h
  | cons e events ih =>
    obtain ⟨t, ht, hrest⟩ := run_cons.1 hrun
    have hkeep' : ∀ e ∈ events, e.keepsObject = true := fun e he => hkeep e (List.mem_cons_of_mem _ he)
    by_cases he : e.starts = true
    · rw [List.countP_cons_of_pos he] at hstart
      exact single_rest (valid_step hvalid ht) (single_start h hunmade he ht)
        (Nat.le_zero.1 (Nat.le_of_succ_le_succ hstart)) hkeep' hrest
    · rw [List.countP_cons_of_neg he] at hstart
      have he' : e.starts = false := Bool.eq_false_iff.2 he
      exact ih (valid_step hvalid ht) (single_step hvalid h he' (hkeep e List.mem_cons_self) ht)
        (unmade_step hunmade he' ht) hstart hkeep' hrest

theorem single_CThread (del : Bool) : Single (CThread del) where
  making _ _ h := absurd h Bool.false_ne_true
  before _ h := absurd h Bool.false_ne_true
  member h := absurd rfl h
  once := Nat.zero_le _
  won _ h := absurd h Bool.false_ne_true
  deleted h := absurd h Bool.false_ne_true
  clients _ := rfl

/-- A thread that deletes its object while another one is about to stop it. -/
def selfDelete : List Event :=
  [.call 0 (.start_thread false)] ++ List.replicate 3 (.step (.client 0) true) ++
    [.call 1 .stop_thread, .step (.client 1) true] ++ List.replicate 7 (.step (.worker 1) true)

end StarLib.LicenseLib.Thread
