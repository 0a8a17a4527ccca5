import Mathlib.Data.Set.Lattice
import StarLib.Foundations.Custody
import StarLib.Foundations.Transitions

/-! # The thread object

Several threads call the functions of one `CThread`, and the threads it has started leave through `execute`. The system
interleaves their accesses of the object and their system calls.
-/

namespace StarLib.LicenseLib.Thread
open Foundations Function
set_option autoImplicit false
set_option maxHeartbeats 250000
set_option maxRecDepth 120000

/-! ## The object and the threads that use it -/

/-- Nothing stands for `INVALID_HANDLE_VALUE`, 0 is the null handle, and every thread made gets a number of its own. -/
abbrev HANDLE := Option ℕ

inductive Party
  | client (c : ℕ)
  | worker (h : ℕ)
deriving DecidableEq

/-- The functions that access the object more than once. -/
inductive Call
  | start_thread (suspended : Bool)
  | stop_thread
  | resume_thread (all : Bool)
  | suspend_thread
  | wait_for
  | delete
deriving DecidableEq

/-- Where a thread is in the functions, with the values of their local variables. -/
inductive Pc
  | idle
  | returned (f : Call) (value : ℕ)
  -- start_thread
  | creating (suspended : Bool)
  | storing (suspended : Bool) (h : ℕ)
  | checking (suspended : Bool)
  -- resume_thread, which stop_thread calls too, suspend_thread and wait_for
  | resuming (f : Call) (all : Bool)
  | resumingWith (f : Call) (all : Bool) (h : HANDLE)
  | suspending
  | suspendingWith (h : HANDLE)
  | waiting
  | waitingWith (h : HANDLE)
  -- stop_thread
  | stopping
  | exchanging
  | keeping (h : ℕ)
  | stopWait (h : ℕ)
  | stopTerminate (h : ℕ)
  | stopClear (h : ℕ)
  | stopClose (h : ℕ)
  -- ~CThread
  | destroying
  | destroyWait (h : ℕ)
  | destroyTerminate (h : ℕ)
  | destroyEnd (h : HANDLE)
  -- execute
  | executing
  | leaving
  | leaveClear (h : ℕ)
  | leaveClose (h : ℕ)
  | leaveDelete
  | ended
  | killed
deriving DecidableEq

structure State where
  thread_handle_ : HANDLE
  thread_id_ : ℕ
  terminated_ : Bool
  self_delete_ : Bool
  -- the memory of the object has been given back
  deleted : Bool
  pc : Party → Pc
  -- the system: the number of the next thread, how often each is suspended, the calls of CloseHandle
  next : ℕ
  suspendCount : ℕ → ℕ
  closed : List ℕ
  -- who has got which handle from InterlockedExchange
  taken : List (Party × ℕ)

/-- `CThread::CThread` -/
def CThread (self_delete : Bool) : State where
  thread_handle_ := none
  thread_id_ := 0
  terminated_ := false
  self_delete_ := self_delete
  deleted := false
  pc := fun _ => .idle
  next := 1
  suspendCount := fun _ => 0
  closed := []
  taken := []

namespace State

variable (s : State) {p q : Party} (pc : Pc)

def set (s : State) (p : Party) (pc : Pc) : State := { s with pc := update s.pc p pc }

@[simp] theorem set_self (p : Party) : (s.set p pc).pc p = pc := by
  simp only [set, update_self]

theorem set_of_ne (h : q ≠ p) : (s.set p pc).pc q = s.pc q := by
  simp only [set, update_of_ne h]

@[simp] theorem set_thread_handle_ (p : Party) : (s.set p pc).thread_handle_ = s.thread_handle_ := rfl

@[simp] theorem set_deleted (p : Party) : (s.set p pc).deleted = s.deleted := rfl

@[simp] theorem set_taken (p : Party) : (s.set p pc).taken = s.taken := rfl

/-- `WaitForSingleObject` can say that the thread is over. -/
def signalled (s : State) (h : ℕ) : Bool :=
  match s.pc (.worker h) with
  | .ended => true
  | .killed => true
  | _ => false

/-- `TerminateThread`, whatever the thread was doing. -/
def TerminateThread (s : State) (h : ℕ) : State :=
  match s.pc (.worker h) with
  | .idle => s
  | .ended => s
  | _ => s.set (.worker h) .killed

/-- `InterlockedExchange(&thread_handle_, INVALID_HANDLE_VALUE)`, and where the caller goes on. -/
def exchange (s : State) (p : Party) (got : ℕ → Pc) (missed : Pc) : State :=
  match s.thread_handle_ with
  | none => s.set p missed
  | some h => { s with thread_handle_ := none, taken := (p, h) :: s.taken }.set p (got h)

def CloseHandle (s : State) (h : ℕ) : State := { s with closed := h :: s.closed }

/-- The handle names a thread and has not been closed. -/
def isOpen (s : State) : HANDLE → Option ℕ
  | none => none
  | some h => if 0 < h ∧ h < s.next ∧ s.closed.contains h = false then some h else none

end State

/-- The value of `ResumeThread` and `SuspendThread` for a handle that is not open, and `WAIT_FAILED`. -/
def failed : ℕ := 4294967295

/-- `WAIT_TIMEOUT` -/
def timedOut : ℕ := 258

/-- `resume_thread` is over. -/
def resumed (f : Call) (ticks : ℕ) : Pc :=
  match f with
  | .stop_thread => .exchanging
  | f => .returned f ticks

/-! ## The functions, access by access -/

/-- The next access is one of the object's memory, or a call of one of its virtual functions. -/
def Pc.touches : Pc → Bool
  | .idle => false
  | .returned _ _ => false
  | .resumingWith _ _ _ => false
  | .suspendingWith _ => false
  | .waitingWith _ => false
  | .stopTerminate _ => false
  | .stopClose _ => false
  | .leaveClose _ => false
  | .ended => false
  | .killed => false
  | _ => true

/-- The next access of a thread; `ok` is what the system answers where the caller does not know it. -/
def advance (s : State) (p : Party) (ok : Bool) : Option State :=
  match s.pc p with
  | .idle => none
  | .returned _ _ => none
  | .creating suspended =>
    if ok then
      some (({ s with
        next := s.next + 1
        thread_id_ := s.next
        suspendCount := update s.suspendCount s.next (if suspended then 1 else 0) }.set
          (.worker s.next) .executing).set p (.storing suspended s.next))
    else some (s.set p (.storing suspended 0))
  | .storing suspended h => some ({ s with thread_handle_ := some h }.set p (.checking suspended))
  | .checking suspended => some (s.set p (.returned (.start_thread suspended) (if s.thread_handle_ = none then 0 else 1)))
  | .resuming f all => some (s.set p (.resumingWith f all s.thread_handle_))
  | .resumingWith f all h =>
    match s.isOpen h with
    | none => some (s.set p (resumed f failed))
    | some h =>
      let ticks := s.suspendCount h
      let s' := { s with suspendCount := update s.suspendCount h (ticks - 1) }
      if all = true ∧ 0 < ticks then some (s'.set p (.resuming f all)) else some (s'.set p (resumed f ticks))
  | .suspending => some (s.set p (.suspendingWith s.thread_handle_))
  | .suspendingWith h =>
    match s.isOpen h with
    | none => some (s.set p (.returned .suspend_thread failed))
    | some h => some ({ s with suspendCount := update s.suspendCount h (s.suspendCount h + 1) }.set p
        (.returned .suspend_thread (s.suspendCount h)))
  | .waiting => some (s.set p (.waitingWith s.thread_handle_))
  | .waitingWith h =>
    match s.isOpen h with
    | none => some (s.set p (.returned .wait_for failed))
    | some h =>
      if ok then if s.signalled h then some (s.set p (.returned .wait_for 0)) else none
      else some (s.set p (.returned .wait_for timedOut))
  | .stopping => some ({ s with terminated_ := true }.set p (.resuming .stop_thread true))
  | .exchanging => some (s.exchange p .keeping (.returned .stop_thread 0))
  | .keeping h => some ({ s with self_delete_ := false }.set p (.stopWait h))
  | .stopWait h =>
    if ok then if s.signalled h then some (s.set p (.stopClear h)) else none
    else some (s.set p (.stopTerminate h))
  | .stopTerminate h => some ((s.set p (.stopClear h)).TerminateThread h)
  | .stopClear h => some ({ s with thread_id_ := 0 }.set p (.stopClose h))
  | .stopClose h => some ((s.CloseHandle h).set p (.returned .stop_thread 1))
  | .destroying => some (s.exchange p .destroyWait (.destroyEnd none))
  | .destroyWait h =>
    if ok then if s.signalled h then some (s.set p (.destroyEnd (some h))) else none
    else some (s.set p (.destroyTerminate h))
  | .destroyTerminate h => some ((s.set p (.destroyEnd (some h))).TerminateThread h)
  | .destroyEnd _ =>
    some ({ s with thread_id_ := 0, deleted := true }.set p
      (match p with
        | .client _ => .returned .delete 0
        | .worker _ => .ended))
  | .executing => some (s.set p .leaving)
  | .leaving => some (s.exchange p .leaveClear .ended)
  | .leaveClear h => some (s.set p (.leaveClose h))
  | .leaveClose h => some ((s.CloseHandle h).set p .leaveDelete)
  | .leaveDelete => some (s.set p (if s.self_delete_ then .destroying else .ended))
  | .ended => none
  | .killed => none

/-- Where a call starts. -/
def Call.first : Call → Pc
  | .start_thread suspended => .creating suspended
  | .stop_thread => .stopping
  | .resume_thread all => .resuming (.resume_thread all) all
  | .suspend_thread => .suspending
  | .wait_for => .waiting
  | .delete => .destroying

inductive Event
  | call (c : ℕ) (f : Call)
  | set_autodelete (del : Bool)
  | set_terminate
  | step (p : Party) (ok : Bool)
deriving DecidableEq

/-- A client calls one function after the other. -/
def Pc.free : Pc → Bool
  | .idle => true
  | .returned _ _ => true
  | _ => false

/-- A suspended thread does not go on. -/
def State.runs (s : State) : Party → Bool
  | .client _ => true
  | .worker h => s.suspendCount h = 0

/-- Nothing is said of what happens once the object is used after it was deleted. -/
def step (s : State) : Event → Option State
  | .call c f => if s.deleted = false ∧ (s.pc (.client c)).free = true then some (s.set (.client c) f.first) else none
  | .set_autodelete del => if s.deleted = false then some { s with self_delete_ := del } else none
  | .set_terminate => if s.deleted = false then some { s with terminated_ := true } else none
  | .step p ok =>
    if s.runs p = true ∧ (s.deleted && (s.pc p).touches) = false then advance s p ok else none

end StarLib.LicenseLib.Thread
