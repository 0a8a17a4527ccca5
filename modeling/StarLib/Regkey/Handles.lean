import Mathlib.Data.Finset.Basic
import StarLib.Foundations.Words

/-! # The handles of `CRegKey` objects

The constructors, the assignment, `Open`, `Close` and the destructor as steps on the objects that exist and the
handles that are open. The assignment takes its argument by value, so that it is three steps: a temporary is
copy-constructed, the members are copied, the temporary is destroyed.
-/

namespace StarLib.Regkey
open Foundations
set_option autoImplicit false
set_option maxHeartbeats 250000
set_option maxRecDepth 120000

/-- 0 is `NULL`. -/
abbrev HKEY := ℕ

abbrev CString := List Byte

structure CRegKey where
  m_hKey : HKEY
  m_hKeyRoot : HKEY
  m_sPath : CString

/-- The objects of a program, and the temporary of an assignment. -/
inductive ObjectId where
  | object (n : ℕ)
  | temporary
  deriving DecidableEq

/-- The objects that exist, the handles that are open, whether every `RegCloseKey` was given an open handle, and
the number of steps so far. -/
structure World where
  objects : ObjectId → Option CRegKey
  handles : Finset HKEY
  closedOpen : Bool
  clock : ℕ

/-- The operating system: whether and with which handle `RegCreateKeyEx` succeeds may depend on everything. A new
handle is not `NULL` and not one that is open. -/
structure Registry where
  RegCreateKeyEx : World → HKEY → CString → Option HKEY
  fresh : ∀ w hKey lpSubKey h, RegCreateKeyEx w hKey lpSubKey = some h → h ≠ 0 ∧ h ∉ w.handles

namespace World

def set (w : World) (x : ObjectId) (o : Option CRegKey) : World :=
  { w with objects := Function.update w.objects x o, clock := w.clock + 1 }

/-- `RegCloseKey`. -/
def RegCloseKey (w : World) (h : HKEY) : World :=
  { w with handles := w.handles.erase h, closedOpen := w.closedOpen && decide (h ∈ w.handles) }

end World

/-- `CRegKey()`. -/
def emptyKey : CRegKey := ⟨0, 0, []⟩

/-- `CRegKey::Open`, of the object `x` with the members `o`. -/
def openKey (reg : Registry) (w : World) (x : ObjectId) (o : CRegKey) (hKeyRoot : HKEY) (pszPath : CString) : World :=
  if o.m_hKey ≠ 0 then w.set x (some o)
  else
    match reg.RegCreateKeyEx w hKeyRoot pszPath with
    | some h => { w with handles := insert h w.handles }.set x (some ⟨h, hKeyRoot, pszPath⟩)
    | none => w.set x (some ⟨o.m_hKey, hKeyRoot, pszPath⟩)

/-- `RegCloseKey(m_hKey)`, if there is one. -/
def closeHandle (w : World) (o : CRegKey) : World := if o.m_hKey ≠ 0 then w.RegCloseKey o.m_hKey else w

/-! ## Steps -/

inductive Action where
  | construct (x : ObjectId)
  | copyConstruct (x y : ObjectId)
  | copyMembers (x y : ObjectId)
  | open (x : ObjectId) (hKeyRoot : HKEY) (pszPath : CString)
  | close (x : ObjectId)
  | destroy (x : ObjectId)

/-- A step. One that names an object that does not exist, or constructs one that does, is none. -/
def step (reg : Registry) (w : World) : Action → World
  | .construct x =>
    match w.objects x with
    | none => w.set x (some emptyKey)
    | some _ => w
  | .copyConstruct x y =>
    match w.objects x, w.objects y with
    | none, some p => openKey reg w x emptyKey p.m_hKeyRoot p.m_sPath
    | _, _ => w
  | .copyMembers x y =>
    match w.objects x, w.objects y with
    | some o, some p => w.set x (some { o with m_hKey := p.m_hKey, m_sPath := p.m_sPath })
    | _, _ => w
  | .open x hKeyRoot pszPath =>
    match w.objects x with
    | some o => openKey reg w x o hKeyRoot pszPath
    | none => w
  | .close x =>
    match w.objects x with
    | some o => (closeHandle w o).set x (some { o with m_hKey := 0 })
    | none => w
  | .destroy x =>
    match w.objects x with
    | some o => (closeHandle w o).set x none
    | none => w

/-- What a program does with its objects. -/
inductive Operation where
  | construct (x : ℕ)
  | copyConstruct (x y : ℕ)
  | assign (x y : ℕ)
  | open (x : ℕ) (hKeyRoot : HKEY) (pszPath : CString)
  | close (x : ℕ)
  | destroy (x : ℕ)

def Operation.actions : Operation → List Action
  | .construct x => [.construct (.object x)]
  | .copyConstruct x y => [.copyConstruct (.object x) (.object y)]
  | .assign x y =>
    [.copyConstruct .temporary (.object y), .copyMembers (.object x) .temporary, .destroy .temporary]
  | .open x hKeyRoot pszPath => [.open (.object x) hKeyRoot pszPath]
  | .close x => [.close (.object x)]
  | .destroy x => [.destroy (.object x)]

def run (reg : Registry) (w : World) (actions : List Action) : World := actions.foldl (step reg) w

/-- Every state from `w` on, after each of the steps. -/
def states (reg : Registry) (w : World) : List Action → List World
  | [] => [w]
  | a :: actions => w :: states reg (step reg w a) actions

/-- No objects, no handles. -/
def start : World := ⟨fun _ => none, ∅, true, 0⟩

/-! ## Ownership -/

/-- The handle that an object holds; `NULL` also where there is no object. -/
def World.hKey (w : World) (x : ObjectId) : HKEY := ((w.objects x).map CRegKey.m_hKey).getD 0

/-- Every handle that an object holds is open and held by no other object, every open handle is held, and no
handle was closed that was not open. -/
structure Owned (w : World) : Prop where
  opened : ∀ x, w.hKey x ≠ 0 → w.hKey x ∈ w.handles
  unique : ∀ x y, w.hKey x ≠ 0 → w.hKey x = w.hKey y → x = y
  held : ∀ h ∈ w.handles, h ≠ 0 ∧ ∃ x, w.hKey x = h
  closedOpen : w.closedOpen = true

theorem start_owned : Owned start := by
  refine ⟨fun x h => absurd rfl h, fun x y h => absurd rfl h, fun h hh => ?_, rfl⟩
  exact absurd hh (Finset.notMem_empty h)

theorem hKey_of_some {w : World} {x : ObjectId} {o : CRegKey} (h : w.objects x = some o) : w.hKey x = o.m_hKey := by
  unfold World.hKey
  rw [h]
  rfl

theorem hKey_of_none {w : World} {x : ObjectId} (h : w.objects x = none) : w.hKey x = 0 := by
  unfold World.hKey
  rw [h]
  rfl

theorem hKey_set (w : World) (x : ObjectId) (o : Option CRegKey) :
    (w.set x o).hKey = Function.update w.hKey x ((o.map CRegKey.m_hKey).getD 0) := by
  funext y
  show ((Function.update w.objects x o y).map CRegKey.m_hKey).getD 0 = _
  by_cases hy : y = x
  · rw [hy, Function.update_self, Function.update_self]
  · rw [Function.update_of_ne hy, Function.update_of_ne hy]
    rfl

/-- What the steps do to the handles, the copying of members apart. -/
inductive Change (w w' : World) : Prop where
  | keep (hKey : w'.hKey = w.hKey) (handles : w'.handles = w.handles) (closed : w'.closedOpen = w.closedOpen)
  | acquire (x : ObjectId) (h : HKEY) (none : w.hKey x = 0) (fresh : h ≠ 0 ∧ h ∉ w.handles)
      (hKey : w'.hKey = Function.update w.hKey x h) (handles : w'.handles = insert h w.handles)
      (closed : w'.closedOpen = w.closedOpen)
  | release (x : ObjectId) (some : w.hKey x ≠ 0) (hKey : w'.hKey = Function.update w.hKey x 0)
      (handles : w'.handles = w.handles.erase (w.hKey x))
      (closed : w'.closedOpen = (w.closedOpen && decide (w.hKey x ∈ w.handles)))

section Update
variable {w w' : World} {x : ObjectId} {k : HKEY}

theorem Owned.acquire (h : Owned w) (hnone : w.hKey x = 0) (hk : k ≠ 0 ∧ k ∉ w.handles)
    (hKey : w'.hKey = Function.update w.hKey x k) (handles : w'.handles = insert k w.handles)
    (closed : w'.closedOpen = w.closedOpen) : Owned w' := by
  have hself : Function.update w.hKey x k x = k := Function.update_self ..
  have hother : ∀ y, y ≠ x → Function.update w.hKey x k y = w.hKey y := fun y hy => Function.update_of_ne hy ..
  -- an old handle is not the new one
  have hold : ∀ y, w.hKey y ≠ 0 → w.hKey y ≠ k := fun y hy hyk => hk.2 (hyk ▸ h.opened y hy)
  refine ⟨fun y hy => ?_, fun y z hy hyz => ?_, fun k' hk' => ?_, closed.trans h.closedOpen⟩
  · rw [hKey] at hy ⊢
    rw [handles]
    by_cases hyx : y = x
    · rw [hyx, hself]
      exact Finset.mem_insert_self k _
    · rw [hother y hyx] at hy ⊢
      exact Finset.mem_insert_of_mem (h.opened y hy)
  · rw [hKey] at hy hyz
    by_cases hyx : y = x
    · by_cases hzx : z = x
      · rw [hyx, hzx]
      · rw [hyx, hself, hother z hzx] at hyz
        have hz : w.hKey z ≠ 0 := by
          rw [← hyz]
          exact hk.1
        exact absurd hyz.symm (hold z hz)
    · rw [hother y hyx] at hy hyz
      by_cases hzx : z = x
      · rw [hzx, hself] at hyz
        exact absurd hyz (hold y hy)
      · rw [hother z hzx] at hyz
        exact h.unique y z hy hyz
  · rw [handles] at hk'
    rw [hKey]
    rcases Finset.mem_insert.1 hk' with rfl | hk'
    · exact ⟨hk.1, x, hself⟩
    · obtain ⟨hne, y, hy⟩ := h.held k' hk'
      have hyx : y ≠ x := fun hyx => hne (by rw [← hy, hyx, hnone])
      exact ⟨hne, y, by rw [hother y hyx, hy]⟩

theorem Owned.release (h : Owned w) (hsome : w.hKey x ≠ 0) (hKey : w'.hKey = Function.update w.hKey x 0)
    (handles : w'.handles = w.handles.erase (w.hKey x))
    (closed : w'.closedOpen = (w.closedOpen && decide (w.hKey x ∈ w.handles))) : Owned w' := by
  have hself : Function.update w.hKey x 0 x = 0 := Function.update_self ..
  have hother : ∀ y, y ≠ x → Function.update w.hKey x 0 y = w.hKey y := fun y hy => Function.update_of_ne hy ..
  refine ⟨fun y hy => ?_, fun y z hy hyz => ?_, fun k' hk' => ?_, ?_⟩
  · rw [hKey] at hy ⊢
    by_cases hyx : y = x
    · rw [hyx, hself] at hy
      exact absurd rfl hy
    · rw [hother y hyx] at hy ⊢
      rw [handles]
      exact Finset.mem_erase.2 ⟨fun heq => hyx (h.unique y x hy heq), h.opened y hy⟩
  · rw [hKey] at hy hyz
    have hyx : y ≠ x := fun hyx => hy (by rw [hyx, hself])
    rw [hother y hyx] at hy hyz
    by_cases hzx : z = x
    · rw [hzx, hself] at hyz
      exact absurd hyz hy
    · rw [hother z hzx] at hyz
      exact h.unique y z hy hyz
  · rw [handles] at hk'
    obtain ⟨hne', hk'⟩ := Finset.mem_erase.1 hk'
    obtain ⟨hne, y, hy⟩ := h.held k' hk'
    have hyx : y ≠ x := fun hyx => hne' (by rw [← hy, hyx])
    rw [hKey]
    exact ⟨hne, y, by rw [hother y hyx, hy]⟩
  · rw [closed, h.closedOpen, decide_eq_true (h.opened x hsome)]
    rfl

end Update

/-- Each change keeps the ownership. -/
theorem Change.owned {w w' : World} (hchange : Change w w') (h : Owned w) : Owned w' := by
  cases hchange with
  | keep hKey handles closed =>
    refine ⟨?_, ?_, ?_, closed.trans h.closedOpen⟩
    · rw [hKey, handles]
      exact h.opened
    · rw [hKey]
      exact h.unique
    · rw [hKey, handles]
      exact h.held
  | acquire x k none fresh hKey handles closed => exact h.acquire none fresh hKey handles closed
  | release x some hKey handles closed => exact h.release some hKey handles closed

/-- Members that leave the handle as it was. -/
theorem set_change {w : World} {x : ObjectId} {o : Option CRegKey} (h : (o.map CRegKey.m_hKey).getD 0 = w.hKey x) :
    Change w (w.set x o) := by
  refine .keep ?_ rfl rfl
  rw [hKey_set, h, Function.update_eq_self]

theorem openKey_change (reg : Registry) {w : World} {x : ObjectId} {o : CRegKey} (hx : w.hKey x = o.m_hKey)
    (hKeyRoot : HKEY) (pszPath : CString) : Change w (openKey reg w x o hKeyRoot pszPath) := by
  unfold openKey
  by_cases hopen : o.m_hKey ≠ 0
  · rw [if_pos hopen]
    exact set_change hx.symm
  · rw [if_neg hopen]
    cases hcreate : reg.RegCreateKeyEx w hKeyRoot pszPath with
    | none => exact set_change hx.symm
    | some h =>
      have hnull : w.hKey x = 0 := hx.trans (not_not.1 hopen)
      exact .acquire x h hnull (reg.fresh _ _ _ _ hcreate) (hKey_set _ _ _) rfl rfl

theorem closeHandle_change {w : World} {x : ObjectId} {o : CRegKey} (hx : w.hKey x = o.m_hKey) {o' : Option CRegKey}
    (ho' : (o'.map CRegKey.m_hKey).getD 0 = 0) : Change w ((closeHandle w o).set x o') := by
  unfold closeHandle
  by_cases hopen : o.m_hKey ≠ 0
  · rw [if_pos hopen, ← hx]
    rw [← hx] at hopen
    refine .release x hopen ?_ rfl rfl
    rw [hKey_set, ho']
    rfl
  · rw [if_neg hopen]
    exact set_change (by rw [ho', hx, not_not.1 hopen])

def Action.isCopy : Action → Bool
  | .copyMembers _ _ => true
  | _ => false

theorem step_change (reg : Registry) (w : World) {a : Action} (ha : a.isCopy = false) : Change w (step reg w a) := by
  have hnothing : Change w w := .keep rfl rfl rfl
  cases a with
  | construct x =>
    cases hx : w.objects x with
    | none =>
      simp only [step, hx]
      exact set_change (hKey_of_none hx).symm
    | some o => simpa only [step, hx] using hnothing
  | copyConstruct x y =>
    cases hx : w.objects x with
    | none =>
      cases hy : w.objects y with
      | none => simpa only [step, hx, hy] using hnothing
      | some p =>
        simp only [step, hx, hy]
        exact openKey_change reg (hKey_of_none hx) _ _
    | some o => simpa only [step, hx] using hnothing
  | copyMembers x y => exact absurd ha (by simp [Action.isCopy])
  | «open» x hKeyRoot pszPath =>
    cases hx : w.objects x with
    | none => simpa only [step, hx] using hnothing
    | some o =>
      simp only [step, hx]
      exact openKey_change reg (hKey_of_some hx) _ _
  | close x =>
    cases hx : w.objects x with
    | none => simpa only [step, hx] using hnothing
    | some o =>
      simp only [step, hx]
      exact closeHandle_change (hKey_of_some hx) rfl
  | destroy x =>
    cases hx : w.objects x with
    | none => simpa only [step, hx] using hnothing
    | some o =>
      simp only [step, hx]
      exact closeHandle_change (hKey_of_some hx) rfl

/-- The object that a step is about. -/
def Action.target : Action → ObjectId
  | .construct x | .copyConstruct x _ | .copyMembers x _ | .open x _ _ | .close x | .destroy x => x

theorem set_other (w : World) {x z : ObjectId} (hz : z ≠ x) (o : Option CRegKey) : (w.set x o).objects z = w.objects z :=
  Function.update_of_ne hz ..

theorem openKey_other (reg : Registry) (w : World) {x z : ObjectId} (hz : z ≠ x) (o : CRegKey) (hKeyRoot : HKEY)
    (pszPath : CString) : (openKey reg w x o hKeyRoot pszPath).objects z = w.objects z := by
  unfold openKey
  split
  · exact set_other w hz _
  · split
    · exact set_other _ hz _
    · exact set_other w hz _

theorem closeHandle_objects (w : World) (o : CRegKey) : (closeHandle w o).objects = w.objects := by
  unfold closeHandle
  split <;> rfl

theorem closeHandle_other (w : World) {x z : ObjectId} (hz : z ≠ x) (o : CRegKey) (o' : Option CRegKey) :
    ((closeHandle w o).set x o').objects z = w.objects z := by
  rw [set_other _ hz, closeHandle_objects]

theorem step_other (reg : Registry) (w : World) (a : Action) {z : ObjectId} (hz : z ≠ a.target) :
    (step reg w a).objects z = w.objects z := by
  cases a with
  | construct x =>
    simp only [step]
    split
    · exact set_other w hz _
    · rfl
  | copyConstruct x y =>
    simp only [step]
    split
    · exact openKey_other reg w hz _ _ _
    · rfl
  | copyMembers x y =>
    simp only [step]
    split
    · exact set_other w hz _
    · rfl
  | «open» x hKeyRoot pszPath =>
    simp only [step]
    split
    · exact openKey_other reg w hz _ _ _
    · rfl
  | close x =>
    simp only [step]
    split
    · exact closeHandle_other w hz _ _
    · rfl
  | destroy x =>
    simp only [step]
    split
    · exact closeHandle_other w hz _ _
    · rfl

/-! ## Runs -/

theorem states_append (reg : Registry) (w v : World) (as bs : List Action) :
    v ∈ states reg w (as ++ bs) ↔ v ∈ states reg w as ∨ v ∈ states reg (run reg w as) bs := by
  induction as generalizing w with
  | nil =>
    have hfirst : w ∈ states reg w bs := by
      cases bs with
      | nil => exact List.mem_singleton_self w
      | cons b bs => exact List.mem_cons_self
    simp only [List.nil_append, states, run, List.foldl_nil, List.mem_singleton]
    constructor
    · exact Or.inr
    · rintro (rfl | h)
      · exact hfirst
      · exact h
  | cons a as ih =>
    simp only [List.cons_append, states, List.mem_cons, ih, or_assoc]
    rfl

/-- An operation that leaves the ownership: no assignment, or one to an object without a handle from an object
whose key cannot be opened. -/
def HarmlessOp (reg : Registry) (w : World) : Operation → Prop
  | .assign x y => ∀ o p, w.objects (.object x) = some o → w.objects (.object y) = some p →
      o.m_hKey = 0 ∧ reg.RegCreateKeyEx w p.m_hKeyRoot p.m_sPath = none
  | _ => True

def Harmless (reg : Registry) : World → List Operation → Prop
  | _, [] => True
  | w, op :: ops => HarmlessOp reg w op ∧ Harmless reg (run reg w op.actions) ops

/-- A single step that is no copying of members. -/
theorem single_owned (reg : Registry) {w : World} (hw : Owned w) {a : Action} (ha : a.isCopy = false) :
    ∀ v ∈ states reg w [a], Owned v := by
  intro v hv
  rcases List.mem_cons.1 hv with rfl | hv
  · exact hw
  · rw [List.mem_singleton.1 hv]
    exact (step_change reg w ha).owned hw

theorem set_self (w : World) (x : ObjectId) (o : Option CRegKey) : (w.set x o).objects x = o :=
  Function.update_self ..

theorem run_mem_states (reg : Registry) (w : World) (actions : List Action) :
    run reg w actions ∈ states reg w actions := by
  induction actions generalizing w with
  | nil => exact List.mem_singleton_self w
  | cons a actions ih => exact List.mem_cons_of_mem _ (ih (step reg w a))

/-- Between two operations there is no temporary. -/
theorem run_temporary (reg : Registry) {w : World} (hw : w.objects .temporary = none) (op : Operation) :
    (run reg w op.actions).objects .temporary = none := by
  have hsingle : ∀ a : Action, a.target ≠ .temporary → (run reg w [a]).objects .temporary = none := by
    intro a ha
    rw [← hw]
    exact step_other reg w a ha.symm
  cases op with
  | construct x => exact hsingle _ nofun
  | copyConstruct x y => exact hsingle _ nofun
  | «open» x hKeyRoot pszPath => exact hsingle _ nofun
  | close x => exact hsingle _ nofun
  | destroy x => exact hsingle _ nofun
  | assign x y =>
    show (step reg (step reg (step reg w _) _) (.destroy .temporary)).objects .temporary = none
    generalize step reg (step reg w _) _ = v
    cases hv : v.objects .temporary with
    | none => simp only [step, hv]
    | some o =>
      simp only [step, hv]
      exact set_self _ _ _

/-- The temporary of an assignment. -/
def temporaryOf (reg : Registry) (w : World) (p : CRegKey) : CRegKey :=
  ⟨(reg.RegCreateKeyEx w p.m_hKeyRoot p.m_sPath).getD 0, p.m_hKeyRoot, p.m_sPath⟩

/-- The three states of an assignment between objects that exist. -/
theorem assign_states (reg : Registry) {w : World} (hw : w.objects .temporary = none) {x y : ℕ} {o p : CRegKey}
    (hx : w.objects (.object x) = some o) (hy : w.objects (.object y) = some p) :
    let w₁ := step reg w (.copyConstruct .temporary (.object y))
    let w₂ := step reg w₁ (.copyMembers (.object x) .temporary)
    w₁.hKey = Function.update w.hKey .temporary (temporaryOf reg w p).m_hKey ∧
      w₂.hKey = Function.update w₁.hKey (.object x) (temporaryOf reg w p).m_hKey ∧
      w₂.handles = w₁.handles ∧ w₂.closedOpen = w₁.closedOpen ∧ w.handles ⊆ w₁.handles := by
  intro w₁ w₂
  have hother : w₁.objects (.object x) = some o := by
    rw [← hx]
    exact step_other reg w (.copyConstruct .temporary (.object y)) nofun
  have htemp : w₁.objects .temporary = some (temporaryOf reg w p) ∧ w.handles ⊆ w₁.handles ∧
      w₁.hKey = Function.update w.hKey .temporary (temporaryOf reg w p).m_hKey := by
    show (step reg w (.copyConstruct .temporary (.object y))).objects .temporary = _ ∧
      _ ⊆ (step reg w (.copyConstruct .temporary (.object y))).handles ∧
      (step reg w (.copyConstruct .temporary (.object y))).hKey = _
    simp only [step, hw, hy]
    unfold openKey temporaryOf
    rw [if_neg (by simp [emptyKey])]
    cases hcreate : reg.RegCreateKeyEx w p.m_hKeyRoot p.m_sPath with
    | none => exact ⟨set_self _ _ _, Finset.Subset.refl _, hKey_set _ _ _⟩
    | some h => exact ⟨set_self _ _ _, Finset.subset_insert h _, hKey_set _ _ _⟩
  have hstep : w₂ = w₁.set (.object x)
      (some { o with m_hKey := (temporaryOf reg w p).m_hKey, m_sPath := (temporaryOf reg w p).m_sPath }) := by
    show step reg w₁ (.copyMembers (.object x) .temporary) = _
    simp only [step, hother, htemp.1]
  refine ⟨htemp.2.2, ?_, ?_, ?_, htemp.2.1⟩
  · rw [hstep]
    exact hKey_set _ _ _
  · rw [hstep]
    rfl
  · rw [hstep]
    rfl

section Assign
variable (reg : Registry) {w : World} (hw : Owned w) (ht : w.objects .temporary = none) {x y : ℕ}

include hw ht

/-- What the copied members leave to be owned: the temporary has no handle, and the left side had none. -/
theorem assign_null {o p : CRegKey} (hx : w.objects (.object x) = some o) (hy : w.objects (.object y) = some p)
    (hsecond : Owned (step reg (step reg w (.copyConstruct .temporary (.object y))) (.copyMembers (.object x) .temporary))) :
    o.m_hKey = 0 ∧ reg.RegCreateKeyEx w p.m_hKeyRoot p.m_sPath = none := by
  obtain ⟨h₁, h₂, hhandles, -, hsub⟩ := assign_states reg ht hx hy
  have hcreate : reg.RegCreateKeyEx w p.m_hKeyRoot p.m_sPath = none := by
    cases hcreate : reg.RegCreateKeyEx w p.m_hKeyRoot p.m_sPath with
    | none => rfl
    | some k =>
      -- the left side and the temporary hold the new handle
      have hkey : (temporaryOf reg w p).m_hKey = k := by simp [temporaryOf, hcreate]
      have hapart : ObjectId.temporary ≠ .object x := nofun
      have hleft := congrFun h₂ (.object x)
      have hright := congrFun h₂ .temporary
      rw [Function.update_self, hkey] at hleft
      rw [Function.update_of_ne hapart, h₁, Function.update_self, hkey] at hright
      have hne : k ≠ 0 := (reg.fresh _ _ _ _ hcreate).1
      exact absurd (hsecond.unique (.object x) .temporary (hleft ▸ hne) (hleft.trans hright.symm)) nofun
  refine ⟨?_, hcreate⟩
  by_contra hne
  -- nobody holds what the left side held
  have hkey : (temporaryOf reg w p).m_hKey = 0 := by simp [temporaryOf, hcreate]
  have hhold : w.hKey (.object x) = o.m_hKey := hKey_of_some hx
  have hopen : o.m_hKey ∈ w.handles := hhold ▸ hw.opened (.object x) (hhold ▸ hne)
  obtain ⟨-, z, hz⟩ := hsecond.held o.m_hKey (hhandles ▸ hsub hopen)
  rw [h₂, hkey] at hz
  by_cases hzx : z = .object x
  · rw [hzx, Function.update_self] at hz
    exact hne hz.symm
  · rw [Function.update_of_ne hzx, h₁, hkey] at hz
    by_cases hzt : z = .temporary
    · rw [hzt, Function.update_self] at hz
      exact hne hz.symm
    · rw [Function.update_of_ne hzt] at hz
      exact hzx (hw.unique z (.object x) (hz ▸ hne) (hz.trans hhold.symm))

theorem assign_copied (h : HarmlessOp reg w (.assign x y)) :
    Owned (step reg (step reg w (.copyConstruct .temporary (.object y))) (.copyMembers (.object x) .temporary)) := by
  have hfirst : Owned (step reg w (.copyConstruct .temporary (.object y))) := (step_change reg w rfl).owned hw
  cases hx : w.objects (.object x) with
  | none =>
    have hnone : (step reg w (.copyConstruct .temporary (.object y))).objects (.object x) = none := by
      rw [← hx]
      exact step_other reg w (.copyConstruct .temporary (.object y)) nofun
    generalize step reg w (.copyConstruct .temporary (.object y)) = w₁ at hfirst hnone ⊢
    simpa only [step, hnone] using hfirst
  | some o =>
    cases hy : w.objects (.object y) with
    | none =>
      have hsame : step reg w (.copyConstruct .temporary (.object y)) = w := by simp only [step, ht, hy]
      rw [hsame]
      simpa only [step, hx, ht] using hw
    | some p =>
      obtain ⟨hnull, hcreate⟩ := h o p hx hy
      obtain ⟨h₁, h₂, hhandles, hclosed, -⟩ := assign_states reg ht hx hy
      have hkey : (temporaryOf reg w p).m_hKey = 0 := by simp [temporaryOf, hcreate]
      refine Change.owned (.keep ?_ hhandles hclosed) hfirst
      have hapart : ObjectId.object x ≠ .temporary := nofun
      rw [h₂, hkey, Function.update_eq_self_iff, h₁, Function.update_of_ne hapart, hKey_of_some hx, hnull]

theorem assign_owned_iff (x y : ℕ) :
    (∀ v ∈ states reg w (Operation.assign x y).actions, Owned v) ↔ HarmlessOp reg w (.assign x y) := by
  constructor
  · intro h o p hx hy
    exact assign_null reg hw ht hx hy (h _ (List.mem_cons_of_mem _ (List.mem_cons_of_mem _ List.mem_cons_self)))
  · intro h v hv
    have hsecond := assign_copied reg hw ht h
    simp only [Operation.actions, states, List.mem_cons, List.not_mem_nil, or_false] at hv
    rcases hv with rfl | rfl | rfl | rfl
    · exact hw
    · exact (step_change reg w rfl).owned hw
    · exact hsecond
    · exact (step_change reg _ rfl).owned hsecond

end Assign

theorem operation_owned_iff (reg : Registry) {w : World} (hw : Owned w) (ht : w.objects .temporary = none)
    (op : Operation) : (∀ v ∈ states reg w op.actions, Owned v) ↔ HarmlessOp reg w op := by
  cases op with
  | construct x => exact ⟨fun _ => trivial, fun _ => single_owned reg hw rfl⟩
  | copyConstruct x y => exact ⟨fun _ => trivial, fun _ => single_owned reg hw rfl⟩
  | assign x y => exact assign_owned_iff reg hw ht x y
  | «open» x hKeyRoot pszPath => exact ⟨fun _ => trivial, fun _ => single_owned reg hw rfl⟩
  | close x => exact ⟨fun _ => trivial, fun _ => single_owned reg hw rfl⟩
  | destroy x => exact ⟨fun _ => trivial, fun _ => single_owned reg hw rfl⟩

theorem states_owned_iff (reg : Registry) {w : World} (hw : Owned w) (ht : w.objects .temporary = none)
    (ops : List Operation) :
    (∀ v ∈ states reg w (ops.flatMap Operation.actions), Owned v) ↔ Harmless reg w ops := by
  induction ops generalizing w with
  | nil =>
    refine ⟨fun _ => trivial, fun _ v hv => ?_⟩
    rw [List.mem_singleton.1 hv]
    exact hw
  | cons op ops ih =>
    have hop := operation_owned_iff reg hw ht op
    have hrun := run_temporary reg ht op
    rw [List.flatMap_cons]
    constructor
    · intro h
      have hhere : ∀ v ∈ states reg w op.actions, Owned v := fun v hv =>
        h v ((states_append reg w v _ _).2 (Or.inl hv))
      refine ⟨hop.1 hhere, (ih (hhere _ (run_mem_states reg w _)) hrun).1 fun v hv => ?_⟩
      exact h v ((states_append reg w v _ _).2 (Or.inr hv))
    · rintro ⟨hharmless, hrest⟩ v hv
      have hhere := hop.2 hharmless
      rcases (states_append reg w v _ _).1 hv with hv | hv
      · exact hhere v hv
      · exact (ih (hhere _ (run_mem_states reg w _)) hrun).2 hrest v hv

/-- In every run the handles are owned at every moment exactly when its assignments are harmless. -/
theorem handles_owned_iff (reg : Registry) (ops : List Operation) :
    (∀ v ∈ states reg start (ops.flatMap Operation.actions), Owned v) ↔ Harmless reg start ops :=
  states_owned_iff reg start_owned rfl ops

/-- Every key opens with the number of the step, where that handle is not open yet. -/
def countingRegistry : Registry where
  RegCreateKeyEx w _ _ := if w.clock + 1 ∈ w.handles then none else some (w.clock + 1)
  fresh w _ _ h hh := by
    by_cases hmem : w.clock + 1 ∈ w.handles
    · rw [if_pos hmem] at hh
      exact absurd hh nofun
    · rw [if_neg hmem] at hh
      obtain rfl := Option.some.inj hh
      exact ⟨Nat.succ_ne_zero _, hmem⟩

/-- `k0.Open(root, path); k1 = k0;` leaves a closed handle in `k1`. -/
theorem assigned_not_owned :
    ¬ ∀ v ∈ states countingRegistry start
      (([.construct 0, .open 0 0x80000001 [0x61], .construct 1, .assign 1 0] : List Operation).flatMap
        Operation.actions), Owned v := by
  intro h
  have hend := (h _ (run_mem_states countingRegistry start _)).opened (.object 1)
  exact absurd (hend (by decide)) (by decide)

end StarLib.Regkey
