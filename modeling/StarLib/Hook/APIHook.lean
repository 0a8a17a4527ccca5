import StarLib.Foundations.Runs
import StarLib.Foundations.Words
import Mathlib.Logic.Function.Basic

/-! # `CAPIHook`

A hook writes a jump over the first eight bytes of a function and keeps what it finds there, which is the jump of
another object where the function is hooked already. The function of a hook is where its module has it; two functions
have no bytes in common.
-/

namespace StarLib.Hook
open Foundations
set_option autoImplicit false
set_option maxHeartbeats 250000
set_option maxRecDepth 120000

/-- The address of a function. -/
abbrev PROC := DWord

/-- `mov eax, pfnHook` and `jmp eax`. -/
def btNewBytes (pfnHook : PROC) : List Byte :=
  [0xB8, byteAt pfnHook 0, byteAt pfnHook 1, byteAt pfnHook 2, byteAt pfnHook 3, 0xFF, 0xE0, 0]

structure CAPIHook where
  m_pfnOrig : Option PROC
  m_btNewBytes : List Byte
  m_btOldBytes : List Byte
  jump : ∃ pfnHook, m_btNewBytes = btNewBytes pfnHook

/-- The objects that exist, and the first eight bytes of every function. -/
structure Process where
  objects : ℕ → Option CAPIHook
  code : PROC → List Byte

/-- `WriteProcessMemory` at a function that may be null. -/
def Process.write (p : Process) (m_pfnOrig : Option PROC) (bytes : List Byte) : Process :=
  match m_pfnOrig with
  | none => p
  | some f => { p with code := Function.update p.code f bytes }

def Process.set (p : Process) (x : ℕ) (o : Option CAPIHook) : Process := { p with objects := Function.update p.objects x o }

def rehook (o : CAPIHook) (p : Process) : Process := p.write o.m_pfnOrig o.m_btNewBytes

def unhook (o : CAPIHook) (p : Process) : Process := p.write o.m_pfnOrig o.m_btOldBytes

/-- The constructor, for the function that the system finds under the two names. -/
def construct (x : ℕ) (pfnOrig : Option PROC) (pfnHook : PROC) (p : Process) : Process :=
  let o : CAPIHook := ⟨pfnOrig, btNewBytes pfnHook, (pfnOrig.map p.code).getD [], pfnHook, rfl⟩
  (p.write pfnOrig o.m_btNewBytes).set x (some o)

/-- The destructor. -/
def destroy (x : ℕ) (o : CAPIHook) (p : Process) : Process := (unhook o p).set x none

inductive Action where
  | construct (x : ℕ) (pfnOrig : Option PROC) (pfnHook : PROC)
  | rehook (x : ℕ)
  | unhook (x : ℕ)
  | destroy (x : ℕ)

/-- Calls on objects that do not exist, and a second construction, are no steps. -/
def step (p : Process) : Action → Process
  | .construct x pfnOrig pfnHook => if (p.objects x).isSome then p else construct x pfnOrig pfnHook p
  | .rehook x => ((p.objects x).map fun o => rehook o p).getD p
  | .unhook x => ((p.objects x).map fun o => unhook o p).getD p
  | .destroy x => ((p.objects x).map fun o => destroy x o p).getD p

/-- Before the first hook. -/
def unhooked (original : PROC → List Byte) : Process := ⟨fun _ => none, original⟩

/-! ## What is in the code -/

/-- The object `x` hooks `f`. -/
def Hooks (p : Process) (f : PROC) (x : ℕ) (o : CAPIHook) : Prop := p.objects x = some o ∧ o.m_pfnOrig = some f

/-- A function without hooks has its original bytes, and a jump in a hooked one leads to the hook function of an object
that exists. -/
structure Clean (original : PROC → List Byte) (p : Process) : Prop where
  restored : ∀ f, (∀ x o, ¬ Hooks p f x o) → p.code f = original f
  jumps : ∀ f pfnHook, p.code f = btNewBytes pfnHook → p.code f = original f ∨
    ∃ x o, Hooks p f x o ∧ o.m_btNewBytes = btNewBytes pfnHook

/-- What is written at `f`: the original bytes, or the jump of an object that hooks it and is none of `xs`. -/
def Kept (original : PROC → List Byte) (p : Process) (f : PROC) (xs : List ℕ) (bytes : List Byte) : Prop :=
  bytes = original f ∨ ∃ z o, z ∉ xs ∧ Hooks p f z o ∧ o.m_btNewBytes = bytes

/-- The code, and what every object keeps of it. -/
structure Sound (original : PROC → List Byte) (p : Process) : Prop where
  code : ∀ f, Kept original p f [] (p.code f)
  old : ∀ f x o, Hooks p f x o → Kept original p f [x] o.m_btOldBytes

/-- The destruction of an object leaves no other one with its jump for the original bytes. -/
def Unshared (original : PROC → List Byte) (p : Process) : Action → Prop
  | .destroy y => ∀ f o, Hooks p f y o → ∀ x o', x ≠ y → Hooks p f x o' → o'.m_btOldBytes = o.m_btNewBytes →
      Kept original p f [x, y] o'.m_btOldBytes
  | _ => True

variable {original : PROC → List Byte} {p p' : Process} {f : PROC} {bytes : List Byte}

theorem Kept.mono {xs ys : List ℕ} (h : Kept original p f xs bytes)
    (hhooks : ∀ z o, z ∉ xs → Hooks p f z o → o.m_btNewBytes = bytes → z ∉ ys ∧ Hooks p' f z o) : Kept original p' f ys bytes := by
  rcases h with h | ⟨z, o, hz, hhook, hnew⟩
  · exact Or.inl h
  · obtain ⟨hz', hhook'⟩ := hhooks z o hz hhook hnew
    exact Or.inr ⟨z, o, hz', hhook', hnew⟩

theorem clean_of_kept (h : ∀ f, Kept original p f [] (p.code f)) : Clean original p := by
  constructor
  · intro f hnone
    rcases h f with hcode | ⟨x, o, _, hhook, _⟩
    · exact hcode
    · exact absurd hhook (hnone x o)
  · intro f pfnHook hjump
    rcases h f with hcode | ⟨x, o, _, hhook, hcode⟩
    · exact Or.inl hcode
    · exact Or.inr ⟨x, o, hhook, hcode.trans hjump⟩

/-! ## What a step writes -/

@[simp] theorem write_objects (q : Option PROC) : (p.write q bytes).objects = p.objects := by
  cases q <;> rfl

@[simp] theorem write_self : (p.write (some f) bytes).code f = bytes := by
  unfold Process.write
  exact Function.update_self f bytes p.code

theorem write_other {q : Option PROC} (h : q ≠ some f) : (p.write q bytes).code f = p.code f := by
  cases q with
  | none => rfl
  | some g =>
    have hfg : f ≠ g := fun hfg => h (congrArg some hfg.symm)
    unfold Process.write
    exact Function.update_of_ne hfg bytes p.code

@[simp] theorem set_self (x : ℕ) (q : Option CAPIHook) : (p.set x q).objects x = q := by
  unfold Process.set
  exact Function.update_self x q p.objects

theorem set_other {x z : ℕ} (q : Option CAPIHook) (h : z ≠ x) : (p.set x q).objects z = p.objects z := by
  unfold Process.set
  exact Function.update_of_ne h q p.objects

theorem Hooks.set_other {x z : ℕ} {o : CAPIHook} {q : Option CAPIHook} (h : Hooks p f z o) (hz : z ≠ x) :
    Hooks (p.set x q) f z o := ⟨(Hook.set_other q hz).trans h.1, h.2⟩

theorem Hooks.set_self {x : ℕ} {o : CAPIHook} (h : o.m_pfnOrig = some f) : Hooks (p.set x (some o)) f x o :=
  ⟨Hook.set_self x (some o), h⟩

/-- The hooks after an object has changed: those of the others, and its own. -/
theorem hooks_set {x z : ℕ} {o : CAPIHook} {q : Option CAPIHook} (h : Hooks (p.set x q) f z o) :
    z ≠ x ∧ Hooks p f z o ∨ z = x ∧ q = some o ∧ o.m_pfnOrig = some f := by
  obtain ⟨hz, hf⟩ := h
  by_cases hzx : z = x
  · rw [hzx, set_self] at hz
    exact Or.inr ⟨hzx, hz, hf⟩
  · rw [set_other q hzx] at hz
    exact Or.inl ⟨hzx, hz, hf⟩

theorem hooks_write {q : Option PROC} {z : ℕ} {o : CAPIHook} : Hooks (p.write q bytes) f z o ↔ Hooks p f z o := by
  unfold Hooks
  rw [write_objects]

theorem Hooks.destroy {y z : ℕ} {o o' : CAPIHook} (h : Hooks p f z o) (hz : z ≠ y) : Hooks (destroy y o' p) f z o :=
  (hooks_write.2 h).set_other hz

theorem hooks_destroy {y z : ℕ} {o o' : CAPIHook} (h : Hooks (destroy y o' p) f z o) : z ≠ y ∧ Hooks p f z o := by
  rcases hooks_set h with ⟨hzy, h⟩ | ⟨_, ho, _⟩
  · exact ⟨hzy, hooks_write.1 h⟩
  · exact absurd ho nofun

theorem Hooks.unique {z : ℕ} {o o' : CAPIHook} (h : Hooks p f z o) (h' : p.objects z = some o') : o = o' :=
  Option.some.inj (h.1.symm.trans h')

theorem sound_write (h : Sound original p) {q : Option PROC} (hbytes : ∀ f, q = some f → Kept original p f [] bytes) :
    Sound original (p.write q bytes) := by
  have hkept : ∀ {f xs bs}, Kept original p f xs bs → Kept original (p.write q bytes) f xs bs := fun hk =>
    hk.mono fun z o hz hhook _ => ⟨hz, hooks_write.2 hhook⟩
  constructor
  · intro f
    by_cases hf : q = some f
    · rw [hf, write_self, ← hf]
      exact hkept (hbytes f hf)
    · rw [write_other hf]
      exact hkept (h.code f)
  · exact fun f x o hhook => hkept (h.old f x o (hooks_write.1 hhook))

theorem sound_construct (h : Sound original p) {x : ℕ} (hx : p.objects x = none) (pfnOrig : Option PROC) (pfnHook : PROC) :
    Sound original (construct x pfnOrig pfnHook p) := by
  let o : CAPIHook := ⟨pfnOrig, btNewBytes pfnHook, (pfnOrig.map p.code).getD [], pfnHook, rfl⟩
  have hother : ∀ {f z o'}, Hooks p f z o' → z ≠ x := fun hhook hzx => by
    rw [hzx, Hooks, hx] at hhook
    exact absurd hhook.1 nofun
  have hkeep : ∀ {f z o'}, Hooks p f z o' → Hooks (construct x pfnOrig pfnHook p) f z o' := fun hhook =>
    (hooks_write.2 hhook).set_other (hother hhook)
  have hown : ∀ {f}, pfnOrig = some f → Hooks (construct x pfnOrig pfnHook p) f x o := fun hf => Hooks.set_self hf
  constructor
  · intro f
    show Kept original _ f [] ((p.write pfnOrig (btNewBytes pfnHook)).code f)
    by_cases hf : pfnOrig = some f
    · refine Or.inr ⟨x, o, List.not_mem_nil, hown hf, ?_⟩
      rw [hf, write_self]
    · rw [write_other hf]
      exact (h.code f).mono fun z o' hz hhook _ => ⟨hz, hkeep hhook⟩
  · intro f z o' hhook
    rcases hooks_set hhook with ⟨_, hhook⟩ | ⟨rfl, ho, hf⟩
    · exact (h.old f z o' (hooks_write.1 hhook)).mono fun w o'' hw hhook' _ => ⟨hw, hkeep hhook'⟩
    · -- the new object keeps the code that it found, and no object that was there before is the new one
      rw [← Option.some.inj ho] at hf ⊢
      have hold : ((pfnOrig.map p.code).getD []) = p.code f := by
        rw [show pfnOrig = some f from hf]
        rfl
      rw [hold]
      exact (h.code f).mono fun w o'' _ hhook' _ => ⟨fun hw => hother hhook' (List.mem_singleton.1 hw), hkeep hhook'⟩

/-- After a destruction the code is what the object kept, which names another object. -/
theorem kept_destroy (h : Sound original p) {y : ℕ} {o : CAPIHook} (hy : p.objects y = some o) (f : PROC) :
    Kept original (destroy y o p) f [] ((destroy y o p).code f) := by
  show Kept original _ f [] ((p.write o.m_pfnOrig o.m_btOldBytes).code f)
  by_cases hf : o.m_pfnOrig = some f
  · rw [hf, write_self]
    exact (h.old f y o ⟨hy, hf⟩).mono fun z o' hz hhook _ =>
      ⟨List.not_mem_nil, hhook.destroy fun hzy => hz (List.mem_singleton.2 hzy)⟩
  · rw [write_other hf]
    refine (h.code f).mono fun z o' _ hhook _ => ⟨List.not_mem_nil, hhook.destroy fun hzy => ?_⟩
    subst hzy
    exact hf ((hhook.unique hy) ▸ hhook.2)

theorem sound_destroy (h : Sound original p) {y : ℕ} {o : CAPIHook} (hy : p.objects y = some o)
    (hok : Unshared original p (.destroy y)) : Sound original (destroy y o p) := by
  refine ⟨kept_destroy h hy, fun f x o' hhook => ?_⟩
  obtain ⟨hxy, hx⟩ := hooks_destroy hhook
  rcases h.old f x o' hx with hold | ⟨z, o₁, hz, hhook₁, hnew⟩
  · exact Or.inl hold
  · by_cases hzy : z = y
    · -- its jump is the one of the object that goes: the condition gives another one
      subst hzy
      exact (hok f o₁ hhook₁ x o' hxy hx hnew.symm).mono fun w o₂ hw hhook₂ _ =>
        ⟨fun hwx => hw (List.mem_cons.2 (Or.inl (List.mem_singleton.1 hwx))),
          hhook₂.destroy fun hwz => hw (List.mem_cons_of_mem x (List.mem_singleton.2 hwz))⟩
    · exact Or.inr ⟨z, o₁, hz, hhook₁.destroy hzy, hnew⟩

/-! ## Runs -/

theorem sound_step (a : Action) (h : Sound original p) (hok : Unshared original p a) : Sound original (step p a) := by
  cases a with
  | construct x pfnOrig pfnHook =>
    show Sound original (if (p.objects x).isSome then p else construct x pfnOrig pfnHook p)
    split
    · exact h
    · next hx => exact sound_construct h (Option.not_isSome_iff_eq_none.1 hx) pfnOrig pfnHook
  | rehook x =>
    show Sound original (((p.objects x).map fun o => rehook o p).getD p)
    cases hx : p.objects x with
    | none => exact h
    | some o => exact sound_write h fun f hf => Or.inr ⟨x, o, List.not_mem_nil, ⟨hx, hf⟩, rfl⟩
  | unhook x =>
    show Sound original (((p.objects x).map fun o => unhook o p).getD p)
    cases hx : p.objects x with
    | none => exact h
    | some o =>
      exact sound_write h fun f hf => (h.old f x o ⟨hx, hf⟩).mono fun z o' _ hhook _ => ⟨List.not_mem_nil, hhook⟩
  | destroy y =>
    show Sound original (((p.objects y).map fun o => destroy y o p).getD p)
    cases hy : p.objects y with
    | none => exact h
    | some o => exact sound_destroy h hy hok

theorem step_destroy {y : ℕ} {o : CAPIHook} (hy : p.objects y = some o) : step p (.destroy y) = destroy y o p := by
  show ((p.objects y).map fun o => destroy y o p).getD p = destroy y o p
  rw [hy]
  rfl

/-- Whatever is destroyed, the code is clean right after it. -/
theorem clean_step (a : Action) (h : Sound original p) : Clean original (step p a) := by
  cases a with
  | construct x pfnOrig pfnHook => exact clean_of_kept (sound_step (.construct x pfnOrig pfnHook) h trivial).code
  | rehook x => exact clean_of_kept (sound_step (.rehook x) h trivial).code
  | unhook x => exact clean_of_kept (sound_step (.unhook x) h trivial).code
  | destroy y =>
    cases hy : p.objects y with
    | none =>
      rw [show step p (.destroy y) = p by show ((p.objects y).map _).getD p = p; rw [hy]; rfl]
      exact clean_of_kept h.code
    | some o =>
      rw [step_destroy hy]
      exact clean_of_kept (kept_destroy h hy)

theorem sound_unhooked (original : PROC → List Byte) : Sound original (unhooked original) :=
  ⟨fun _ => Or.inl rfl, fun _ _ _ hhook => absurd hhook.1 nofun⟩

/-- The destruction that the condition forbids leaves an object whose own destruction brings a dead jump back. -/
theorem unshared_of_clean {y : ℕ} (hclean : ∀ a, Clean original (step (step p (.destroy y)) a)) :
    Unshared original p (.destroy y) := by
  intro f o hy x o' hxy hx hshared
  have hx' : Hooks (destroy y o p) f x o' := hx.destroy hxy
  have hcode : (destroy x o' (destroy y o p)).code f = o'.m_btOldBytes := by
    show ((destroy y o p).write o'.m_pfnOrig o'.m_btOldBytes).code f = _
    rw [hx.2, write_self]
  have hjumps := (hclean (.destroy x)).jumps f
  rw [step_destroy hy.1, step_destroy hx'.1, hcode] at hjumps
  obtain ⟨pfnHook, hjump⟩ := o.jump
  rcases hjumps pfnHook (hshared.trans hjump) with hold | ⟨w, o₁, hw, hnew⟩
  · exact Or.inl hold
  · obtain ⟨hwx, hw⟩ := hooks_destroy hw
    obtain ⟨hwy, hw⟩ := hooks_destroy hw
    have hnot : w ∉ [x, y] := fun hmem => (List.mem_pair.1 hmem).elim hwx hwy
    exact Or.inr ⟨w, o₁, hnot, hw, hnew.trans (hjump.symm.trans hshared.symm)⟩

/-- Every run in which no object is destroyed whose jump another one keeps for the original bytes stays clean; where
such an object is destroyed, the run can go on to a state that is not clean. -/
theorem apiHook_clean (original : PROC → List Byte) (actions : List Action)
    (hok : Meets step (Unshared original) (unhooked original) actions) :
    Clean original (actions.foldl step (unhooked original)) ∧
      ∀ y, Unshared original (actions.foldl step (unhooked original)) (.destroy y) ↔
        ∀ a, Clean original (step (step (actions.foldl step (unhooked original)) (.destroy y)) a) := by
  have hsound := hok.run (fun _ a h hmeets => sound_step a h hmeets) (sound_unhooked original)
  exact ⟨clean_of_kept hsound.code, fun y =>
    ⟨fun hshared a => clean_step a (sound_step (.destroy y) hsound hshared), unshared_of_clean⟩⟩

/-- `mov edi, edi; push ebp; mov ebp, esp; sub esp, 8`. -/
def prologue : List Byte := [0x8B, 0xFF, 0x55, 0x8B, 0xEC, 0x83, 0xEC, 0x08]

/-- Two hooks on one function, the last one destroyed first. -/
def lastGoesFirst : List Action := [.construct 0 (some 0x1000) 0x2000, .construct 1 (some 0x1000) 0x3000, .destroy 1, .destroy 0]

theorem lastGoesFirst_clean : Clean (fun _ => prologue) (lastGoesFirst.foldl step (unhooked fun _ => prologue)) := by
  suffices hmeets : Meets step (Unshared fun _ => prologue) (unhooked fun _ => prologue) lastGoesFirst from
    (apiHook_clean (fun _ => prologue) lastGoesFirst hmeets).1
  refine ⟨trivial, trivial, fun f o _ x o' hx hhook _ => ?_, fun f o _ x o' hx hhook _ => ?_, trivial⟩
  · rcases hooks_set hhook with ⟨_, hhook⟩ | ⟨hx', _, _⟩
    · rcases hooks_set (hooks_write.1 hhook) with ⟨_, hhook⟩ | ⟨_, ho, _⟩
      · exact absurd (hooks_write.1 hhook).1 nofun
      · rw [← Option.some.inj ho]
        exact Or.inl rfl
    · exact absurd hx' hx
  · obtain ⟨hx₁, hhook⟩ := hooks_destroy hhook
    rcases hooks_set hhook with ⟨_, hhook⟩ | ⟨hx', _, _⟩
    · rcases hooks_set (hooks_write.1 hhook) with ⟨_, hhook⟩ | ⟨hx', _, _⟩
      · exact absurd (hooks_write.1 hhook).1 nofun
      · exact absurd hx' hx
    · exact absurd hx' hx₁

/-- Two hooks on one function, the first one destroyed first: the jump to its hook function comes back. -/
def firstGoesFirst : List Action := [.construct 0 (some 0x1000) 0x2000, .construct 1 (some 0x1000) 0x3000, .destroy 0, .destroy 1]

theorem firstGoesFirst_stale : ¬ Clean (fun _ => prologue) (firstGoesFirst.foldl step (unhooked fun _ => prologue)) := by
  intro h
  have hcode := h.restored 0x1000 fun x o hhook => ?_
  · revert hcode
    decide
  · obtain ⟨hx₁, hhook⟩ := hooks_destroy hhook
    obtain ⟨hx₀, hhook⟩ := hooks_destroy hhook
    rcases hooks_set hhook with ⟨_, hhook⟩ | ⟨hx, _, _⟩
    · rcases hooks_set (hooks_write.1 hhook) with ⟨_, hhook⟩ | ⟨hx, _, _⟩
      · exact absurd (hooks_write.1 hhook).1 nofun
      · exact hx₀ hx
    · exact hx₁ hx

end StarLib.Hook
