import StarLib.Foundations.Layouts
import StarLib.Foundations.Runs

/-! # `CHookClass`

`Create` keeps the first five bytes of a function, `Change` writes a jump over them and `Restore` writes them back. The
results of the calls of the system are arguments; a read or a write that fails copies nothing.
-/

namespace StarLib.Hook.Class
open Foundations
set_option autoImplicit false
set_option maxHeartbeats 250000
set_option maxRecDepth 120000

/-- `JmpCode` and `FuncAddr`. -/
abbrev LONGJMP := Byte × DWord

def LONGJMP.layout : Layout LONGJMP := Layout.ofByte.pair Layout.word

/-- `hProcess` says whether there is a handle, and `Oldcode` has its five bytes in the form of a jump. -/
structure CHookClass where
  hProcess : Bool
  Oldcode : LONGJMP
  Newcode : LONGJMP
  bTrapped : Bool
  OldFunction : DWord
  NewFunction : DWord

structure Process where
  object : CHookClass
  memory : Ram

/-- The five bytes at a function. -/
def Process.code (p : Process) (f : DWord) : LONGJMP := LONGJMP.layout.load p.memory f.toNat

/-- Where `jmp [...]` leads, which is the instruction `FF 25`; the address in `IMPORTCODE` is aligned. -/
def getFuncRealBase (memory : Ram) (pFunc : DWord) : DWord :=
  if pFunc = 0 then pFunc
  else if memory pFunc.toNat = 0xFF ∧ memory (pFunc.toNat + 1) = 0x25 then
    Layout.word.load memory (Layout.word.load memory (pFunc.toNat + 4)).toNat
  else pFunc

/-- `jmp NewFunction`, at `OldFunction`. -/
def jump (OldFunction NewFunction : DWord) : LONGJMP := (0xE9, NewFunction - OldFunction - 5)

def create (OldFun NewFun : DWord) (opened read : Bool) (p : Process) : Process :=
  let NewFunction := getFuncRealBase p.memory NewFun
  { p with
    object :=
      { hProcess := opened
        Oldcode := if opened && read then p.code OldFun else p.object.Oldcode
        Newcode := jump OldFun NewFunction
        bTrapped := false
        OldFunction := OldFun
        NewFunction := NewFunction } }

/-- There is something to write to. -/
def CHookClass.Usable (o : CHookClass) : Prop := o.hProcess = true ∧ o.OldFunction ≠ 0 ∧ o.NewFunction ≠ 0

instance (o : CHookClass) : Decidable o.Usable := inferInstanceAs (Decidable (_ ∧ _))

def Process.write (p : Process) (written : Bool) (code : LONGJMP) : Ram :=
  if written then LONGJMP.layout.store p.object.OldFunction.toNat code p.memory else p.memory

def restore (written : Bool) (p : Process) : Process :=
  if p.object.bTrapped = true ∧ p.object.Usable then ⟨{ p.object with bTrapped := false }, p.write written p.object.Oldcode⟩ else p

def change (written : Bool) (p : Process) : Process :=
  if p.object.bTrapped = false ∧ p.object.Usable then ⟨{ p.object with bTrapped := true }, p.write written p.object.Newcode⟩ else p

/-- The memory after the destructor. -/
def destroy (written : Bool) (p : Process) : Ram := if p.object.bTrapped then (restore written p).memory else p.memory

inductive Action where
  | create (OldFun NewFun : DWord) (opened read : Bool)
  | change (written : Bool)
  | restore (written : Bool)

def step (p : Process) : Action → Process
  | .create OldFun NewFun opened read => create OldFun NewFun opened read p
  | .change written => change written p
  | .restore written => restore written p

/-! ## The flag and the memory -/

/-- The flag says whether the jump is there, and the destructor leaves the memory as it was. -/
structure Good (memory : Ram) (p : Process) : Prop where
  flag : p.object.bTrapped = true ↔ p.code p.object.OldFunction = p.object.Newcode
  destroyed : destroy true p = memory

/-- A function that is hooked anew is no longer trapped and has another code than the jump; what is written is
written, over the code that is kept. -/
def Safe (p : Process) : Action → Prop
  | .create OldFun NewFun _ _ => p.object.bTrapped = false ∧ p.code OldFun ≠ jump OldFun (getFuncRealBase p.memory NewFun)
  | .change written => p.object.bTrapped = false → p.object.Usable →
      written = true ∧ p.object.Oldcode = p.code p.object.OldFunction
  | .restore written => p.object.bTrapped = true → written = true

/-- What calls leave behind. -/
structure Sound (memory : Ram) (p : Process) : Prop where
  free : p.object.bTrapped = false → p.memory = memory ∧ p.code p.object.OldFunction ≠ p.object.Newcode
  trapped : p.object.bTrapped = true → p.object.Usable ∧ p.code p.object.OldFunction = p.object.Newcode ∧
    p.object.Oldcode ≠ p.object.Newcode ∧ LONGJMP.layout.store p.object.OldFunction.toNat p.object.Oldcode p.memory = memory

variable {memory : Ram} {p : Process}

theorem Sound.good (h : Sound memory p) : Good memory p := by
  constructor
  · cases htrap : p.object.bTrapped with
    | false => exact ⟨fun heq => absurd heq Bool.false_ne_true, fun hjump => absurd hjump (h.free htrap).2⟩
    | true => exact ⟨fun _ => (h.trapped htrap).2.1, fun _ => rfl⟩
  · unfold destroy
    cases htrap : p.object.bTrapped with
    | false => exact (h.free htrap).1
    | true =>
      obtain ⟨husable, _, _, hstore⟩ := h.trapped htrap
      rw [if_pos rfl, restore, if_pos ⟨htrap, husable⟩]
      exact hstore

/-- A changed function does not have the code it had. -/
theorem Sound.patched (h : Sound memory p) (htrap : p.object.bTrapped = true) : p.memory ≠ memory := by
  obtain ⟨_, hjump, hold, hstore⟩ := h.trapped htrap
  intro heq
  have hcode : LONGJMP.layout.load memory p.object.OldFunction.toNat = p.object.Oldcode := by
    rw [← hstore, Layout.load_store]
  rw [← heq] at hcode
  exact hold (hcode.symm.trans hjump)

/-! ## The calls -/

theorem sound_create {OldFun NewFun : DWord} (opened read : Bool) (hmem : p.memory = memory)
    (hjump : p.code OldFun ≠ jump OldFun (getFuncRealBase p.memory NewFun)) :
    Sound memory (create OldFun NewFun opened read p) :=
  ⟨fun _ => ⟨hmem, hjump⟩, fun htrap => absurd htrap Bool.false_ne_true⟩

theorem good_create {OldFun NewFun : DWord} {opened read : Bool} (h : Good memory (create OldFun NewFun opened read p)) :
    p.memory = memory ∧ p.code OldFun ≠ jump OldFun (getFuncRealBase p.memory NewFun) :=
  ⟨h.destroyed, fun hjump => absurd (h.flag.2 hjump) Bool.false_ne_true⟩

theorem sound_change (h : Sound memory p) {written : Bool} (hsafe : Safe p (.change written)) :
    Sound memory (change written p) := by
  unfold change
  split
  · next hdo =>
    obtain ⟨rfl, hold⟩ := hsafe hdo.1 hdo.2
    obtain ⟨hmem, hjump⟩ := h.free hdo.1
    refine ⟨fun htrap => Bool.noConfusion htrap, fun _ => ⟨hdo.2, LONGJMP.layout.load_store _ _ _, hold ▸ hjump, ?_⟩⟩
    show LONGJMP.layout.store p.object.OldFunction.toNat p.object.Oldcode (p.write true p.object.Newcode) = memory
    rw [hold, ← hmem]
    exact LONGJMP.layout.store_back _ _ _
  · exact h

theorem good_change (h : Sound memory p) {written : Bool} (hgood : Good memory (change written p)) : Safe p (.change written) := by
  intro htrap husable
  obtain ⟨hmem, hjump⟩ := h.free htrap
  have hdo : change written p = ⟨{ p.object with bTrapped := true }, p.write written p.object.Newcode⟩ := if_pos ⟨htrap, husable⟩
  rw [hdo] at hgood
  cases written with
  | false => exact absurd (hgood.flag.1 rfl) hjump
  | true =>
    refine ⟨rfl, ?_⟩
    have hrestored : LONGJMP.layout.store p.object.OldFunction.toNat p.object.Oldcode (p.write true p.object.Newcode) = memory := by
      have hdestroyed := hgood.destroyed
      unfold destroy at hdestroyed
      rw [if_pos rfl, restore, if_pos ⟨rfl, husable⟩] at hdestroyed
      exact hdestroyed
    unfold Process.code
    rw [hmem, ← hrestored, Layout.load_store]

theorem sound_restore (h : Sound memory p) {written : Bool} (hsafe : Safe p (.restore written)) :
    Sound memory (restore written p) := by
  unfold restore
  split
  · next hdo =>
    obtain rfl := hsafe hdo.1
    obtain ⟨_, _, hold, hstore⟩ := h.trapped hdo.1
    refine ⟨fun _ => ⟨hstore, fun hjump => hold ?_⟩, fun htrap => absurd htrap Bool.false_ne_true⟩
    exact (LONGJMP.layout.load_store _ _ _).symm.trans hjump
  · exact h

theorem good_restore (h : Sound memory p) {written : Bool} (hgood : Good memory (restore written p)) : Safe p (.restore written) := by
  intro htrap
  obtain ⟨husable, hjump, _, _⟩ := h.trapped htrap
  have hdo : restore written p = ⟨{ p.object with bTrapped := false }, p.write written p.object.Oldcode⟩ := if_pos ⟨htrap, husable⟩
  rw [hdo] at hgood
  cases written with
  | false => exact absurd (hgood.flag.2 hjump) Bool.false_ne_true
  | true => rfl

theorem sound_step (a : Action) (h : Sound memory p) (hsafe : Safe p a) : Sound memory (step p a) := by
  cases a with
  | create OldFun NewFun opened read => exact sound_create opened read (h.free hsafe.1).1 hsafe.2
  | change written => exact sound_change h hsafe
  | restore written => exact sound_restore h hsafe

/-- The condition is all that a call needs. -/
theorem safe_iff (a : Action) (h : Sound memory p) : Safe p a ↔ Good memory (step p a) := by
  refine ⟨fun hsafe => (sound_step a h hsafe).good, fun hgood => ?_⟩
  cases a with
  | create OldFun NewFun opened read =>
    obtain ⟨hmem, hjump⟩ := good_create hgood
    refine ⟨?_, hjump⟩
    cases htrap : p.object.bTrapped with
    | false => rfl
    | true => exact absurd hmem (h.patched htrap)
  | change written => exact good_change h hgood
  | restore written => exact good_restore h hgood

/-- The state is good after every call. -/
def GoodRun (p : Process) (actions : List Action) : Prop := Meets step (fun q a => Good p.memory (step q a)) p actions

theorem goodRun_create (p : Process) (OldFun NewFun : DWord) (opened read : Bool) (actions : List Action) :
    GoodRun p (.create OldFun NewFun opened read :: actions) ↔
      p.code OldFun ≠ jump OldFun (getFuncRealBase p.memory NewFun) ∧
        Meets step Safe (create OldFun NewFun opened read p) actions := by
  have hrun : ∀ hjump : p.code OldFun ≠ jump OldFun (getFuncRealBase p.memory NewFun),
      Meets step Safe (create OldFun NewFun opened read p) actions ↔
        Meets step (fun q a => Good p.memory (step q a)) (create OldFun NewFun opened read p) actions := fun hjump =>
    meets_congr (fun q a => sound_step a) (fun q a => safe_iff a) (sound_create opened read rfl hjump)
  constructor
  · rintro ⟨hgood, hmeets⟩
    have hjump := (good_create hgood).2
    exact ⟨hjump, (hrun hjump).2 hmeets⟩
  · rintro ⟨hjump, hmeets⟩
    exact ⟨(sound_create opened read rfl hjump).good, (hrun hjump).1 hmeets⟩

/-- What the members can be when nothing has set them: no handle, and a flag that is set. -/
def unset (memory : Ram) : CHookClass where
  hProcess := false
  Oldcode := (0, 0)
  Newcode := ((LONGJMP.layout.load memory 0).1 + 1, 0)
  bTrapped := true
  OldFunction := 0
  NewFunction := 0

theorem unset_not_good (memory : Ram) : ¬ Good memory ⟨unset memory, memory⟩ := by
  intro h
  have hcode : (LONGJMP.layout.load memory 0).1 = (LONGJMP.layout.load memory 0).1 + 1 := congrArg Prod.fst (h.flag.1 rfl)
  exact absurd (BitVec.self_eq_add_right.1 hcode) (by decide)

/-- A run that begins with a `Create` is good if and only if its calls meet the condition, whatever the members were
before; a run that begins with another call can be bad. -/
theorem hookClass_iff (memory : Ram) :
    (∀ object OldFun NewFun opened read actions,
      GoodRun ⟨object, memory⟩ (.create OldFun NewFun opened read :: actions) ↔
        (Process.mk object memory).code OldFun ≠ jump OldFun (getFuncRealBase memory NewFun) ∧
          Meets step Safe (create OldFun NewFun opened read ⟨object, memory⟩) actions) ∧
    ∀ written actions, (∃ object, ¬ GoodRun ⟨object, memory⟩ (.change written :: actions)) ∧
      ∃ object, ¬ GoodRun ⟨object, memory⟩ (.restore written :: actions) := by
  refine ⟨fun object => goodRun_create ⟨object, memory⟩, fun written actions => ⟨⟨unset memory, ?_⟩, ⟨unset memory, ?_⟩⟩⟩
  · rintro ⟨hgood, _⟩
    exact unset_not_good memory hgood
  · rintro ⟨hgood, _⟩
    exact unset_not_good memory hgood

/-- An object before its first `Create`, in a memory of zeros. -/
def created : Process := ⟨⟨false, (0, 0), (0, 0), false, 0, 0⟩, fun _ => 0⟩

/-- A write that fails in `Change`: the flag says that the jump is there. -/
theorem change_unwritten : ¬ GoodRun created [.create 0x1000 0x2000 true true, .change false] := by
  rintro ⟨_, hgood, _⟩
  have hcode := hgood.flag.1 rfl
  revert hcode
  decide

end StarLib.Hook.Class
