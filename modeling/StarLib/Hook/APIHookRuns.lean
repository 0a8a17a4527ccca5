import StarLib.Foundations.Ascii
import StarLib.Foundations.Runs
import StarLib.Hook.APIHookNew

/-! # The slots of hooked functions

A slot has its original address or the hook of an object that hooks its function. The replacement of an address finds
all slots that have it, as long as they belong to one function that the module imports once.
-/

namespace StarLib.Hook.New
open Foundations
set_option autoImplicit false
set_option maxHeartbeats 250000
set_option maxRecDepth 120000

variable {fold : CString → CString} {p : Process} {o : CAPIHook_New} {x : ℕ} {pszExportMod : CString}
  {pfnCurrent pfnNew f : PROC}

/-! ## The slots of a function -/

/-- The entry `t` is in the table of the descriptor `d` of a module. -/
def Slot (m : Module) (d : ImportDescriptor) (t : Thunk) : Prop := d ∈ m.imports ∧ t ∈ d.thunks

/-- The object hooks the function that the loader has put into the slot. -/
def Hooks (fold : CString → CString) (o : CAPIHook_New) (d : ImportDescriptor) (t : Thunk) : Prop :=
  fold d.Name = fold o.m_pszModName ∧ t.imported = o.m_pfnOrig

/-- The object leaves the module alone. -/
def Excludes (hModThis : HMODULE) (o : CAPIHook_New) (m : Module) : Prop := o.m_bExcludeAPIHookMod = true ∧ m.hModule = hModThis

/-- Every slot has its original address, and no hook of `done` that concerns it, or the address of an object of `live`
that hooks it. -/
def Tidy (fold : CString → CString) (hModThis : HMODULE) (live done : CAPIHook_New → Prop) (m : Module) : Prop :=
  ∀ d t, Slot m d t → (t.Function = t.imported ∧ ∀ o, done o → Hooks fold o d t → Excludes hModThis o m) ∨
    ∃ o, live o ∧ Hooks fold o d t ∧ ¬ Excludes hModThis o m ∧ t.Function = o.m_pfnHook

/-- The module imports the function of a hook at most once, and no hook function. -/
def Fit (fold : CString → CString) (o : CAPIHook_New) (m : Module) : Prop :=
  ImportedOnce fold o.m_pszModName o.m_pfnOrig (m.imports.map ImportDescriptor.loaded) ∧
    ∀ d ∈ m.imports.map ImportDescriptor.loaded, o.m_pfnHook ∉ d.2

variable {hModThis : HMODULE} {live live' done : CAPIHook_New → Prop} {m : Module} {d : ImportDescriptor} {t : Thunk}

theorem Fit.imported (h : Fit fold o m) (hslot : Slot m d t) : t.imported ≠ o.m_pfnHook := fun heq =>
  h.2 d.loaded (List.mem_map_of_mem hslot.1) (heq ▸ List.mem_map_of_mem hslot.2)

theorem Tidy.mono (h : Tidy fold hModThis live done m) {live' done' : CAPIHook_New → Prop} (hlive : ∀ o, live o → live' o)
    (hdone : ∀ o, done' o → done o ∨ ∀ d t, Slot m d t → Hooks fold o d t → Excludes hModThis o m) :
    Tidy fold hModThis live' done' m := by
  intro d t hslot
  rcases h d t hslot with ⟨hfun, hnone⟩ | ⟨o, ho, hhook⟩
  · refine Or.inl ⟨hfun, fun o ho hhook => ?_⟩
    rcases hdone o ho with ho | hexcl
    · exact hnone o ho hhook
    · exact hexcl d t hslot hhook
  · exact Or.inr ⟨o, hlive o ho, hhook⟩

theorem Tidy.ne_zero (h : Tidy fold hModThis live done m) (hnull : ∀ o, live o → o.m_pfnHook ≠ 0) (hslot : Slot m d t) :
    t.Function ≠ 0 := by
  rcases h d t hslot with ⟨hfun, _⟩ | ⟨o, ho, _, _, hfun⟩
  · rw [hfun]
    exact t.imported_ne
  · rw [hfun]
    exact hnull o ho

variable {chosen : HMODULE → Prop} [DecidablePred chosen]

theorem replaceIn_other (h : ¬ chosen m.hModule) : replaceIn fold chosen pszExportMod pfnCurrent pfnNew m = m := if_neg h

theorem replaceIn_hModule : (replaceIn fold chosen pszExportMod pfnCurrent pfnNew m).hModule = m.hModule := by
  unfold replaceIn
  split <;> rfl

theorem fit_replaceIn : Fit fold o (replaceIn fold chosen pszExportMod pfnCurrent pfnNew m) ↔ Fit fold o m := by
  unfold replaceIn Fit
  split
  · rw [replaceIATEntryInOneMod_loaded]
  · rfl

theorem slot_replaceIn (hchosen : chosen m.hModule)
    (honce : ImportedOnce fold pszExportMod f (m.imports.map ImportDescriptor.loaded))
    (hzero : ∀ d t, Slot m d t → t.Function ≠ 0)
    (himported : ∀ d t, Slot m d t → fold d.Name = fold pszExportMod → t.Function = pfnCurrent → t.imported = f)
    (hslot : Slot (replaceIn fold chosen pszExportMod pfnCurrent pfnNew m) d t) :
    ∃ d₀ t₀, Slot m d₀ t₀ ∧ d.Name = d₀.Name ∧ t.imported = t₀.imported ∧
      (fold d₀.Name = fold pszExportMod ∧ t₀.Function = pfnCurrent ∧ t.Function = pfnNew ∨
        ¬ (fold d₀.Name = fold pszExportMod ∧ t₀.Function = pfnCurrent) ∧ t.Function = t₀.Function) := by
  unfold replaceIn at hslot
  rw [if_pos hchosen] at hslot
  obtain ⟨hd, ht⟩ := hslot
  rw [replaceIATEntryInOneMod_eq honce (fun d hd t ht => hzero d t ⟨hd, ht⟩)
    (fun d hd hname t ht => himported d t ⟨hd, ht⟩ hname)] at hd
  obtain ⟨d₀, hd₀, rfl⟩ := List.mem_map.1 hd
  unfold ImportDescriptor.redirect at ht ⊢
  by_cases hname : fold d₀.Name = fold pszExportMod
  · rw [if_pos hname] at ht ⊢
    obtain ⟨t₀, ht₀, rfl⟩ := List.mem_map.1 ht
    refine ⟨d₀, t₀, ⟨hd₀, ht₀⟩, rfl, redirect_imported t₀, ?_⟩
    rw [redirect_function]
    by_cases hfun : t₀.Function = pfnCurrent
    · rw [if_pos hfun]
      exact Or.inl ⟨hname, hfun, rfl⟩
    · rw [if_neg hfun]
      exact Or.inr ⟨fun hand => hfun hand.2, rfl⟩
  · rw [if_neg hname] at ht ⊢
    exact ⟨d₀, t, ⟨hd₀, ht⟩, rfl, rfl, Or.inr ⟨fun hand => hname hand.1, rfl⟩⟩

theorem excludes_replaceIn :
    Excludes hModThis o (replaceIn fold chosen pszExportMod pfnCurrent pfnNew m) ↔ Excludes hModThis o m := by
  unfold Excludes
  rw [replaceIn_hModule]

theorem Hooks.congr {d₀ : ImportDescriptor} {t₀ : Thunk} (hname : d.Name = d₀.Name) (himported : t.imported = t₀.imported) :
    Hooks fold o d t ↔ Hooks fold o d₀ t₀ := by
  unfold Hooks
  rw [hname, himported]

/-- The objects are those of one process: their functions are not null, and no module imports them. -/
structure Company (fold : CString → CString) (live : CAPIHook_New → Prop) (m : Module) : Prop where
  notNull : ∀ o, live o → o.m_pfnHook ≠ 0
  fit : ∀ o, live o → Fit fold o m

/-- The slots after an object's hook is put in: those that change are slots of its function. -/
theorem Tidy.hook_slot (h : Tidy fold hModThis live done m) (hcompany : Company fold live m) (ho : live o)
    (hchosen : chosen m.hModule)
    (hpair : ∀ o', live o' → fold o.m_pszModName = fold o'.m_pszModName → o.m_pfnOrig = o'.m_pfnHook → o' = o)
    (hslot : Slot (replaceIn fold chosen o.m_pszModName o.m_pfnOrig o.m_pfnHook m) d t) :
    ∃ d₀ t₀, Slot m d₀ t₀ ∧ d.Name = d₀.Name ∧ t.imported = t₀.imported ∧
      (Hooks fold o d₀ t₀ ∧ t₀.Function = t₀.imported ∧ t.Function = o.m_pfnHook ∨
        ¬ (fold d₀.Name = fold o.m_pszModName ∧ t₀.Function = o.m_pfnOrig) ∧ t.Function = t₀.Function) := by
  have himported : ∀ d t, Slot m d t → fold d.Name = fold o.m_pszModName → t.Function = o.m_pfnOrig →
      t.imported = o.m_pfnOrig := by
    intro d t hslot hname hfun
    rcases h d t hslot with ⟨himp, _⟩ | ⟨o', ho', hhook, _, hfun'⟩
    · exact himp.symm.trans hfun
    · obtain rfl := hpair o' ho' (hname.symm.trans hhook.1) (hfun.symm.trans hfun')
      exact hhook.2
  obtain ⟨d₀, t₀, hslot₀, hname, himp, hcase⟩ := slot_replaceIn hchosen (hcompany.fit o ho).1
    (fun d t hslot => h.ne_zero hcompany.notNull hslot) himported hslot
  refine ⟨d₀, t₀, hslot₀, hname, himp, ?_⟩
  rcases hcase with ⟨hmod, hcur, hnew⟩ | hsame
  · have himp₀ := himported d₀ t₀ hslot₀ hmod hcur
    exact Or.inl ⟨⟨hmod, himp₀⟩, hcur.trans himp₀.symm, hnew⟩
  · exact Or.inr hsame

theorem Tidy.hook (h : Tidy fold hModThis live done m) (hcompany : Company fold live m) (ho : live o)
    (hchosen : chosen m.hModule) (hexcl : ∀ d t, Slot m d t → t.Function = t.imported → Hooks fold o d t → ¬ Excludes hModThis o m)
    (hpair : ∀ o', live o' → fold o.m_pszModName = fold o'.m_pszModName → o.m_pfnOrig = o'.m_pfnHook → o' = o) :
    Tidy fold hModThis live (fun o' => done o' ∨ o' = o) (replaceIn fold chosen o.m_pszModName o.m_pfnOrig o.m_pfnHook m) := by
  intro d t hslot
  obtain ⟨d₀, t₀, hslot₀, hname, himp, hcase⟩ := h.hook_slot hcompany ho hchosen hpair hslot
  simp only [excludes_replaceIn, Hooks.congr hname himp]
  rcases hcase with ⟨hhook, hopen, hnew⟩ | ⟨hnot, hsame⟩
  · exact Or.inr ⟨o, ho, hhook, hexcl d₀ t₀ hslot₀ hopen hhook, hnew⟩
  · rcases h d₀ t₀ hslot₀ with ⟨hfun, hnone⟩ | ⟨o', ho', hhook, hex, hfun⟩
    · refine Or.inl ⟨hsame.trans (hfun.trans himp.symm), fun o' ho' hhook => ?_⟩
      rcases ho' with ho' | rfl
      · exact hnone o' ho' hhook
      · exact absurd ⟨hhook.1, hfun.trans hhook.2⟩ hnot
    · exact Or.inr ⟨o', ho', hhook, hex, hsame.trans hfun⟩

/-- Taking an object's hook out, whose slots no other object hooks. -/
theorem Tidy.unhook (h : Tidy fold hModThis live live m) (hcompany : Company fold live m) (ho : live o)
    (hchosen : chosen m.hModule) (hlive : ∀ o', live' o' → live o') (hlive' : ∀ o', live o' → live' o' ∨ o' = o)
    (hsame : ∀ o', live o' → fold o'.m_pszModName = fold o.m_pszModName → o'.m_pfnHook = o.m_pfnHook → o'.m_pfnOrig = o.m_pfnOrig)
    (halone : ∀ d t, Slot m d t → Hooks fold o d t → t.Function = o.m_pfnHook → ∀ o', live' o' → Hooks fold o' d t →
      Excludes hModThis o' m) :
    Tidy fold hModThis live' live' (replaceIn fold chosen o.m_pszModName o.m_pfnHook o.m_pfnOrig m) := by
  intro d t hslot
  have himported : ∀ d t, Slot m d t → fold d.Name = fold o.m_pszModName → t.Function = o.m_pfnHook →
      t.imported = o.m_pfnOrig := by
    intro d t hslot hname hfun
    rcases h d t hslot with ⟨himp, _⟩ | ⟨o', ho', hhook, _, hfun'⟩
    · exact absurd (himp.symm.trans hfun) ((hcompany.fit o ho).imported hslot)
    · exact hhook.2.trans (hsame o' ho' (hhook.1.symm.trans hname) (hfun'.symm.trans hfun))
  obtain ⟨d₀, t₀, hslot₀, hname, himp, hcase⟩ := slot_replaceIn hchosen (hcompany.fit o ho).1
    (fun d t hslot => h.ne_zero hcompany.notNull hslot) himported hslot
  simp only [excludes_replaceIn, Hooks.congr hname himp]
  rcases hcase with ⟨hmod, hcur, hnew⟩ | ⟨hnot, hkeep⟩
  · have himp₀ := himported d₀ t₀ hslot₀ hmod hcur
    exact Or.inl ⟨hnew.trans (himp.trans himp₀).symm, halone d₀ t₀ hslot₀ ⟨hmod, himp₀⟩ hcur⟩
  · rcases h d₀ t₀ hslot₀ with ⟨hfun, hnone⟩ | ⟨o', ho', hhook, hex, hfun⟩
    · exact Or.inl ⟨hkeep.trans (hfun.trans himp.symm), fun o' ho' => hnone o' (hlive o' ho')⟩
    · rcases hlive' o' ho' with ho' | rfl
      · exact Or.inr ⟨o', ho', hhook, hex, hkeep.trans hfun⟩
      · exact absurd ⟨hhook.1, hfun⟩ hnot

/-! ## The steps -/

/-- What the modules and the hook functions are expected to be. -/
def Expected (fold : CString → CString) (p : Process) : Action → Prop
  | .construct _ o => o.m_pfnHook ≠ 0 ∧ ∀ m ∈ p.modules, Fit fold o m
  | .destroy _ => True
  | .load _ dwFlags mapped => dwFlags &&& LOAD_LIBRARY_AS_DATAFILE = 0 → ∀ m ∈ mapped, ∀ o, Live p o → Fit fold o m.module

/-- A new object hooks no hook function and shares its own with hooks on the same function only; what is destroyed
leaves no slot to another object; a load maps no second module with hooked imports, and the module that it returns has
no open slot of an object that excludes it. -/
def Safe (fold : CString → CString) (p : Process) : Action → Prop
  | .construct _ o => ∀ o', Live p o' → fold o.m_pszModName = fold o'.m_pszModName →
      o.m_pfnOrig ≠ o'.m_pfnHook ∧ (o.m_pfnHook = o'.m_pfnHook → o.m_pfnOrig = o'.m_pfnOrig)
  | .destroy x => ∀ o, p.objects x = some o → ∀ m ∈ p.modules, ¬ Excludes p.hModThis o m → ∀ d t, Slot m d t → Hooks fold o d t →
      t.Function = o.m_pfnHook → ∀ y o', y ≠ x → p.objects y = some o' → Hooks fold o' d t → Excludes p.hModThis o' m
  | .load hModule dwFlags mapped => dwFlags &&& LOAD_LIBRARY_AS_DATAFILE = 0 →
      (∀ m ∈ mapped, hModule ≠ some m.hModule → ∀ o, Live p o → ∀ d t, Slot m.module d t → Hooks fold o d t →
        Excludes p.hModThis o m.module) ∧
      ∀ h, hModule = some h →
        (∀ o o', Live p o → Live p o' → fold o.m_pszModName = fold o'.m_pszModName → o.m_pfnOrig = o'.m_pfnHook → o' = o) ∧
        ∀ m ∈ p.modules ++ mapped.map Mapped.module, m.hModule = h → ∀ o, Live p o → ∀ d t, Slot m d t →
          t.Function = t.imported → Hooks fold o d t → ¬ Excludes p.hModThis o m

structure Sound (fold : CString → CString) (p : Process) : Prop where
  linked : Linked p
  same : ∀ o o', Live p o → Live p o' → fold o.m_pszModName = fold o'.m_pszModName → o.m_pfnHook = o'.m_pfnHook →
    o.m_pfnOrig = o'.m_pfnOrig
  notNull : ∀ o, Live p o → o.m_pfnHook ≠ 0
  fit : ∀ m ∈ p.modules, ∀ o, Live p o → Fit fold o m
  tidy : ∀ m ∈ p.modules, Tidy fold p.hModThis (Live p) (Live p) m

theorem Sound.company (h : Sound fold p) (hm : m ∈ p.modules) : Company fold (Live p) m := ⟨h.notNull, h.fit m hm⟩

theorem live_update {objects : ℕ → Option CAPIHook_New} {q : Option CAPIHook_New} :
    (∃ y, Function.update objects x q y = some o) ↔ (∃ y, y ≠ x ∧ objects y = some o) ∨ q = some o := by
  constructor
  · rintro ⟨y, hy⟩
    by_cases hyx : y = x
    · rw [hyx, Function.update_self] at hy
      exact Or.inr hy
    · rw [Function.update_of_ne hyx] at hy
      exact Or.inl ⟨y, hyx, hy⟩
  · rintro (⟨y, hyx, hy⟩ | hq)
    · exact ⟨y, (Function.update_of_ne hyx q objects).trans hy⟩
    · exact ⟨x, (Function.update_self x q objects).trans hq⟩

theorem live_construct (hx : p.objects x = none) (o' : CAPIHook_New) : Live (construct fold x o p) o' ↔ Live p o' ∨ o' = o := by
  refine live_update.trans (or_congr ⟨fun ⟨y, _, hy⟩ => ⟨y, hy⟩, fun ⟨y, hy⟩ => ⟨y, fun hyx => ?_, hy⟩⟩
    ⟨fun ho => (Option.some.inj ho).symm, fun ho => congrArg some ho.symm⟩)
  rw [hyx, hx] at hy
  exact absurd hy nofun

theorem live_destroy (o' : CAPIHook_New) : Live (destroy fold x o p) o' ↔ ∃ y, y ≠ x ∧ p.objects y = some o' :=
  live_update.trans ⟨fun hor => hor.resolve_right nofun, Or.inl⟩

theorem sound_construct (h : Sound fold p) (hx : p.objects x = none) (hexpected : Expected fold p (.construct x o))
    (hsafe : Safe fold p (.construct x o)) : Sound fold (construct fold x o p) := by
  have hlive : ∀ o', Live (construct fold x o p) o' ↔ Live p o' ∨ o' = o := live_construct hx
  have hnull : ∀ o', Live (construct fold x o p) o' → o'.m_pfnHook ≠ 0 := fun o' ho' =>
    ((hlive o').1 ho').elim (h.notNull o') fun heq => heq ▸ hexpected.1
  have hfit : ∀ m ∈ p.modules, ∀ o', Live (construct fold x o p) o' → Fit fold o' m := fun m hm o' ho' =>
    ((hlive o').1 ho').elim (h.fit m hm o') fun heq => heq ▸ hexpected.2 m hm
  refine ⟨linked_construct h.linked hx, ?_, hnull, ?_, ?_⟩
  · intro o₁ o₂ h₁ h₂ hname hhook
    rcases (hlive o₁).1 h₁ with hold₁ | rfl
    · rcases (hlive o₂).1 h₂ with hold₂ | rfl
      · exact h.same o₁ o₂ hold₁ hold₂ hname hhook
      · exact ((hsafe o₁ hold₁ hname.symm).2 hhook.symm).symm
    · rcases (hlive o₂).1 h₂ with hold₂ | rfl
      · exact (hsafe o₂ hold₂ hname).2 hhook
      · rfl
  · intro m' hm'
    obtain ⟨m, hm, rfl⟩ := List.mem_map.1 hm'
    exact fun o' ho' => fit_replaceIn.2 (hfit m hm o' ho')
  · intro m' hm'
    obtain ⟨m, hm, rfl⟩ := List.mem_map.1 hm'
    have hgrown : Tidy fold p.hModThis (Live (construct fold x o p)) (Live p) m :=
      (h.tidy m hm).mono (fun o' ho' => (hlive o').2 (Or.inl ho')) fun o' ho' => Or.inl ho'
    by_cases hexcl : Excludes p.hModThis o m
    · rw [replaceIn_other (not_not.2 hexcl)]
      refine hgrown.mono (fun _ => id) fun o' ho' => ?_
      rcases (hlive o').1 ho' with ho' | rfl
      · exact Or.inl ho'
      · exact Or.inr fun _ _ _ _ => hexcl
    · refine Tidy.mono (hgrown.hook ⟨hnull, hfit m hm⟩ ((hlive o).2 (Or.inr rfl)) hexcl (fun _ _ _ _ _ => hexcl)
        fun o' ho' hname horig => ?_) (fun _ => id) fun o' ho' => Or.inl ((hlive o').1 ho')
      rcases (hlive o').1 ho' with ho' | rfl
      · exact absurd horig (hsafe o' ho' hname).1
      · rfl

theorem sound_destroy (h : Sound fold p) (hx : p.objects x = some o) (hsafe : Safe fold p (.destroy x)) :
    Sound fold (destroy fold x o p) := by
  have hlive : ∀ o', Live (destroy fold x o p) o' ↔ ∃ y, y ≠ x ∧ p.objects y = some o' := live_destroy
  have hless : ∀ o', Live (destroy fold x o p) o' → Live p o' := fun o' ho' => by
    obtain ⟨y, _, hy⟩ := (hlive o').1 ho'
    exact ⟨y, hy⟩
  have hother : ∀ o', Live p o' → Live (destroy fold x o p) o' ∨ o' = o := by
    rintro o' ⟨y, hy⟩
    by_cases hyx : y = x
    · rw [hyx, hx] at hy
      exact Or.inr (Option.some.inj hy).symm
    · exact Or.inl ((hlive o').2 ⟨y, hyx, hy⟩)
  refine ⟨linked_destroy h.linked hx, fun o₁ o₂ h₁ h₂ => h.same o₁ o₂ (hless o₁ h₁) (hless o₂ h₂),
    fun o' ho' => h.notNull o' (hless o' ho'), ?_, ?_⟩
  · intro m' hm'
    obtain ⟨m, hm, rfl⟩ := List.mem_map.1 hm'
    exact fun o' ho' => fit_replaceIn.2 (h.fit m hm o' (hless o' ho'))
  · intro m' hm'
    obtain ⟨m, hm, rfl⟩ := List.mem_map.1 hm'
    by_cases hexcl : Excludes p.hModThis o m
    · rw [replaceIn_other (not_not.2 hexcl)]
      intro d t hslot
      rcases h.tidy m hm d t hslot with ⟨hfun, hnone⟩ | ⟨o', ho', hhook, hex, hfun⟩
      · exact Or.inl ⟨hfun, fun o' ho' => hnone o' (hless o' ho')⟩
      · rcases hother o' ho' with ho' | rfl
        · exact Or.inr ⟨o', ho', hhook, hex, hfun⟩
        · exact absurd hexcl hex
    · refine (h.tidy m hm).unhook (h.company hm) ⟨x, hx⟩ hexcl hless hother
        (fun o' ho' hname hhook => h.same o' o ho' ⟨x, hx⟩ hname hhook) fun d t hslot hhook hfun o' ho' hhook' => ?_
      obtain ⟨y, hyx, hy⟩ := (hlive o').1 ho'
      exact hsafe o hx m hm hexcl d t hslot hhook hfun y o' hyx hy hhook'

/-! ## The modules that are loaded later -/

/-- What the hooks of a list make of one module. -/
def walk (fold : CString → CString) (h : HMODULE) (os : List CAPIHook_New) (m : Module) : Module :=
  os.foldl (fun m o => replaceIn fold (· = h) o.m_pszModName o.m_pfnOrig o.m_pfnHook m) m

theorem foldl_modules (h : HMODULE) (os : List CAPIHook_New) (modules : List Module) :
    os.foldl (fun modules o => modules.map (replaceIn fold (· = h) o.m_pszModName o.m_pfnOrig o.m_pfnHook)) modules =
      modules.map (walk fold h os) := by
  induction os generalizing modules with
  | nil => exact (List.map_id modules).symm
  | cons o os ih =>
    rw [List.foldl_cons, ih, List.map_map]
    rfl

theorem walk_other {h : HMODULE} (hm : m.hModule ≠ h) (os : List CAPIHook_New) : walk fold h os m = m := by
  induction os with
  | nil => rfl
  | cons o os ih =>
    rw [walk, List.foldl_cons, replaceIn_other hm]
    exact ih

theorem Company.walk (h : Company fold live m) (hModule : HMODULE) (os : List CAPIHook_New) :
    Company fold live (walk fold hModule os m) := by
  induction os generalizing m with
  | nil => exact h
  | cons o os ih => exact ih ⟨h.notNull, fun o' ho' => fit_replaceIn.2 (h.fit o' ho')⟩

/-- No slot with its original address belongs to a module that a hook on it excludes. -/
def Open (fold : CString → CString) (hModThis : HMODULE) (live : CAPIHook_New → Prop) (m : Module) : Prop :=
  ∀ o, live o → ∀ d t, Slot m d t → t.Function = t.imported → Hooks fold o d t → ¬ Excludes hModThis o m

theorem Tidy.walk {h : HMODULE} (htidy : Tidy fold hModThis live done m) (hcompany : Company fold live m)
    (hopen : Open fold hModThis live m) (hm : m.hModule = h) {os : List CAPIHook_New} (hos : ∀ o ∈ os, live o)
    (hpair : ∀ o o', live o → live o' → fold o.m_pszModName = fold o'.m_pszModName → o.m_pfnOrig = o'.m_pfnHook → o' = o) :
    Tidy fold hModThis live (fun o => done o ∨ o ∈ os) (walk fold h os m) := by
  induction os generalizing m done with
  | nil => exact htidy.mono (fun _ => id) fun o ho => Or.inl (ho.resolve_right List.not_mem_nil)
  | cons o os ih =>
    have ho := hos o List.mem_cons_self
    have hstep : Tidy fold hModThis live (fun o' => done o' ∨ o' = o)
        (replaceIn fold (· = h) o.m_pszModName o.m_pfnOrig o.m_pfnHook m) :=
      htidy.hook hcompany ho hm (hopen o ho) fun o' ho' => hpair o o' ho ho'
    have hcompany' : Company fold live (replaceIn fold (· = h) o.m_pszModName o.m_pfnOrig o.m_pfnHook m) :=
      ⟨hcompany.notNull, fun o' ho' => fit_replaceIn.2 (hcompany.fit o' ho')⟩
    have hopen' : Open fold hModThis live (replaceIn fold (· = h) o.m_pszModName o.m_pfnOrig o.m_pfnHook m) := by
      intro o' ho' d t hslot hfun hhook
      obtain ⟨d₀, t₀, hslot₀, hname, himp, hcase⟩ := htidy.hook_slot hcompany ho hm (fun o' ho' => hpair o o' ho ho') hslot
      rw [excludes_replaceIn]
      rcases hcase with ⟨_, _, hnew⟩ | ⟨_, hsame⟩
      · exact absurd (himp.symm.trans (hfun.symm.trans hnew)) ((hcompany.fit o ho).imported hslot₀)
      · exact hopen o' ho' d₀ t₀ hslot₀ (hsame.symm.trans (hfun.trans himp)) ((Hooks.congr hname himp).1 hhook)
    refine (ih hstep hcompany' hopen' (replaceIn_hModule.trans hm) fun o' ho' => hos o' (List.mem_cons_of_mem o ho')).mono
      (fun _ => id) fun o' ho' => Or.inl ?_
    rcases ho' with ho' | ho'
    · exact Or.inl (Or.inl ho')
    · rcases List.mem_cons.1 ho' with rfl | ho'
      · exact Or.inl (Or.inr rfl)
      · exact Or.inr ho'

theorem slot_module {m : Mapped} (hslot : Slot m.module d t) : t.Function = t.imported := by
  obtain ⟨hd, ht⟩ := hslot
  obtain ⟨e, _, rfl⟩ := List.mem_map.1 hd
  obtain ⟨f, _, rfl⟩ := List.mem_map.1 ht
  rfl

theorem sound_modules {modules : List Module} (h : Sound fold p) (hcompany : ∀ m ∈ modules, Company fold (Live p) m)
    (htidy : ∀ m ∈ modules, Tidy fold p.hModThis (Live p) (Live p) m) : Sound fold { p with modules := modules } :=
  ⟨h.linked, h.same, h.notNull, fun m hm => (hcompany m hm).fit, htidy⟩

theorem sound_load (h : Sound fold p) (hModule : Option HMODULE) (dwFlags : DWord) (mapped : List Mapped)
    (hexpected : Expected fold p (.load hModule dwFlags mapped)) (hsafe : Safe fold p (.load hModule dwFlags mapped)) :
    Sound fold (loadLibrary fold hModule dwFlags mapped p) := by
  unfold loadLibrary
  by_cases hflag : dwFlags &&& LOAD_LIBRARY_AS_DATAFILE = 0
  · have hmap : p.map dwFlags mapped = { p with modules := p.modules ++ mapped.map Mapped.module } := if_pos hflag
    obtain ⟨hothers, hreturned⟩ := hsafe hflag
    have hcompany : ∀ m ∈ p.modules ++ mapped.map Mapped.module, Company fold (Live p) m := by
      intro m hm
      rcases List.mem_append.1 hm with hm | hm
      · exact h.company hm
      · obtain ⟨m, hm₀, rfl⟩ := List.mem_map.1 hm
        exact ⟨h.notNull, hexpected hflag m hm₀⟩
    have hrest : ∀ m ∈ p.modules ++ mapped.map Mapped.module, hModule ≠ some m.hModule →
        Tidy fold p.hModThis (Live p) (Live p) m := by
      intro m hm hne
      rcases List.mem_append.1 hm with hm | hm
      · exact h.tidy m hm
      · obtain ⟨m, hm₀, rfl⟩ := List.mem_map.1 hm
        exact fun d t hslot => Or.inl ⟨slot_module hslot, fun o ho => hothers m hm₀ hne o ho d t hslot⟩
    have hstart : ∀ m ∈ p.modules ++ mapped.map Mapped.module, Tidy fold p.hModThis (Live p) (fun _ => False) m := by
      intro m hm
      rcases List.mem_append.1 hm with hm | hm
      · exact (h.tidy m hm).mono (fun _ => id) fun _ hfalse => hfalse.elim
      · obtain ⟨m, hm, rfl⟩ := List.mem_map.1 hm
        exact fun d t hslot => Or.inl ⟨slot_module hslot, fun _ hfalse => hfalse.elim⟩
    cases hModule with
    | none =>
      rw [hmap]
      exact sound_modules h hcompany fun m hm => hrest m hm nofun
    | some hModule =>
      dsimp only
      rw [if_pos hflag, hmap, hookNewlyLoadedModule, foldl_modules]
      obtain ⟨hpair, hopen⟩ := hreturned hModule rfl
      refine sound_modules (p := p) h (fun m' hm' => ?_) fun m' hm' => ?_
      · obtain ⟨m, hm, rfl⟩ := List.mem_map.1 hm'
        exact (hcompany m hm).walk hModule _
      · obtain ⟨m, hm, rfl⟩ := List.mem_map.1 hm'
        by_cases heq : m.hModule = hModule
        · exact ((hstart m hm).walk (hcompany m hm) (hopen m hm heq) heq (fun o ho => (mem_list h.linked).1 ho) hpair).mono
            (fun _ => id) fun o ho => Or.inl (Or.inr ((mem_list h.linked).2 ho))
        · have hother : walk fold hModule p.list m = m := walk_other heq p.list
          have hlist : Process.list { p with modules := p.modules ++ mapped.map Mapped.module } = p.list := rfl
          rw [hlist, hother]
          exact hrest m hm fun hsome => heq (Option.some.inj hsome).symm
  · have hmap : p.map dwFlags mapped = p := if_neg hflag
    cases hModule with
    | none =>
      dsimp only
      rw [hmap]
      exact h
    | some hModule =>
      dsimp only
      rw [if_neg hflag, hmap]
      exact h

theorem sound_step (a : Action) (h : Sound fold p) (hexpected : Expected fold p a) (hsafe : Safe fold p a) :
    Sound fold (step fold p a) := by
  cases a with
  | construct x o =>
    show Sound fold (if (p.objects x).isSome then p else construct fold x o p)
    split
    · exact h
    · next hx => exact sound_construct h (Option.not_isSome_iff_eq_none.1 hx) hexpected hsafe
  | destroy x =>
    show Sound fold (((p.objects x).map fun o => destroy fold x o p).getD p)
    cases hx : p.objects x with
    | none => exact h
    | some o => exact sound_destroy h hx hsafe
  | load hModule dwFlags mapped => exact sound_load h hModule dwFlags mapped hexpected hsafe

theorem sound_unhooked (hModThis : HMODULE) (modules : List Mapped) : Sound fold (unhooked hModThis modules) := by
  have hlive : ∀ o, ¬ Live (unhooked hModThis modules) o := fun o ⟨_, hx⟩ => absurd hx nofun
  refine ⟨linked_unhooked hModThis modules, fun o _ ho => (hlive o ho).elim,
    fun o ho => (hlive o ho).elim, fun _ _ o ho => (hlive o ho).elim, fun m' hm' d t hslot => ?_⟩
  obtain ⟨m, _, rfl⟩ := List.mem_map.1 hm'
  exact Or.inl ⟨slot_module hslot, fun o ho => (hlive o ho).elim⟩

/-! ## Runs -/

/-- A slot that an object hooks, in a module that it does not exclude, has the hook of an object that exists; a slot
that none hooks has its original address. -/
structure Hooked (fold : CString → CString) (p : Process) : Prop where
  hooked : ∀ o, Live p o → ∀ m ∈ p.modules, ¬ Excludes p.hModThis o m → ∀ d t, Slot m d t → Hooks fold o d t →
    ∃ o', Live p o' ∧ Hooks fold o' d t ∧ t.Function = o'.m_pfnHook
  restored : ∀ m ∈ p.modules, ∀ d t, Slot m d t → (∀ o, Live p o → ¬ Hooks fold o d t) → t.Function = t.imported

theorem Sound.hooked (h : Sound fold p) : Hooked fold p := by
  constructor
  · intro o ho m hm hexcl d t hslot hhook
    rcases h.tidy m hm d t hslot with ⟨_, hnone⟩ | ⟨o', ho', hhook', _, hfun⟩
    · exact absurd (hnone o ho hhook) hexcl
    · exact ⟨o', ho', hhook', hfun⟩
  · intro m hm d t hslot hnone
    rcases h.tidy m hm d t hslot with ⟨hfun, _⟩ | ⟨o', ho', hhook', _, _⟩
    · exact hfun
    · exact absurd hhook' (hnone o' ho')

/-- In every run the list is the one of the objects that exist, and where all steps are safe their hooks are in. -/
theorem apiHookNew_hooked (fold : CString → CString) (hModThis : HMODULE) (modules : List Mapped) (actions : List Action) :
    Linked (actions.foldl (step fold) (unhooked hModThis modules)) ∧
      (Meets (step fold) (fun p a => Expected fold p a ∧ Safe fold p a) (unhooked hModThis modules) actions →
        Hooked fold (actions.foldl (step fold) (unhooked hModThis modules))) := by
  constructor
  · exact List.foldlRecOn actions (step fold) (linked_unhooked hModThis modules) fun p h a _ => linked_step a h
  · exact fun h => (h.run (fun _ a hsound hok => sound_step a hsound hok.1 hok.2) (sound_unhooked hModThis modules)).hooked

/-- Two modules, each of which imports the function at 0x1000 from `k`. -/
def program : Mapped := ⟨0x400000, [([0x6B], [⟨0x1000, by decide⟩])]⟩

def library : Mapped := ⟨0x500000, [([0x4B], [⟨0x1000, by decide⟩])]⟩

def firstHook : CAPIHook_New := ⟨[0x6B], 0x1000, 0x2000, true⟩

def secondHook : CAPIHook_New := ⟨[0x4B], 0x1000, 0x3000, true⟩

/-- A hook, a module that is loaded under it, and its end. -/
def hookAndLoad : List Action := [.construct 0 firstHook, .load (some 0x500000) 0 [library], .destroy 0]

theorem hookAndLoad_hooked :
    Hooked (List.map toLower) (hookAndLoad.foldl (step (List.map toLower)) (unhooked 0x10000000 [program])) := by
  refine (apiHookNew_hooked (List.map toLower) 0x10000000 [program] hookAndLoad).2 ?_
  have hlive : ∀ o, Live (construct (List.map toLower) 0 firstHook (unhooked 0x10000000 [program])) o → o = firstHook :=
    fun o ho => ((live_construct rfl o).1 ho).resolve_left fun ⟨_, hx⟩ => absurd hx nofun
  refine ⟨⟨⟨by decide, fun m hm => ?_⟩, fun o' ⟨_, hx⟩ => absurd hx nofun⟩, ⟨fun _ m hm o ho => ?_, fun _ => ⟨fun m hm hne => ?_, ?_⟩⟩,
    ⟨trivial, fun o _ _ _ _ _ _ _ _ _ y o' hy ho' => ?_⟩, trivial⟩
  · rw [List.mem_singleton.1 hm]
    exact ⟨by decide, by decide⟩
  · rw [List.mem_singleton.1 hm, hlive o ho]
    exact ⟨by decide, by decide⟩
  · rw [List.mem_singleton.1 hm] at hne
    exact absurd rfl hne
  · intro h hh
    obtain rfl := Option.some.inj hh
    refine ⟨fun o o' ho ho' _ _ => (hlive o' ho').trans (hlive o ho).symm, fun m _ hm o _ d t _ _ _ hexcl => ?_⟩
    exact absurd (hm.symm.trans hexcl.2) (by decide)
  · have hnone : Function.update (fun _ : ℕ => (none : Option CAPIHook_New)) 0 (some firstHook) y = some o' := ho'
    rw [Function.update_of_ne hy] at hnone
    exact absurd hnone nofun

/-- Two hooks on one function, of which the first one is destroyed: the slot has its original address although the
second hook exists. -/
def firstHookGoes : List Action := [.construct 0 firstHook, .construct 1 secondHook, .destroy 0]

theorem firstHookGoes_not_hooked :
    Meets (step (List.map toLower)) (Expected (List.map toLower)) (unhooked 0x10000000 [program]) firstHookGoes ∧
      ¬ Hooked (List.map toLower) (firstHookGoes.foldl (step (List.map toLower)) (unhooked 0x10000000 [program])) := by
  constructor
  · refine ⟨⟨by decide, fun m hm => ?_⟩, ⟨by decide, fun m hm => ?_⟩, trivial, trivial⟩
    · rw [List.mem_singleton.1 hm]
      exact ⟨by decide, by decide⟩
    · rw [List.mem_singleton.1 hm]
      exact ⟨by decide, by decide⟩
  · intro h
    obtain ⟨o, ho, _, hfun⟩ := h.hooked secondHook ⟨1, rfl⟩ ⟨0x400000, [⟨[0x6B], [⟨0x1000, by decide, 0x1000⟩]⟩]⟩
      (List.mem_singleton.2 rfl) (fun hexcl => absurd hexcl.2 (by decide)) ⟨[0x6B], [⟨0x1000, by decide, 0x1000⟩]⟩
      ⟨0x1000, by decide, 0x1000⟩ ⟨List.mem_singleton_self _, List.mem_singleton_self _⟩ ⟨rfl, rfl⟩
    obtain ⟨y, hy, ho⟩ := (live_destroy o).1 ho
    have hone : Function.update (Function.update (fun _ : ℕ => (none : Option CAPIHook_New)) 0 (some firstHook)) 1 (some secondHook) y
        = some o := ho
    by_cases hy₁ : y = 1
    · rw [hy₁, Function.update_self] at hone
      rw [← Option.some.inj hone] at hfun
      exact absurd hfun (by decide)
    · rw [Function.update_of_ne hy₁, Function.update_of_ne hy] at hone
      exact absurd hone nofun

end StarLib.Hook.New
