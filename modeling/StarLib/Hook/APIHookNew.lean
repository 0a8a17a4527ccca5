import StarLib.Foundations.LinkedLists
import StarLib.Foundations.Words

/-! # `CAPIHook_New`

A hook replaces the address of a function in the import tables of the modules. The objects are linked from
`sm_pHeader`, so that a module that is loaded later gets all hooks. Module names are compared without case, that is
after `fold`.
-/

namespace StarLib.Hook.New
open Foundations
set_option autoImplicit false
set_option maxHeartbeats 250000
set_option maxRecDepth 120000

abbrev CString := List Byte

/-- The address of a function. -/
abbrev PROC := DWord

abbrev HMODULE := DWord

/-- An entry of an import address table: the address that the loader has put there, and the one that is there now.
The table ends before the first entry that the loader leaves at zero. -/
structure Thunk where
  imported : PROC
  imported_ne : imported ≠ 0
  Function : PROC

structure ImportDescriptor where
  Name : CString
  thunks : List Thunk

structure Module where
  hModule : HMODULE
  imports : List ImportDescriptor

structure CAPIHook_New where
  m_pszModName : CString
  m_pfnOrig : PROC
  m_pfnHook : PROC
  m_bExcludeAPIHookMod : Bool

/-- `modules` is the list of the loaded modules, `hModThis` the module with this code. The links of all objects are one
map, and `existing` counts the objects that exist, over which the loops go. -/
structure Process where
  objects : ℕ → Option CAPIHook_New
  m_pNext : ℕ → Option ℕ
  sm_pHeader : Option ℕ
  existing : ℕ
  modules : List Module
  hModThis : HMODULE

section
variable (fold : CString → CString)

/-- The loop over the table: it ends at a zero and after a replacement. -/
def replaceThunk (pfnCurrent pfnNew : PROC) : List Thunk → List Thunk
  | [] => []
  | t :: thunks =>
    if t.Function = 0 then t :: thunks
    else if t.Function = pfnCurrent then { t with Function := pfnNew } :: thunks
    else t :: replaceThunk pfnCurrent pfnNew thunks

/-- The first descriptor with the name is the one whose table is searched. -/
def replaceIATEntryInOneMod (pszExportMod : CString) (pfnCurrent pfnNew : PROC) : List ImportDescriptor → List ImportDescriptor
  | [] => []
  | d :: imports =>
    if fold d.Name = fold pszExportMod then { d with thunks := replaceThunk pfnCurrent pfnNew d.thunks } :: imports
    else d :: replaceIATEntryInOneMod pszExportMod pfnCurrent pfnNew imports

/-- The imports of the modules with the handles `chosen`. -/
def replaceIn (chosen : HMODULE → Prop) [DecidablePred chosen] (pszExportMod : CString) (pfnCurrent pfnNew : PROC) (m : Module) : Module :=
  if chosen m.hModule then { m with imports := replaceIATEntryInOneMod fold pszExportMod pfnCurrent pfnNew m.imports } else m

def replaceIATEntryInAllMods (hModThis : HMODULE) (pszExportMod : CString) (pfnCurrent pfnNew : PROC)
    (bExcludeAPIHookMod : Bool) (modules : List Module) : List Module :=
  modules.map (replaceIn fold (fun h => ¬ (bExcludeAPIHookMod = true ∧ h = hModThis)) pszExportMod pfnCurrent pfnNew)

/-- The constructor, for the address that the system gives for the function. -/
def construct (x : ℕ) (o : CAPIHook_New) (p : Process) : Process :=
  { p with
    objects := Function.update p.objects x (some o)
    m_pNext := Function.update p.m_pNext x p.sm_pHeader
    sm_pHeader := some x
    existing := p.existing + 1
    modules := replaceIATEntryInAllMods fold p.hModThis o.m_pszModName o.m_pfnOrig o.m_pfnHook o.m_bExcludeAPIHookMod p.modules }

/-- The destructor. -/
def destroy (x : ℕ) (o : CAPIHook_New) (p : Process) : Process :=
  { p with
    objects := Function.update p.objects x none
    m_pNext := if p.sm_pHeader = some x then p.m_pNext else unlink x p.existing p.sm_pHeader p.m_pNext
    sm_pHeader := if p.sm_pHeader = some x then p.m_pNext x else p.sm_pHeader
    existing := p.existing - 1
    modules := replaceIATEntryInAllMods fold p.hModThis o.m_pszModName o.m_pfnHook o.m_pfnOrig o.m_bExcludeAPIHookMod p.modules }

/-- The objects in the order of the list. -/
def Process.list (p : Process) : List CAPIHook_New := (follow p.m_pNext p.existing p.sm_pHeader).filterMap p.objects

def hookNewlyLoadedModule (hModule : HMODULE) (p : Process) : Process :=
  { p with
    modules := p.list.foldl (fun modules o =>
      modules.map (replaceIn fold (· = hModule) o.m_pszModName o.m_pfnOrig o.m_pfnHook)) p.modules }

def LOAD_LIBRARY_AS_DATAFILE : DWord := 2

/-- What the loader puts into an import table. -/
structure Mapped where
  hModule : HMODULE
  imports : List (CString × List { f : PROC // f ≠ 0 })

def Mapped.module (m : Mapped) : Module :=
  ⟨m.hModule, m.imports.map fun d => ⟨d.1, d.2.map fun f => ⟨f.1, f.2, f.1⟩⟩⟩

/-- The system maps the modules that are not loaded yet, the one that is asked for and those that it needs; a file that
is loaded as data is none. -/
def Process.map (p : Process) (dwFlags : DWord) (mapped : List Mapped) : Process :=
  if dwFlags &&& LOAD_LIBRARY_AS_DATAFILE = 0 then { p with modules := p.modules ++ mapped.map Mapped.module } else p

/-- `LoadLibraryExA` and its three variants, which have no flags or another kind of path. -/
def loadLibrary (hModule : Option HMODULE) (dwFlags : DWord) (mapped : List Mapped) (p : Process) : Process :=
  match hModule with
  | some h => if dwFlags &&& LOAD_LIBRARY_AS_DATAFILE = 0 then hookNewlyLoadedModule fold h (p.map dwFlags mapped) else p.map dwFlags mapped
  | none => p.map dwFlags mapped

def getProcAddress (pfn : PROC) (p : Process) : PROC :=
  ((p.list.find? fun o => o.m_pfnOrig = pfn).map CAPIHook_New.m_pfnHook).getD pfn

inductive Action where
  | construct (x : ℕ) (o : CAPIHook_New)
  | destroy (x : ℕ)
  | load (hModule : Option HMODULE) (dwFlags : DWord) (mapped : List Mapped)

/-- A second construction, and the destruction of what does not exist, are no steps. -/
def step (p : Process) : Action → Process
  | .construct x o => if (p.objects x).isSome then p else construct fold x o p
  | .destroy x => ((p.objects x).map fun o => destroy fold x o p).getD p
  | .load hModule dwFlags mapped => loadLibrary fold hModule dwFlags mapped p

/-- Before the first hook. -/
def unhooked (hModThis : HMODULE) (modules : List Mapped) : Process :=
  ⟨fun _ => none, fun _ => none, none, 0, modules.map Mapped.module, hModThis⟩

end

/-! ## The list of the objects -/

/-- The list has every object that exists, once. -/
def Linked (p : Process) : Prop :=
  ∃ xs, Chain p.m_pNext p.sm_pHeader xs ∧ xs.Nodup ∧ (∀ x, x ∈ xs ↔ (p.objects x).isSome) ∧ xs.length = p.existing

def Live (p : Process) (o : CAPIHook_New) : Prop := ∃ x, p.objects x = some o

variable {fold : CString → CString} {p : Process} {o : CAPIHook_New} {x : ℕ}

theorem linked_construct (h : Linked p) (hx : p.objects x = none) : Linked (construct fold x o p) := by
  obtain ⟨xs, hchain, hnodup, hmem, hlength⟩ := h
  have hnot : x ∉ xs := fun hin => by
    rw [hmem, hx] at hin
    exact Bool.noConfusion hin
  refine ⟨x :: xs, hchain.push hnot, List.nodup_cons.2 ⟨hnot, hnodup⟩, fun y => ?_, congrArg (· + 1) hlength⟩
  show y ∈ x :: xs ↔ (Function.update p.objects x (some o) y).isSome
  rw [List.mem_cons, hmem]
  by_cases hy : y = x
  · rw [hy, Function.update_self]
    exact ⟨fun _ => rfl, fun _ => Or.inl rfl⟩
  · rw [Function.update_of_ne hy]
    exact ⟨fun hor => hor.resolve_left hy, Or.inr⟩

theorem linked_destroy (h : Linked p) (hx : p.objects x = some o) : Linked (destroy fold x o p) := by
  obtain ⟨xs, hchain, hnodup, hmem, hlength⟩ := h
  have hin : x ∈ xs := (hmem x).2 (by rw [hx]; rfl)
  have hmem' : ∀ y, y ∈ xs.erase x ↔ (Function.update p.objects x none y).isSome := fun y => by
    rw [hnodup.mem_erase_iff, hmem]
    by_cases hy : y = x
    · rw [hy, Function.update_self]
      exact ⟨fun hand => absurd rfl hand.1, fun hsome => absurd hsome Bool.false_ne_true⟩
    · rw [Function.update_of_ne hy]
      exact ⟨And.right, And.intro hy⟩
  have hlength' : (xs.erase x).length = p.existing - 1 := by rw [List.length_erase_of_mem hin, hlength]
  refine ⟨xs.erase x, ?_, hnodup.erase x, hmem', hlength'⟩
  show Chain (if p.sm_pHeader = some x then p.m_pNext else unlink x p.existing p.sm_pHeader p.m_pNext)
    (if p.sm_pHeader = some x then p.m_pNext x else p.sm_pHeader) (xs.erase x)
  by_cases hhead : p.sm_pHeader = some x
  · rw [if_pos hhead, if_pos hhead]
    cases xs with
    | nil => exact absurd hin List.not_mem_nil
    | cons y xs =>
      obtain ⟨hy, hrest⟩ := hchain
      obtain rfl : y = x := Option.some.inj (hy.symm.trans hhead)
      rwa [List.erase_cons_head]
  · rw [if_neg hhead, if_neg hhead]
    exact hchain.unlink hhead hnodup hlength.le

theorem linked_map (h : Linked p) (dwFlags : DWord) (mapped : List Mapped) : Linked (p.map dwFlags mapped) := by
  unfold Process.map
  split
  · exact h
  · exact h

theorem linked_step (a : Action) (h : Linked p) : Linked (step fold p a) := by
  cases a with
  | construct x o =>
    show Linked (if (p.objects x).isSome then p else construct fold x o p)
    split
    · exact h
    · next hx => exact linked_construct h (Option.not_isSome_iff_eq_none.1 hx)
  | destroy x =>
    show Linked (((p.objects x).map fun o => destroy fold x o p).getD p)
    cases hx : p.objects x with
    | none => exact h
    | some o => exact linked_destroy h hx
  | load hModule dwFlags mapped =>
    show Linked (loadLibrary fold hModule dwFlags mapped p)
    have hmap := linked_map h dwFlags mapped
    unfold loadLibrary
    cases hModule with
    | none => exact hmap
    | some hModule =>
      dsimp only
      split
      · exact hmap
      · exact hmap

theorem linked_unhooked (hModThis : HMODULE) (modules : List Mapped) : Linked (unhooked hModThis modules) :=
  ⟨[], rfl, List.nodup_nil, fun _ => ⟨fun h => absurd h List.not_mem_nil, fun h => absurd h Bool.false_ne_true⟩, rfl⟩

theorem mem_list (h : Linked p) : o ∈ p.list ↔ Live p o := by
  obtain ⟨xs, hchain, _, hmem, hlength⟩ := h
  unfold Process.list
  rw [hchain.follow hlength.le, List.mem_filterMap]
  constructor
  · rintro ⟨x, _, hx⟩
    exact ⟨x, hx⟩
  · rintro ⟨x, hx⟩
    exact ⟨x, (hmem x).2 (by rw [hx]; rfl), hx⟩

/-- A function that is asked for is answered by a hook on it, if there is one. -/
theorem getProcAddress_hook (h : Linked p) (pfn : PROC) :
    (∃ o, Live p o ∧ o.m_pfnOrig = pfn ∧ getProcAddress pfn p = o.m_pfnHook) ∨
      (∀ o, Live p o → o.m_pfnOrig ≠ pfn) ∧ getProcAddress pfn p = pfn := by
  unfold getProcAddress
  cases hfind : p.list.find? fun o => o.m_pfnOrig = pfn with
  | none =>
    refine Or.inr ⟨fun o ho horig => ?_, rfl⟩
    have hnone := List.find?_eq_none.1 hfind o ((mem_list h).2 ho)
    exact hnone (decide_eq_true horig)
  | some o =>
    have horig := List.find?_some (p := fun o : CAPIHook_New => decide (o.m_pfnOrig = pfn)) hfind
    exact Or.inl ⟨o, (mem_list h).1 (List.mem_of_find?_eq_some hfind), of_decide_eq_true horig, rfl⟩

/-! ## What a replacement changes -/

/-- An entry that is replaced where it holds `pfnCurrent`. -/
def Thunk.redirect (pfnCurrent pfnNew : PROC) (t : Thunk) : Thunk := if t.Function = pfnCurrent then { t with Function := pfnNew } else t

/-- The names and the addresses from the loader. -/
def ImportDescriptor.loaded (d : ImportDescriptor) : CString × List PROC := (d.Name, d.thunks.map Thunk.imported)

/-- The function is imported at most once, and only by the first descriptor with the name. -/
def ImportedOnce (fold : CString → CString) (pszModName : CString) (f : PROC) : List (CString × List PROC) → Prop
  | [] => True
  | d :: imports =>
    if fold d.1 = fold pszModName then d.2.count f ≤ 1 ∧ ∀ d' ∈ imports, fold d'.1 = fold pszModName → f ∉ d'.2
    else ImportedOnce fold pszModName f imports

instance decidableImportedOnce (fold : CString → CString) (pszModName : CString) (f : PROC) :
    (imports : List (CString × List PROC)) → Decidable (ImportedOnce fold pszModName f imports)
  | [] => inferInstanceAs (Decidable True)
  | d :: imports =>
    have := decidableImportedOnce fold pszModName f imports
    inferInstanceAs (Decidable (if fold d.1 = fold pszModName then d.2.count f ≤ 1 ∧ ∀ d' ∈ imports, fold d'.1 = fold pszModName → f ∉ d'.2
      else ImportedOnce fold pszModName f imports))

variable {pszExportMod : CString} {pfnCurrent pfnNew f : PROC}

theorem redirect_imported (t : Thunk) : (t.redirect pfnCurrent pfnNew).imported = t.imported := by
  unfold Thunk.redirect
  split <;> rfl

theorem redirect_function (t : Thunk) :
    (t.redirect pfnCurrent pfnNew).Function = if t.Function = pfnCurrent then pfnNew else t.Function := by
  unfold Thunk.redirect
  split <;> rfl

theorem map_redirect_none {thunks : List Thunk} (h : ∀ t ∈ thunks, t.Function ≠ pfnCurrent) :
    thunks.map (Thunk.redirect pfnCurrent pfnNew) = thunks :=
  (List.map_congr_left fun t ht => if_neg (h t ht)).trans (List.map_id thunks)

theorem replaceThunk_eq {thunks : List Thunk} (hzero : ∀ t ∈ thunks, t.Function ≠ 0)
    (honce : thunks.countP (fun t => t.Function = pfnCurrent) ≤ 1) :
    replaceThunk pfnCurrent pfnNew thunks = thunks.map (Thunk.redirect pfnCurrent pfnNew) := by
  induction thunks with
  | nil => rfl
  | cons t thunks ih =>
    unfold replaceThunk
    rw [if_neg (hzero t List.mem_cons_self), List.map_cons]
    by_cases ht : t.Function = pfnCurrent
    · -- the first one that holds the address is the only one
      rw [List.countP_cons_of_pos (p := fun t : Thunk => decide (t.Function = pfnCurrent)) (decide_eq_true ht)] at honce
      have hrest : ∀ t ∈ thunks, t.Function ≠ pfnCurrent := fun t' ht' heq =>
        List.countP_eq_zero.1 (Nat.le_zero.1 (Nat.le_of_succ_le_succ honce)) t' ht' (decide_eq_true heq)
      rw [if_pos ht, map_redirect_none hrest, Thunk.redirect, if_pos ht]
    · rw [List.countP_cons_of_neg (p := fun t : Thunk => decide (t.Function = pfnCurrent)) (by rwa [decide_eq_true_eq])] at honce
      rw [if_neg ht, ih (fun t' ht' => hzero t' (List.mem_cons_of_mem t ht')) honce, Thunk.redirect, if_neg ht]

theorem count_imported {thunks : List Thunk} (himported : ∀ t ∈ thunks, t.Function = pfnCurrent → t.imported = f) :
    thunks.countP (fun t => t.Function = pfnCurrent) ≤ (thunks.map Thunk.imported).count f := by
  rw [List.count, List.countP_map]
  exact List.countP_mono_left fun t ht h => beq_iff_eq.2 (himported t ht (of_decide_eq_true h))

/-- A descriptor with the name, redirected. -/
def ImportDescriptor.redirect (fold : CString → CString) (pszExportMod : CString) (pfnCurrent pfnNew : PROC)
    (d : ImportDescriptor) : ImportDescriptor :=
  if fold d.Name = fold pszExportMod then { d with thunks := d.thunks.map (Thunk.redirect pfnCurrent pfnNew) } else d

theorem descriptor_redirect_none {imports : List ImportDescriptor}
    (h : ∀ d ∈ imports, fold d.Name = fold pszExportMod → ∀ t ∈ d.thunks, t.Function ≠ pfnCurrent) :
    imports.map (ImportDescriptor.redirect fold pszExportMod pfnCurrent pfnNew) = imports := by
  refine (List.map_congr_left fun d hd => ?_).trans (List.map_id imports)
  show ImportDescriptor.redirect fold pszExportMod pfnCurrent pfnNew d = d
  unfold ImportDescriptor.redirect
  split
  · next hname => rw [map_redirect_none (h d hd hname)]
  · rfl

/-- All entries of the module that hold the address are replaced, as they belong to one function that is imported
once. -/
theorem replaceIATEntryInOneMod_eq {imports : List ImportDescriptor}
    (honce : ImportedOnce fold pszExportMod f (imports.map ImportDescriptor.loaded))
    (hzero : ∀ d ∈ imports, ∀ t ∈ d.thunks, t.Function ≠ 0)
    (himported : ∀ d ∈ imports, fold d.Name = fold pszExportMod → ∀ t ∈ d.thunks, t.Function = pfnCurrent → t.imported = f) :
    replaceIATEntryInOneMod fold pszExportMod pfnCurrent pfnNew imports =
      imports.map (ImportDescriptor.redirect fold pszExportMod pfnCurrent pfnNew) := by
  induction imports with
  | nil => rfl
  | cons d imports ih =>
    rw [List.map_cons, ImportedOnce] at honce
    unfold replaceIATEntryInOneMod
    rw [List.map_cons]
    have hself := himported d List.mem_cons_self
    have hrest := fun d' hd' => himported d' (List.mem_cons_of_mem d hd')
    by_cases hname : fold d.Name = fold pszExportMod
    · rw [if_pos (show fold d.loaded.1 = fold pszExportMod from hname)] at honce
      have hnone : ∀ d' ∈ imports, fold d'.Name = fold pszExportMod → ∀ t ∈ d'.thunks, t.Function ≠ pfnCurrent := by
        intro d' hd' hname' t ht heq
        refine honce.2 d'.loaded (List.mem_map_of_mem hd') hname' ?_
        rw [← hrest d' hd' hname' t ht heq]
        exact List.mem_map_of_mem ht
      rw [if_pos hname, descriptor_redirect_none hnone, ImportDescriptor.redirect, if_pos hname,
        replaceThunk_eq (hzero d List.mem_cons_self) ((count_imported (hself hname)).trans honce.1)]
    · rw [if_neg (show ¬ fold d.loaded.1 = fold pszExportMod from hname)] at honce
      rw [if_neg hname, ih honce (fun d' hd' => hzero d' (List.mem_cons_of_mem d hd')) hrest, ImportDescriptor.redirect,
        if_neg hname]

theorem replaceThunk_imported (thunks : List Thunk) :
    (replaceThunk pfnCurrent pfnNew thunks).map Thunk.imported = thunks.map Thunk.imported := by
  induction thunks with
  | nil => rfl
  | cons t thunks ih =>
    unfold replaceThunk
    split
    · rfl
    · split
      · rfl
      · rw [List.map_cons, List.map_cons, ih]

theorem replaceIATEntryInOneMod_loaded (imports : List ImportDescriptor) :
    (replaceIATEntryInOneMod fold pszExportMod pfnCurrent pfnNew imports).map ImportDescriptor.loaded =
      imports.map ImportDescriptor.loaded := by
  induction imports with
  | nil => rfl
  | cons d imports ih =>
    unfold replaceIATEntryInOneMod
    split
    · rw [List.map_cons, List.map_cons, ImportDescriptor.loaded, ImportDescriptor.loaded, replaceThunk_imported]
    · rw [List.map_cons, List.map_cons, ih]

end StarLib.Hook.New
