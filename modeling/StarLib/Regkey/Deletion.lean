import Mathlib.Data.List.Infix
import StarLib.Foundations.Fuel
import StarLib.Regkey.Handles

/-! # `CRegKey::RecurseDeleteKey`

The registry is the list of its keys, each with the names on the way to it, in the order in which they are enumerated.
Every call that opens, creates or deletes a key may fail.
-/

namespace StarLib.Regkey.Deletion
open Foundations
set_option autoImplicit false
set_option maxHeartbeats 250000
set_option maxRecDepth 120000

/-- Names as the registry compares them, without regard to case. -/
abbrev KeyPath := List CString

variable {γ : Type}

/-- Keys with their values by name. A key is below keys that exist. -/
structure Tree (γ : Type) where
  keys : List (KeyPath × List (CString × γ))
  closed : ∀ p n, p ++ [n] ∈ keys.map Prod.fst → p ∈ keys.map Prod.fst

def Tree.paths (t : Tree γ) : List KeyPath := t.keys.map Prod.fst

/-- The keys that there are, and those that the open handles belong to. -/
structure World (γ : Type) where
  tree : Tree γ
  handles : List (HKEY × KeyPath)

abbrev LONG := ℤ

def ERROR_SUCCESS : LONG := 0

def ERROR_FILE_NOT_FOUND : LONG := 2

def ERROR_ACCESS_DENIED : LONG := 5

def ERROR_INVALID_HANDLE : LONG := 6

/-- What the calls for a key return when nothing else is against it, and a handle that is not open yet. No key is opened
or deleted twice by a deletion. -/
structure Calls where
  RegCreateKeyEx : KeyPath → LONG
  RegOpenKeyEx : KeyPath → LONG
  RegDeleteKey : KeyPath → LONG
  newHandle : List (HKEY × KeyPath) → HKEY
  fresh : ∀ handles, newHandle handles ∉ handles.map Prod.fst

/-! ## The calls of the system -/

/-- The last name of a path, if it is that of a sub-key of `p`. -/
def subkeyName (p q : KeyPath) : Option CString := if q.dropLast == p then q.getLast? else none

/-- The sub-key with the index 0. -/
def Tree.firstSubkey (t : Tree γ) (p : KeyPath) : Option CString := t.paths.findSome? (subkeyName p)

theorem subkeyName_eq_some {p q : KeyPath} {n : CString} : subkeyName p q = some n ↔ q = p ++ [n] := by
  unfold subkeyName
  constructor
  · intro h
    split at h
    · next hp => rw [← List.dropLast_append_getLast? n h, beq_iff_eq.1 hp]
    · exact absurd h nofun
  · rintro rfl
    rw [List.dropLast_concat, beq_self_eq_true, if_pos rfl, List.getLast?_concat]

theorem firstSubkey_eq_none {t : Tree γ} {p : KeyPath} : t.firstSubkey p = none ↔ ∀ n, p ++ [n] ∉ t.paths := by
  unfold Tree.firstSubkey
  rw [List.findSome?_eq_none_iff]
  constructor
  · intro h n hn
    exact absurd (h _ hn) (by rw [subkeyName_eq_some.2 rfl]; exact Option.some_ne_none n)
  · intro h q hq
    rw [Option.eq_none_iff_forall_ne_some]
    rintro n hn
    exact h n (subkeyName_eq_some.1 hn ▸ hq)

theorem firstSubkey_mem {t : Tree γ} {p : KeyPath} {n : CString} (h : t.firstSubkey p = some n) : p ++ [n] ∈ t.paths := by
  obtain ⟨q, hq, hn⟩ := List.exists_of_findSome?_eq_some h
  exact subkeyName_eq_some.1 hn ▸ hq

/-- The tree without a key that has no sub-keys. -/
def Tree.remove (t : Tree γ) (p : KeyPath) (h : t.firstSubkey p = none) : Tree γ where
  keys := t.keys.filter fun e => e.1 != p
  closed := by
    intro q n hq
    obtain ⟨e, he, hqn⟩ := List.mem_map.1 hq
    rw [List.mem_filter] at he
    have hmem : q ++ [n] ∈ t.paths := hqn ▸ List.mem_map_of_mem he.1
    obtain ⟨d, hd, rfl⟩ := List.mem_map.1 (t.closed q n hmem)
    have hne : d.1 ≠ p := by
      intro hp
      exact firstSubkey_eq_none.1 h n (hp ▸ hmem)
    exact List.mem_map_of_mem (List.mem_filter.2 ⟨hd, bne_iff_ne.2 hne⟩)

def regOpenKeyEx (c : Calls) (key : HKEY) (lpszKey : List CString) (w : World γ) : Except LONG (HKEY × World γ) :=
  match w.handles.lookup key with
  | none => .error ERROR_INVALID_HANDLE
  | some base =>
    let p := base ++ lpszKey
    if w.tree.paths.contains p then
      if c.RegOpenKeyEx p = ERROR_SUCCESS then
        .ok (c.newHandle w.handles, { w with handles := (c.newHandle w.handles, p) :: w.handles })
      else .error (c.RegOpenKeyEx p)
    else .error ERROR_FILE_NOT_FOUND

/-- `RegEnumKeyEx` with the index 0; a name of a key fits into 256 characters. -/
def regEnumKeyEx (key : HKEY) (w : World γ) : Option CString := (w.handles.lookup key).bind w.tree.firstSubkey

def regCloseKey (key : HKEY) (w : World γ) : World γ := { w with handles := w.handles.filter fun e => e.1 != key }

/-- `RegDeleteKey`, which fails for a key with sub-keys. -/
def regDeleteKey (c : Calls) (key : HKEY) (lpszKey : List CString) (w : World γ) : LONG × World γ :=
  match w.handles.lookup key with
  | none => (ERROR_INVALID_HANDLE, w)
  | some base =>
    let p := base ++ lpszKey
    if w.tree.paths.contains p then
      if h : w.tree.firstSubkey p = none then
        if c.RegDeleteKey p = ERROR_SUCCESS then (ERROR_SUCCESS, { w with tree := w.tree.remove p h })
        else (c.RegDeleteKey p, w)
      else (ERROR_ACCESS_DENIED, w)
    else (ERROR_FILE_NOT_FOUND, w)

/-! ## The function -/

mutual

/-- `CRegKey::RecurseDeleteKey`: what is returned, and what is left. -/
def recurseDeleteKey (c : Calls) : ℕ → HKEY → List CString → World γ → Option (LONG × World γ)
  | 0, _, _, _ => none
  | fuel + 1, key, lpszKey, w =>
    match regOpenKeyEx c key lpszKey w with
    | .error lRes => some (lRes, w)
    | .ok (rslt, w) =>
      (deleteSubkeys c fuel rslt w).map fun r =>
        if r.1 ≠ ERROR_SUCCESS then r else regDeleteKey c key lpszKey (regCloseKey rslt r.2)

/-- The loop; it returns what the function returns from inside of it, or `ERROR_SUCCESS` when it ends. -/
def deleteSubkeys (c : Calls) : ℕ → HKEY → World γ → Option (LONG × World γ)
  | 0, _, _ => none
  | fuel + 1, rslt, w =>
    match regEnumKeyEx rslt w with
    | none => some (ERROR_SUCCESS, w)
    | some szBuffer =>
      (recurseDeleteKey c fuel rslt [szBuffer] w).bind fun r =>
        if r.1 ≠ ERROR_SUCCESS then some r else deleteSubkeys c fuel rslt r.2

end

/-- `CRegKey::Delete`. -/
def delete (c : Calls) (fuel : ℕ) (hKeyRoot : HKEY) (pszPath : List CString) (w : World γ) : Option (LONG × World γ) :=
  recurseDeleteKey c fuel hKeyRoot pszPath w

/-! ## Keys below others -/

section Trees
variable {t : Tree γ} {p q : KeyPath} {n : CString}

theorem Tree.prefix_mem (hpq : p <+: q) (hq : q ∈ t.paths) : p ∈ t.paths := by
  obtain ⟨r, rfl⟩ := hpq
  induction r using List.reverseRecOn with
  | nil =>
    rw [List.append_nil] at hq
    exact hq
  | append_singleton r n ih =>
    rw [← List.append_assoc] at hq
    exact ih (t.closed _ n hq)

/-- A key without sub-keys has no keys below it. -/
theorem Tree.below_none (h : ∀ n, p ++ [n] ∉ t.paths) (hq : q ∈ t.paths) (hpq : p <+: q) : q = p := by
  obtain ⟨r, rfl⟩ := hpq
  cases r with
  | nil => exact List.append_nil p
  | cons n r =>
    refine absurd (Tree.prefix_mem ⟨r, ?_⟩ hq) (h n)
    rw [List.append_assoc, List.singleton_append]

/-- A key that is not the one with the names `p`, nor below it. -/
def outside (p : KeyPath) (e : KeyPath × List (CString × γ)) : Bool := !p.isPrefixOf e.1

/-- A key that is not below the one with the names `p`. -/
def notBelow (p : KeyPath) (e : KeyPath × List (CString × γ)) : Bool := !p.isPrefixOf e.1 || e.1 == p

theorem outside_iff {e : KeyPath × List (CString × γ)} : outside p e = true ↔ ¬ p <+: e.1 := by
  unfold outside
  rw [Bool.not_eq_true', ← Bool.not_eq_true, List.isPrefixOf_iff_prefix]

theorem notBelow_iff {e : KeyPath × List (CString × γ)} : notBelow p e = true ↔ (p <+: e.1 → e.1 = p) := by
  unfold notBelow
  rw [Bool.or_eq_true, Bool.not_eq_true', ← Bool.not_eq_true, List.isPrefixOf_iff_prefix, beq_iff_eq]
  exact imp_iff_not_or.symm

section Filters
variable {α : Type} {f g : α → Bool}

theorem filter_of_le (hgf : ∀ e, g e = true → f e = true) (l : List α) : (l.filter f).filter g = l.filter g := by
  rw [List.filter_filter]
  refine List.filter_congr fun e _ => ?_
  cases hg : g e with
  | false => rfl
  | true => rw [hgf e hg]; rfl

/-- Lists that agree on more agree on less. -/
theorem filter_congr_of_le {l l' : List α} (hgf : ∀ e, g e = true → f e = true) (h : l'.filter f = l.filter f) :
    l'.filter g = l.filter g := by
  rw [← filter_of_le hgf l', h, filter_of_le hgf l]

theorem filter_length_lt {l : List α} (hgf : ∀ e, g e = true → f e = true) {e : α} (he : e ∈ l) (hf : f e = true)
    (hg : g e = false) : (l.filter g).length < (l.filter f).length := by
  rw [← filter_of_le hgf l, List.length_filter_lt_length_iff_exists]
  exact ⟨e, List.mem_filter.2 ⟨he, hf⟩, by rw [hg]; exact Bool.false_ne_true⟩

end Filters

/-- Agreement on some keys, for their names. -/
theorem mem_paths_of_filter {f : KeyPath × List (CString × γ) → Bool} {t' : Tree γ} (hf : ∀ values, f (q, values) = true)
    (h : t'.keys.filter f = t.keys.filter f) (hq : q ∈ t.paths) : q ∈ t'.paths := by
  obtain ⟨e, he, rfl⟩ := List.mem_map.1 hq
  have hmem : e ∈ t'.keys.filter f := by
    rw [h]
    exact List.mem_filter.2 ⟨he, hf e.2⟩
  exact List.mem_map_of_mem (List.mem_filter.1 hmem).1

/-- How many keys there are with the names `p` and below them. -/
def Tree.size (t : Tree γ) (p : KeyPath) : ℕ := (t.keys.filter fun e => p.isPrefixOf e.1).length

theorem not_prefix_parent (p : KeyPath) (n : CString) : ¬ p ++ [n] <+: p := by
  intro h
  have hlength := h.length_le
  rw [List.length_append, List.length_singleton] at hlength
  omega

theorem Tree.size_child (hmem : p ++ [n] ∈ t.paths) : t.size (p ++ [n]) < t.size p := by
  obtain ⟨e, he, rfl⟩ := List.mem_map.1 (t.closed p n hmem)
  refine filter_length_lt (fun d hd => ?_) he ?_ ?_
  · rw [List.isPrefixOf_iff_prefix] at hd ⊢
    exact (List.prefix_append e.1 [n]).trans hd
  · exact List.isPrefixOf_iff_prefix.2 (List.prefix_refl e.1)
  · rw [← Bool.not_eq_true, List.isPrefixOf_iff_prefix]
    exact not_prefix_parent e.1 n

/-- Without a sub-key and what is below it there are fewer. -/
theorem Tree.size_outside {t' : Tree γ} (hmem : p ++ [n] ∈ t.paths) (h : t'.keys = t.keys.filter (outside (p ++ [n]))) :
    t'.size p < t.size p := by
  obtain ⟨e, he, hen⟩ := List.mem_map.1 hmem
  unfold Tree.size
  rw [h, List.filter_filter]
  refine filter_length_lt (fun d hd => (Bool.and_eq_true _ _ ▸ hd).1) he ?_ ?_
  · rw [List.isPrefixOf_iff_prefix, hen]
    exact List.prefix_append p [n]
  · rw [Bool.and_eq_false_iff, ← Bool.not_eq_true (outside _ _), outside_iff, hen, not_not]
    exact Or.inr (List.prefix_refl _)

end Trees

/-! ## What a deletion does -/

/-- All keys below the one with the names `p` can be opened and deleted. -/
def Clear (c : Calls) (t : Tree γ) (p : KeyPath) : Prop :=
  ∀ q ∈ t.paths, p <+: q → q ≠ p → c.RegOpenKeyEx q = ERROR_SUCCESS ∧ c.RegDeleteKey q = ERROR_SUCCESS

/-- What the loop over the sub-keys of `p` returns and leaves. -/
structure Looped (c : Calls) (p : KeyPath) (w : World γ) (lRes : LONG) (w' : World γ) : Prop where
  result : lRes = ERROR_SUCCESS ↔ Clear c w.tree p
  gone : lRes = ERROR_SUCCESS → ∀ q ∈ w'.tree.paths, p <+: q → q = p
  others : w'.tree.keys.filter (notBelow p) = w.tree.keys.filter (notBelow p)
  handles : ∃ leaked, w'.handles = leaked ++ w.handles ∧ (lRes = ERROR_SUCCESS → leaked = [])

/-- What a call for the key `p` returns and leaves. -/
structure Recursed (c : Calls) (p : KeyPath) (w : World γ) (lRes : LONG) (w' : World γ) : Prop where
  result : lRes = ERROR_SUCCESS ↔ p ∈ w.tree.paths ∧ c.RegOpenKeyEx p = ERROR_SUCCESS ∧ Clear c w.tree p ∧
    c.RegDeleteKey p = ERROR_SUCCESS
  gone : lRes = ERROR_SUCCESS → ∀ q ∈ w'.tree.paths, ¬ p <+: q
  kept : lRes ≠ ERROR_SUCCESS → p ∈ w.tree.paths → p ∈ w'.tree.paths
  others : w'.tree.keys.filter (outside p) = w.tree.keys.filter (outside p)
  handles : ∃ leaked, w'.handles = leaked ++ w.handles ∧
    (leaked = [] ↔ (p ∈ w.tree.paths → c.RegOpenKeyEx p = ERROR_SUCCESS → Clear c w.tree p))

section Runs
variable {c : Calls} {w w' : World γ} {p q base : KeyPath} {key rslt : HKEY} {lpszKey : List CString} {n : CString}
variable {lRes : LONG}

theorem Recursed.keys (h : Recursed c p w ERROR_SUCCESS w') : w'.tree.keys = w.tree.keys.filter (outside p) := by
  rw [← h.others, eq_comm, List.filter_eq_self]
  intro e he
  rw [outside_iff]
  exact h.gone rfl e.1 (List.mem_map_of_mem he)

theorem notBelow_outside (p : KeyPath) (n : CString) (e : KeyPath × List (CString × γ)) (h : notBelow p e = true) :
    outside (p ++ [n]) e = true := by
  rw [notBelow_iff] at h
  rw [outside_iff]
  intro hchild
  have heq := h ((List.prefix_append p [n]).trans hchild)
  rw [heq] at hchild
  exact not_prefix_parent p n hchild

theorem outside_notBelow (p : KeyPath) (e : KeyPath × List (CString × γ)) (h : outside p e = true) :
    notBelow p e = true := by
  rw [outside_iff] at h
  rw [notBelow_iff]
  exact fun hprefix => absurd hprefix h

/-- A sub-key of a clear key is deleted. -/
theorem Clear.child (h : Clear c w.tree p) (hmem : p ++ [n] ∈ w.tree.paths) :
    c.RegOpenKeyEx (p ++ [n]) = ERROR_SUCCESS ∧ Clear c w.tree (p ++ [n]) ∧
      c.RegDeleteKey (p ++ [n]) = ERROR_SUCCESS := by
  have hne : ∀ q, p ++ [n] <+: q → q ≠ p := by
    rintro q hq rfl
    exact not_prefix_parent q n hq
  obtain ⟨hopen, hdelete⟩ := h _ hmem (List.prefix_append p [n]) (hne _ (List.prefix_refl _))
  exact ⟨hopen, fun q hq hprefix _ => h q hq ((List.prefix_append p [n]).trans hprefix) (hne q hprefix), hdelete⟩

/-- When a sub-key is deleted, what is left is as clear as before. -/
theorem clear_rest_iff (h : Recursed c (p ++ [n]) w ERROR_SUCCESS w') :
    Clear c w'.tree p ↔ Clear c w.tree p := by
  obtain ⟨-, hopen, hclear, hdelete⟩ := h.result.1 rfl
  constructor
  · intro hrest q hq hprefix hne
    by_cases hchild : p ++ [n] <+: q
    · by_cases hself : q = p ++ [n]
      · rw [hself]
        exact ⟨hopen, hdelete⟩
      · exact hclear q hq hchild hself
    · exact hrest q (mem_paths_of_filter (fun _ => outside_iff.2 hchild) h.others hq) hprefix hne
  · intro hall q hq
    exact hall q (mem_paths_of_filter (fun _ => outside_iff.2 (h.gone rfl q hq)) h.others.symm hq)

/-- A turn of the loop in which the deletion of the sub-key fails. -/
theorem Recursed.stops (hmem : p ++ [n] ∈ w.tree.paths) (h : Recursed c (p ++ [n]) w lRes w')
    (hfails : lRes ≠ ERROR_SUCCESS) : Looped c p w lRes w' := by
  obtain ⟨leaked, hleaked, -⟩ := h.handles
  refine ⟨iff_of_false hfails fun hclear => ?_, fun hres => absurd hres hfails,
    filter_congr_of_le (notBelow_outside p n) h.others, leaked, hleaked, fun hres => absurd hres hfails⟩
  exact hfails (h.result.2 ⟨hmem, hclear.child hmem⟩)

/-- A turn in which it succeeds, and the further ones. -/
theorem Recursed.continues {w'' : World γ} (h : Recursed c (p ++ [n]) w ERROR_SUCCESS w')
    (hrest : Looped c p w' lRes w'') : Looped c p w lRes w'' := by
  obtain ⟨leaked, hleaked, hnil⟩ := h.handles
  obtain ⟨leaked', hleaked', hnil'⟩ := hrest.handles
  rw [hnil.2 fun _ _ => (h.result.1 rfl).2.2.1, List.nil_append] at hleaked
  rw [hleaked] at hleaked'
  refine ⟨hrest.result.trans (clear_rest_iff h), hrest.gone, ?_, leaked', hleaked', hnil'⟩
  exact hrest.others.trans (filter_congr_of_le (notBelow_outside p n) h.others)

theorem deleteSubkeys_done (fuel : ℕ) (h : regEnumKeyEx rslt w = none) :
    deleteSubkeys c (fuel + 1) rslt w = some (ERROR_SUCCESS, w) := by
  rw [deleteSubkeys, h]

theorem deleteSubkeys_next (fuel : ℕ) (h : regEnumKeyEx rslt w = some n) :
    deleteSubkeys c (fuel + 1) rslt w = (recurseDeleteKey c fuel rslt [n] w).bind fun r =>
      if r.1 ≠ ERROR_SUCCESS then some r else deleteSubkeys c fuel rslt r.2 := by
  rw [deleteSubkeys, h]

/-- The loop, when every call for a sub-key does what it should. -/
theorem deleteSubkeys_looped {N : ℕ} (hcall : ∀ (w : World γ) (key : HKEY) (base : KeyPath) (lpszKey : List CString),
    w.handles.lookup key = some base → w.tree.size (base ++ lpszKey) < N → ∃ lRes w',
      Settles (fun fuel => recurseDeleteKey c fuel key lpszKey w) (lRes, w') ∧ Recursed c (base ++ lpszKey) w lRes w')
    (hrslt : w.handles.lookup rslt = some p) (hsize : w.tree.size p ≤ N) :
    ∃ lRes w', Settles (fun fuel => deleteSubkeys c fuel rslt w) (lRes, w') ∧ Looped c p w lRes w' := by
  -- every turn that goes on leaves fewer keys
  induction hk : w.tree.size p using Nat.strong_induction_on generalizing w with
  | _ k ih =>
    have henum : regEnumKeyEx rslt w = w.tree.firstSubkey p := by
      unfold regEnumKeyEx
      rw [hrslt]
      rfl
    cases hfirst : w.tree.firstSubkey p with
    | none =>
      have hbelow : ∀ q ∈ w.tree.paths, p <+: q → q = p := fun q hq =>
        Tree.below_none (firstSubkey_eq_none.1 hfirst) hq
      refine ⟨ERROR_SUCCESS, w, (Settles.const _).succ fun fuel => deleteSubkeys_done fuel (henum.trans hfirst), ?_⟩
      exact ⟨iff_of_true rfl fun q hq hprefix hne => absurd (hbelow q hq hprefix) hne, fun _ => hbelow, rfl, [], rfl,
        fun _ => rfl⟩
    | some n =>
      have hmem := firstSubkey_mem hfirst
      have hchild := Tree.size_child hmem
      obtain ⟨lRes, w', hsettles, hw'⟩ := hcall w rslt p [n] hrslt (by omega)
      have hnext := fun fuel => deleteSubkeys_next (c := c) fuel (henum.trans hfirst)
      by_cases hres : lRes = ERROR_SUCCESS
      · subst hres
        have hhandles : w'.handles = w.handles := by
          obtain ⟨leaked, hleaked, hnil⟩ := hw'.handles
          rw [hleaked, hnil.2 fun _ _ => (hw'.result.1 rfl).2.2.1, List.nil_append]
        have hless := Tree.size_outside hmem hw'.keys
        obtain ⟨lRes, w'', hsettles', hw''⟩ := ih _ (hk ▸ hless) (hhandles ▸ hrslt) (by omega) rfl
        refine ⟨lRes, w'', Settles.succ hnext (hsettles.bind ?_), hw'.continues hw''⟩
        exact hsettles'
      · refine ⟨lRes, w', Settles.succ hnext (hsettles.bind ?_), hw'.stops hmem hres⟩
        exact ⟨0, fun fuel _ => if_pos hres⟩

theorem regOpenKeyEx_fails (hkey : w.handles.lookup key = some base)
    (h : ¬ (base ++ lpszKey ∈ w.tree.paths ∧ c.RegOpenKeyEx (base ++ lpszKey) = ERROR_SUCCESS)) :
    ∃ err, err ≠ ERROR_SUCCESS ∧ regOpenKeyEx c key lpszKey w = .error err := by
  unfold regOpenKeyEx
  rw [hkey]
  dsimp only
  by_cases hmem : base ++ lpszKey ∈ w.tree.paths
  · rw [if_pos (List.contains_iff_mem.2 hmem)]
    by_cases hopen : c.RegOpenKeyEx (base ++ lpszKey) = ERROR_SUCCESS
    · exact absurd ⟨hmem, hopen⟩ h
    · exact ⟨_, hopen, if_neg hopen⟩
  · rw [if_neg fun hcontains => hmem (List.contains_iff_mem.1 hcontains)]
    exact ⟨_, by decide, rfl⟩

theorem regOpenKeyEx_opens (hkey : w.handles.lookup key = some base) (hmem : base ++ lpszKey ∈ w.tree.paths)
    (hopen : c.RegOpenKeyEx (base ++ lpszKey) = ERROR_SUCCESS) : regOpenKeyEx c key lpszKey w =
      .ok (c.newHandle w.handles, { w with handles := (c.newHandle w.handles, base ++ lpszKey) :: w.handles }) := by
  unfold regOpenKeyEx
  rw [hkey]
  dsimp only
  rw [if_pos (List.contains_iff_mem.2 hmem), if_pos hopen]

theorem regCloseKey_new (c : Calls) (handles : List (HKEY × KeyPath)) (p : KeyPath) :
    ((c.newHandle handles, p) :: handles).filter (fun e => e.1 != c.newHandle handles) = handles := by
  rw [List.filter_cons_of_neg (by simp), List.filter_eq_self]
  intro e he
  refine bne_iff_ne.2 fun heq => c.fresh handles ?_
  rw [← heq]
  exact List.mem_map_of_mem he

/-- A key without sub-keys is deleted unless the call fails. -/
theorem regDeleteKey_eq (hkey : w.handles.lookup key = some base) (hmem : base ++ lpszKey ∈ w.tree.paths)
    (hnone : w.tree.firstSubkey (base ++ lpszKey) = none) : regDeleteKey c key lpszKey w =
      (c.RegDeleteKey (base ++ lpszKey), if c.RegDeleteKey (base ++ lpszKey) = ERROR_SUCCESS then
        { w with tree := w.tree.remove (base ++ lpszKey) hnone } else w) := by
  unfold regDeleteKey
  rw [hkey]
  dsimp only
  rw [if_pos (List.contains_iff_mem.2 hmem), dif_pos hnone]
  split
  · next hdelete => rw [hdelete]
  · rfl

theorem Looped.path_mem (h : Looped c p w lRes w') (hmem : p ∈ w.tree.paths) : p ∈ w'.tree.paths :=
  mem_paths_of_filter (fun _ => notBelow_iff.2 fun _ => rfl) h.others hmem

/-- The call, when the loop fails: the handle stays open. -/
theorem Looped.fails (hmem : p ∈ w.tree.paths) (hopen : c.RegOpenKeyEx p = ERROR_SUCCESS)
    (h : Looped c p { w with handles := (c.newHandle w.handles, p) :: w.handles } lRes w') (hres : lRes ≠ ERROR_SUCCESS) :
    Recursed c p w lRes w' := by
  have hclear : ¬ Clear c w.tree p := fun hclear => hres (h.result.2 hclear)
  obtain ⟨leaked, hleaked, -⟩ := h.handles
  refine ⟨iff_of_false hres fun hall => hclear hall.2.2.1, fun hsuccess => absurd hsuccess hres, fun _ => h.path_mem,
    filter_congr_of_le (outside_notBelow p) h.others, leaked ++ [(c.newHandle w.handles, p)], ?_, ?_⟩
  · rw [hleaked, List.append_assoc, List.singleton_append]
  · exact iff_of_false (by simp) fun hall => hclear (hall hmem hopen)

/-- The call, when the loop ends: the key is deleted if that does not fail. -/
theorem Looped.deletes (hkey : w.handles.lookup key = some base) (hmem : base ++ lpszKey ∈ w.tree.paths)
    (hopen : c.RegOpenKeyEx (base ++ lpszKey) = ERROR_SUCCESS)
    (h : Looped c (base ++ lpszKey) { w with handles := (c.newHandle w.handles, base ++ lpszKey) :: w.handles }
      ERROR_SUCCESS w') :
    ∃ w'', regDeleteKey c key lpszKey (regCloseKey (c.newHandle w.handles) w') = (c.RegDeleteKey (base ++ lpszKey), w'') ∧
      Recursed c (base ++ lpszKey) w (c.RegDeleteKey (base ++ lpszKey)) w'' := by
  have hclear : Clear c w.tree (base ++ lpszKey) := h.result.1 rfl
  obtain ⟨leaked, hleaked, hnil⟩ := h.handles
  rw [hnil rfl, List.nil_append] at hleaked
  have hclosed : (regCloseKey (c.newHandle w.handles) w').handles = w.handles := by
    unfold regCloseKey
    rw [hleaked]
    exact regCloseKey_new c w.handles _
  have hnone : (regCloseKey (c.newHandle w.handles) w').tree.firstSubkey (base ++ lpszKey) = none := by
    rw [firstSubkey_eq_none]
    intro n hn
    have heq := h.gone rfl _ hn (List.prefix_append _ [n])
    exact absurd heq (by simp)
  have hothers := filter_congr_of_le (outside_notBelow (base ++ lpszKey)) h.others
  have hkey' : (regCloseKey (c.newHandle w.handles) w').handles.lookup key = some base := by
    rw [hclosed]
    exact hkey
  refine ⟨_, regDeleteKey_eq hkey' (h.path_mem hmem) hnone, ?_⟩
  by_cases hdelete : c.RegDeleteKey (base ++ lpszKey) = ERROR_SUCCESS
  · rw [if_pos hdelete]
    refine ⟨iff_of_true hdelete ⟨hmem, hopen, hclear, hdelete⟩, fun _ q hq hprefix => ?_,
      fun hfails => absurd hdelete hfails, ?_, [], hclosed, iff_of_true rfl fun _ _ => hclear⟩
    · obtain ⟨e, he, rfl⟩ := List.mem_map.1 hq
      obtain ⟨he, hne⟩ := List.mem_filter.1 he
      exact bne_iff_ne.1 hne (h.gone rfl e.1 (List.mem_map_of_mem he) hprefix)
    · refine Eq.trans ?_ hothers
      refine filter_of_le (fun e he => ?_) _
      rw [outside_iff] at he
      exact bne_iff_ne.2 fun heq => he (heq ▸ List.prefix_refl _)
  · rw [if_neg hdelete]
    refine ⟨iff_of_false hdelete fun hall => hdelete hall.2.2.2, fun hsuccess => absurd hsuccess hdelete,
      fun _ => h.path_mem, hothers, [], hclosed, iff_of_true rfl fun _ _ => hclear⟩

/-- Every call ends, with what `Recursed` says of it. -/
theorem recurseDeleteKey_recursed (c : Calls) (lpszKey : List CString) (hkey : w.handles.lookup key = some base) :
    ∃ lRes w', Settles (fun fuel => recurseDeleteKey c fuel key lpszKey w) (lRes, w') ∧
      Recursed c (base ++ lpszKey) w lRes w' := by
  induction hN : w.tree.size (base ++ lpszKey) using Nat.strong_induction_on generalizing w key base lpszKey with
  | _ N ih =>
    by_cases hcan : base ++ lpszKey ∈ w.tree.paths ∧ c.RegOpenKeyEx (base ++ lpszKey) = ERROR_SUCCESS
    · obtain ⟨hmem, hopen⟩ := hcan
      have hrslt : ((c.newHandle w.handles, base ++ lpszKey) :: w.handles).lookup (c.newHandle w.handles) =
          some (base ++ lpszKey) := List.lookup_cons_self
      obtain ⟨lRes, w', hsettles, hw'⟩ := deleteSubkeys_looped (c := c) (N := N)
        (w := { w with handles := (c.newHandle w.handles, base ++ lpszKey) :: w.handles })
        (fun w key base lpszKey hkey hlt => ih _ hlt lpszKey hkey rfl) hrslt hN.le
      have hnext : ∀ fuel, recurseDeleteKey c (fuel + 1) key lpszKey w =
          (deleteSubkeys c fuel (c.newHandle w.handles)
            { w with handles := (c.newHandle w.handles, base ++ lpszKey) :: w.handles }).map fun r =>
              if r.1 ≠ ERROR_SUCCESS then r
              else regDeleteKey c key lpszKey (regCloseKey (c.newHandle w.handles) r.2) := by
        intro fuel
        rw [recurseDeleteKey, regOpenKeyEx_opens hkey hmem hopen]
      by_cases hres : lRes = ERROR_SUCCESS
      · subst hres
        obtain ⟨w'', hdelete, hw''⟩ := hw'.deletes hkey hmem hopen
        refine ⟨_, w'', Settles.succ hnext ?_, hw''⟩
        rw [← hdelete]
        exact hsettles.map _
      · refine ⟨lRes, w', Settles.succ hnext ?_, hw'.fails hmem hopen hres⟩
        have hmap := hsettles.map fun r =>
          if r.1 ≠ ERROR_SUCCESS then r else regDeleteKey c key lpszKey (regCloseKey (c.newHandle w.handles) r.2)
        dsimp only at hmap
        rw [if_pos hres] at hmap
        exact hmap
    · obtain ⟨err, herr, hfails⟩ := regOpenKeyEx_fails hkey hcan
      refine ⟨err, w, (Settles.const _).succ fun fuel => by rw [recurseDeleteKey, hfails], ?_⟩
      refine ⟨iff_of_false herr fun hall => hcan ⟨hall.1, hall.2.1⟩, fun hsuccess => absurd hsuccess herr,
        fun _ hmem => hmem, rfl, [], rfl, ?_⟩
      exact iff_of_true rfl fun hmem hopen => absurd ⟨hmem, hopen⟩ hcan

end Runs

/-! ## Handles that stay open -/

section Clean
variable {c : Calls} {w : World γ} {key : HKEY} {lpszKey : List CString}

/-- The key with the names `lpszKey` from that of the handle on, and the keys below it. -/
def InSubtree (w : World γ) (key : HKEY) (lpszKey : List CString) (q : KeyPath) : Prop :=
  ∃ base, w.handles.lookup key = some base ∧ base ++ lpszKey <+: q

/-- The call ends; the handles that it opened are closed, it returns success only if no key of the sub-tree is left, and
all other keys are there as before. -/
def Clean (c : Calls) (key : HKEY) (lpszKey : List CString) (w : World γ) : Prop :=
  ∃ lRes w', Settles (fun fuel => recurseDeleteKey c fuel key lpszKey w) (lRes, w') ∧ w'.handles = w.handles ∧
    (lRes = ERROR_SUCCESS → ∀ q ∈ w'.tree.paths, ¬ InSubtree w key lpszKey q) ∧
    ∀ e, ¬ InSubtree w key lpszKey e.1 → (e ∈ w'.tree.keys ↔ e ∈ w.tree.keys)

theorem inSubtree_iff {base : KeyPath} (hkey : w.handles.lookup key = some base) {q : KeyPath} :
    InSubtree w key lpszKey q ↔ base ++ lpszKey <+: q := by
  constructor
  · rintro ⟨base', hbase', hprefix⟩
    rw [Option.some.inj (hkey.symm.trans hbase')]
    exact hprefix
  · exact fun hprefix => ⟨base, hkey, hprefix⟩

/-- All of it holds exactly when every key below the one to be deleted can be opened and deleted, if that key is there
and can be opened. -/
theorem recurseDeleteKey_clean_iff (c : Calls) (key : HKEY) (lpszKey : List CString) (w : World γ) :
    Clean c key lpszKey w ↔ ∀ base, w.handles.lookup key = some base → base ++ lpszKey ∈ w.tree.paths →
      c.RegOpenKeyEx (base ++ lpszKey) = ERROR_SUCCESS → Clear c w.tree (base ++ lpszKey) := by
  cases hkey : w.handles.lookup key with
  | none =>
    refine iff_of_true ⟨ERROR_INVALID_HANDLE, w, (Settles.const _).succ fun fuel => ?_, rfl, nofun, fun _ _ => Iff.rfl⟩
      nofun
    have hfails : regOpenKeyEx c key lpszKey w = .error ERROR_INVALID_HANDLE := by
      unfold regOpenKeyEx
      rw [hkey]
    rw [recurseDeleteKey, hfails]
  | some base =>
    obtain ⟨lRes, w', hsettles, hw'⟩ := recurseDeleteKey_recursed c lpszKey hkey
    obtain ⟨leaked, hleaked, hnil⟩ := hw'.handles
    have hclear : (∀ base', some base = some base' → base' ++ lpszKey ∈ w.tree.paths →
        c.RegOpenKeyEx (base' ++ lpszKey) = ERROR_SUCCESS → Clear c w.tree (base' ++ lpszKey)) ↔ leaked = [] := by
      rw [hnil]
      constructor
      · exact fun h => h base rfl
      · rintro h base' heq
        rw [← Option.some.inj heq]
        exact h
    rw [hclear]
    constructor
    · rintro ⟨lRes', w'', hsettles', hhandles, -⟩
      obtain ⟨-, rfl⟩ := Prod.mk.inj (hsettles.unique hsettles')
      rw [hleaked] at hhandles
      exact List.append_left_eq_self.1 hhandles
    · rintro rfl
      refine ⟨lRes, w', hsettles, hleaked, fun hres q hq => ?_, fun e he => ?_⟩
      · rw [inSubtree_iff hkey]
        exact hw'.gone hres q hq
      · rw [inSubtree_iff hkey, ← outside_iff] at he
        have hmem : ∀ t : Tree γ, e ∈ t.keys ↔ e ∈ t.keys.filter (outside (base ++ lpszKey)) := by
          intro t
          rw [List.mem_filter, and_iff_left he]
        rw [hmem w'.tree, hw'.others, ← hmem]

end Clean

/-- A tree, when the key above each key is among them. -/
def Tree.ofKeys (keys : List (KeyPath × List (CString × γ)))
    (h : ∀ q ∈ keys.map Prod.fst, q.dropLast ∈ keys.map Prod.fst) : Tree γ where
  keys := keys
  closed p n hmem := by
    have hparent := h _ hmem
    rw [List.dropLast_concat] at hparent
    exact hparent

theorem le_foldr_max {l : List HKEY} {n : HKEY} (h : n ∈ l) : n ≤ l.foldr max 0 := by
  induction l with
  | nil => exact absurd h List.not_mem_nil
  | cons m l ih =>
    rcases List.mem_cons.1 h with rfl | h
    · exact Nat.le_max_left n _
    · exact Nat.le_trans (ih h) (Nat.le_max_right m _)

/-- Calls that do not fail, but for the deletion of keys with these names. -/
def sampleCalls (denied : List KeyPath) : Calls where
  RegCreateKeyEx _ := ERROR_SUCCESS
  RegOpenKeyEx _ := ERROR_SUCCESS
  RegDeleteKey p := if denied.contains p then ERROR_ACCESS_DENIED else ERROR_SUCCESS
  newHandle handles := (handles.map Prod.fst).foldr max 0 + 1
  fresh _ h := Nat.not_succ_le_self _ (le_foldr_max h)

/-- The key `a` with a sub-key `b`. -/
def sampleWorld : World Unit where
  tree := Tree.ofKeys [([], []), ([[0x61]], []), ([[0x61], [0x62]], [])] (by decide)
  handles := [(1, [])]

/-- When `b` cannot be deleted the handle of `a` stays open. -/
theorem subkey_leaks : ¬ ∀ (c : Calls) (key : HKEY) (lpszKey : List CString) (w : World Unit), Clean c key lpszKey w := by
  intro hall
  obtain ⟨lRes, w', hsettles, hhandles, -⟩ := hall (sampleCalls [[[0x61], [0x62]]]) 1 [[0x61]] sampleWorld
  have hkey : sampleWorld.handles.lookup 1 = some [] := rfl
  obtain ⟨lRes', w'', hsettles', hw''⟩ := recurseDeleteKey_recursed (sampleCalls [[[0x61], [0x62]]]) [[0x61]] hkey
  obtain ⟨-, rfl⟩ := Prod.mk.inj (hsettles.unique hsettles')
  obtain ⟨leaked, hleaked, hnil⟩ := hw''.handles
  rw [hhandles, eq_comm, List.append_left_eq_self] at hleaked
  have hclear := hnil.1 hleaked (by decide) rfl
  exact absurd (hclear [[0x61], [0x62]] (by decide) ⟨[[0x62]], rfl⟩ (by decide)).2 (by decide)

end StarLib.Regkey.Deletion
