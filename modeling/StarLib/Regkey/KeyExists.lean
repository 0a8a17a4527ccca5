import StarLib.Regkey.Deletion

/-! # `CRegKey::KeyExists`

The function creates the key, and deletes it again when it was not there before. The handle and the disposition that
`RegCreateKeyEx` returns are not set when it fails, and then have any values.
-/

namespace StarLib.Regkey.Deletion
open Foundations
set_option autoImplicit false
set_option maxHeartbeats 250000
set_option maxRecDepth 120000

abbrev DWORD := BitVec 32

def REG_CREATED_NEW_KEY : DWORD := 1

def REG_OPENED_EXISTING_KEY : DWORD := 2

variable {γ : Type}

/-! ## Creating keys -/

/-- The keys on the way from `base` that are not there. -/
def Tree.missing (t : Tree γ) (base : KeyPath) (names : List CString) : List KeyPath :=
  (names.inits.map (base ++ ·)).filter fun q => !t.paths.contains q

theorem mem_missing {t : Tree γ} {base q : KeyPath} {names : List CString} :
    q ∈ t.missing base names ↔ q ∉ t.paths ∧ ∃ r, r <+: names ∧ q = base ++ r := by
  unfold Tree.missing
  rw [List.mem_filter, List.mem_map, Bool.not_eq_true', ← Bool.not_eq_true, List.contains_iff_mem, and_comm]
  refine and_congr_right fun _ => exists_congr fun r => ?_
  rw [List.mem_inits]
  exact and_congr_right fun _ => eq_comm

/-- The tree with them, and without values of theirs. -/
def Tree.create (t : Tree γ) (base : KeyPath) (names : List CString) (hbase : t.paths.contains base = true) : Tree γ where
  keys := t.keys ++ (t.missing base names).map fun q => (q, [])
  closed := by
    intro q n hq
    have hmap : (t.missing base names).map (Prod.fst ∘ fun q => (q, ([] : List (CString × γ)))) = t.missing base names :=
      List.map_id _
    rw [List.map_append, List.map_map, List.mem_append, hmap] at hq ⊢
    rcases hq with hq | hq
    · exact Or.inl (t.closed q n hq)
    · obtain ⟨hnew, r, hr, hqr⟩ := mem_missing.1 hq
      rcases List.eq_nil_or_concat r with rfl | ⟨r, m, rfl⟩
      · rw [List.append_nil] at hqr
        exact absurd (List.contains_iff_mem.1 hbase) (hqr ▸ hnew)
      · rw [List.concat_eq_append, ← List.append_assoc] at hqr
        obtain ⟨rfl, -⟩ := List.append_inj' hqr rfl
        by_cases hold : base ++ r ∈ t.paths
        · exact Or.inl hold
        · refine Or.inr (mem_missing.2 ⟨hold, r, ?_, rfl⟩)
          exact (List.prefix_append r [m]).trans (List.concat_eq_append ▸ hr)

theorem create_keys {t : Tree γ} {base : KeyPath} {names : List CString} (hbase : t.paths.contains base = true) :
    (t.create base names hbase).keys = t.keys ++ (t.missing base names).map fun q => (q, []) := rfl

theorem create_paths {t : Tree γ} {base q : KeyPath} {names : List CString} (hbase : t.paths.contains base = true) :
    q ∈ (t.create base names hbase).paths ↔ q ∈ t.paths ∨ ∃ r, r <+: names ∧ q = base ++ r := by
  have hsplit : q ∈ (t.create base names hbase).paths ↔ q ∈ t.paths ∨ q ∈ t.missing base names := by
    unfold Tree.paths Tree.create
    rw [List.map_append, List.map_map, List.mem_append]
    refine or_congr_right ?_
    rw [List.mem_map]
    exact exists_eq_right
  rw [hsplit, mem_missing]
  constructor
  · exact Or.imp_right And.right
  · rintro (hq | hr)
    · exact Or.inl hq
    · exact or_iff_not_imp_left.2 fun hq => ⟨hq, hr⟩

theorem Tree.eq_of_keys {t t' : Tree γ} (h : t.keys = t'.keys) : t = t' := by
  cases t
  cases t'
  congr

def ERROR_KEY_DELETED : LONG := 1018

/-- `RegCreateKeyEx`: the handle, the disposition and what is left. -/
def regCreateKeyEx (c : Calls) (hKeyRoot : HKEY) (pszPath : List CString) (w : World γ) :
    Except LONG (HKEY × DWORD × World γ) :=
  match w.handles.lookup hKeyRoot with
  | none => .error ERROR_INVALID_HANDLE
  | some base =>
    let p := base ++ pszPath
    if hbase : w.tree.paths.contains base = true then
      if c.RegCreateKeyEx p = ERROR_SUCCESS then
        .ok (c.newHandle w.handles, if w.tree.paths.contains p then REG_OPENED_EXISTING_KEY else REG_CREATED_NEW_KEY,
          ⟨w.tree.create base pszPath hbase, (c.newHandle w.handles, p) :: w.handles⟩)
      else .error (c.RegCreateKeyEx p)
    else .error ERROR_KEY_DELETED

/-- What the variables hold after the call: it sets them unless it fails. -/
def createdOr (hTemp : HKEY) (dwDisp : DWORD) (w : World γ) :
    Except LONG (HKEY × DWORD × World γ) → HKEY × DWORD × World γ
  | .error _ => (hTemp, dwDisp, w)
  | .ok r => r

/-- `CRegKey::KeyExists`, in which `hTemp` and `dwDisp` have these values before the call of `RegCreateKeyEx`: what is
returned, and what is left. -/
def keyExists (c : Calls) (hTemp : HKEY) (dwDisp : DWORD) (fuel : ℕ) (hKeyRoot : HKEY) (pszPath : List CString)
    (w : World γ) : Option (Bool × World γ) :=
  let (hTemp, dwDisp, w) := createdOr hTemp dwDisp w (regCreateKeyEx c hKeyRoot pszPath w)
  let w := regCloseKey hTemp w
  let bExistingKey := dwDisp == REG_OPENED_EXISTING_KEY
  if !bExistingKey then (delete c fuel hKeyRoot pszPath w).map fun r => (bExistingKey, r.2)
  else some (bExistingKey, w)

/-! ## What is left of the call -/

/-- The key is there. -/
def HasKey (w : World γ) (hKeyRoot : HKEY) (pszPath : List CString) : Prop :=
  ∃ base, w.handles.lookup hKeyRoot = some base ∧ base ++ pszPath ∈ w.tree.paths

/-- The key can be created or opened. -/
def Creates (c : Calls) (hKeyRoot : HKEY) (pszPath : List CString) (w : World γ) : Prop :=
  ∃ base, w.handles.lookup hKeyRoot = some base ∧ base ∈ w.tree.paths ∧ c.RegCreateKeyEx (base ++ pszPath) = ERROR_SUCCESS

/-- The key above it is there, and the new one can be opened and deleted. -/
def Restores (c : Calls) (hKeyRoot : HKEY) (pszPath : List CString) (w : World γ) : Prop :=
  ∃ base, w.handles.lookup hKeyRoot = some base ∧ base ++ pszPath.dropLast ∈ w.tree.paths ∧
    c.RegOpenKeyEx (base ++ pszPath) = ERROR_SUCCESS ∧ c.RegDeleteKey (base ++ pszPath) = ERROR_SUCCESS

/-- The call ends, leaves the registry as it was, and returns whether the key was there. -/
def Keeps (c : Calls) (hTemp : HKEY) (dwDisp : DWORD) (hKeyRoot : HKEY) (pszPath : List CString) (w : World γ) : Prop :=
  ∃ bExistingKey w', Settles (fun fuel => keyExists c hTemp dwDisp fuel hKeyRoot pszPath w) (bExistingKey, w') ∧
    w'.tree = w.tree ∧ (bExistingKey = true ↔ HasKey w hKeyRoot pszPath)

section Calls
variable {c : Calls} {hTemp hKeyRoot : HKEY} {dwDisp : DWORD} {pszPath : List CString} {w w' : World γ} {base : KeyPath}

theorem hasKey_iff (hkey : w.handles.lookup hKeyRoot = some base) :
    HasKey w hKeyRoot pszPath ↔ base ++ pszPath ∈ w.tree.paths := by
  constructor
  · rintro ⟨base', hbase', hmem⟩
    rw [Option.some.inj (hkey.symm.trans hbase')]
    exact hmem
  · exact fun hmem => ⟨base, hkey, hmem⟩

theorem regCloseKey_created (c : Calls) (t : Tree γ) (handles : List (HKEY × KeyPath)) (p : KeyPath) :
    regCloseKey (c.newHandle handles) ⟨t, (c.newHandle handles, p) :: handles⟩ = ⟨t, handles⟩ := by
  unfold regCloseKey
  dsimp only
  rw [regCloseKey_new]

theorem regCreateKeyEx_fails (h : ¬ Creates c hKeyRoot pszPath w) :
    ∃ err, regCreateKeyEx c hKeyRoot pszPath w = .error err := by
  unfold regCreateKeyEx
  cases hkey : w.handles.lookup hKeyRoot with
  | none => exact ⟨_, rfl⟩
  | some base =>
    dsimp only
    by_cases hbase : w.tree.paths.contains base = true
    · rw [dif_pos hbase]
      by_cases hcreate : c.RegCreateKeyEx (base ++ pszPath) = ERROR_SUCCESS
      · exact absurd ⟨base, hkey, List.contains_iff_mem.1 hbase, hcreate⟩ h
      · exact ⟨_, if_neg hcreate⟩
    · exact ⟨_, dif_neg hbase⟩

theorem regCreateKeyEx_creates (hkey : w.handles.lookup hKeyRoot = some base) (hbase : w.tree.paths.contains base = true)
    (hcreate : c.RegCreateKeyEx (base ++ pszPath) = ERROR_SUCCESS) : regCreateKeyEx c hKeyRoot pszPath w =
      .ok (c.newHandle w.handles,
        if w.tree.paths.contains (base ++ pszPath) then REG_OPENED_EXISTING_KEY else REG_CREATED_NEW_KEY,
        ⟨w.tree.create base pszPath hbase, (c.newHandle w.handles, base ++ pszPath) :: w.handles⟩) := by
  unfold regCreateKeyEx
  rw [hkey]
  dsimp only
  rw [dif_pos hbase, if_pos hcreate]

theorem lookup_filter_ne {handles : List (HKEY × KeyPath)} {key k : HKEY} (hne : key ≠ k) :
    (handles.filter fun e => e.1 != k).lookup key = handles.lookup key := by
  induction handles with
  | nil => rfl
  | cons e l ih =>
    by_cases he : e.1 = k
    · have hkey : (key == e.1) = false := beq_eq_false_iff_ne.2 fun heq => hne (heq.trans he)
      rw [List.filter_cons_of_neg (by simp [he]), ih, List.lookup_cons, hkey]
    · rw [List.filter_cons_of_pos (by simp [he]), List.lookup_cons, List.lookup_cons, ih]

/-- Without the entries of a handle nothing is found that was not found before. -/
theorem lookup_of_filter {handles : List (HKEY × KeyPath)} {key k : HKEY}
    (h : (handles.filter fun e => e.1 != k).lookup key = some base) : handles.lookup key = some base := by
  obtain ⟨l, l', hl, -⟩ := List.lookup_eq_some_iff.1 h
  have hmem : (key, base) ∈ handles.filter fun e => e.1 != k := by
    rw [hl]
    exact List.mem_append_right l List.mem_cons_self
  rw [← h, lookup_filter_ne (bne_iff_ne.1 (List.mem_filter.1 hmem).2)]

/-- The deletion of a key that is not there changes nothing. -/
theorem delete_absent (c : Calls) (hTemp : HKEY) (habsent : ¬ HasKey w hKeyRoot pszPath) :
    ∃ err, Settles (fun fuel => delete c fuel hKeyRoot pszPath (regCloseKey hTemp w)) (err, regCloseKey hTemp w) := by
  have hfails : ∃ err, regOpenKeyEx c hKeyRoot pszPath (regCloseKey hTemp w) = .error err := by
    cases hkey : (regCloseKey hTemp w).handles.lookup hKeyRoot with
    | none => exact ⟨ERROR_INVALID_HANDLE, by unfold regOpenKeyEx; rw [hkey]⟩
    | some base =>
      obtain ⟨err, -, hfails⟩ := regOpenKeyEx_fails (c := c) hkey fun hopens =>
        habsent ⟨base, lookup_of_filter hkey, hopens.1⟩
      exact ⟨err, hfails⟩
  obtain ⟨err, hfails⟩ := hfails
  refine ⟨err, (Settles.const _).succ fun fuel => ?_⟩
  unfold delete
  rw [recurseDeleteKey, hfails]

theorem keyExists_existing {r : HKEY × DWORD × World γ}
    (hr : createdOr hTemp dwDisp w (regCreateKeyEx c hKeyRoot pszPath w) = r) (hdisp : r.2.1 = REG_OPENED_EXISTING_KEY)
    (fuel : ℕ) : keyExists c hTemp dwDisp fuel hKeyRoot pszPath w = some (true, regCloseKey r.1 r.2.2) := by
  unfold keyExists
  rw [hr]
  dsimp only
  rw [hdisp]
  rfl

theorem keyExists_new {r : HKEY × DWORD × World γ}
    (hr : createdOr hTemp dwDisp w (regCreateKeyEx c hKeyRoot pszPath w) = r) (hdisp : r.2.1 ≠ REG_OPENED_EXISTING_KEY)
    (fuel : ℕ) : keyExists c hTemp dwDisp fuel hKeyRoot pszPath w =
      (delete c fuel hKeyRoot pszPath (regCloseKey r.1 r.2.2)).map fun d => (false, d.2) := by
  unfold keyExists
  rw [hr]
  dsimp only
  rw [beq_eq_false_iff_ne.2 hdisp]
  rfl

/-- What is returned, and what is left, is known: the call keeps the registry or it does not. -/
theorem keeps_iff {bExistingKey : Bool}
    (hsettles : Settles (fun fuel => keyExists c hTemp dwDisp fuel hKeyRoot pszPath w) (bExistingKey, w')) :
    Keeps c hTemp dwDisp hKeyRoot pszPath w ↔
      w'.tree = w.tree ∧ (bExistingKey = true ↔ HasKey w hKeyRoot pszPath) := by
  constructor
  · rintro ⟨b, w'', hsettles', hkeeps⟩
    obtain ⟨rfl, rfl⟩ := Prod.mk.inj (hsettles.unique hsettles')
    exact hkeeps
  · exact fun hkeeps => ⟨bExistingKey, w', hsettles, hkeeps⟩

/-- When the key cannot be created the value of `dwDisp` decides. -/
theorem keeps_iff_of_fails (hcreates : ¬ Creates c hKeyRoot pszPath w) : Keeps c hTemp dwDisp hKeyRoot pszPath w ↔
    (dwDisp = REG_OPENED_EXISTING_KEY ↔ HasKey w hKeyRoot pszPath) := by
  obtain ⟨err, herr⟩ := regCreateKeyEx_fails hcreates
  have hr : createdOr hTemp dwDisp w (regCreateKeyEx c hKeyRoot pszPath w) = (hTemp, dwDisp, w) := by
    rw [herr]
    rfl
  by_cases hdisp : dwDisp = REG_OPENED_EXISTING_KEY
  · have hsettles : Settles (fun fuel => keyExists c hTemp dwDisp fuel hKeyRoot pszPath w) (true, regCloseKey hTemp w) :=
      ⟨0, fun fuel _ => keyExists_existing hr hdisp fuel⟩
    rw [keeps_iff hsettles, eq_self, true_iff, iff_true_left hdisp]
    exact and_iff_right rfl
  · have hnext := keyExists_new hr hdisp
    rw [iff_false_left hdisp]
    constructor
    · rintro ⟨b, w', ⟨turns, hturns⟩, -, hb⟩ hhas
      have hturn := hturns turns (Nat.le_refl turns)
      dsimp only at hturn
      rw [hnext, Option.map_eq_some_iff] at hturn
      obtain ⟨d, -, hd⟩ := hturn
      rw [hb.2 hhas] at hd
      exact absurd (Prod.mk.inj hd).1 Bool.false_ne_true
    · intro habsent
      obtain ⟨err', hdelete⟩ := delete_absent c hTemp habsent
      refine ⟨false, regCloseKey hTemp w, ?_, rfl, iff_of_false Bool.false_ne_true habsent⟩
      have hmap := hdelete.map fun d => (false, d.2)
      exact (funext hnext : (fun fuel => keyExists c hTemp dwDisp fuel hKeyRoot pszPath w) = _) ▸ hmap

/-- Nothing is created when the key is there. -/
theorem Tree.create_eq {t : Tree γ} (hbase : t.paths.contains base = true) (hmem : base ++ pszPath ∈ t.paths) :
    t.create base pszPath hbase = t := by
  have hnone : t.missing base pszPath = [] := by
    refine List.eq_nil_iff_forall_not_mem.2 fun q hq => ?_
    obtain ⟨hnew, r, hr, rfl⟩ := mem_missing.1 hq
    exact hnew (Tree.prefix_mem ((List.prefix_append_right_inj base).2 hr) hmem)
  refine Tree.eq_of_keys ?_
  rw [create_keys, hnone, List.map_nil, List.append_nil]

/-- When the key above the new one is there, nothing else is created. -/
theorem Tree.create_outside {t : Tree γ} (hbase : t.paths.contains base = true) (hnew : base ++ pszPath ∉ t.paths)
    (hparent : base ++ pszPath.dropLast ∈ t.paths) :
    (t.create base pszPath hbase).keys.filter (outside (base ++ pszPath)) = t.keys := by
  have hold : t.keys.filter (outside (base ++ pszPath)) = t.keys := by
    refine List.filter_eq_self.2 fun e he => outside_iff.2 fun hprefix => hnew ?_
    exact Tree.prefix_mem hprefix (List.mem_map_of_mem he)
  have hnone : ((t.missing base pszPath).map fun q => (q, ([] : List (CString × γ)))).filter
      (outside (base ++ pszPath)) = [] := by
    refine List.filter_eq_nil_iff.2 fun e he houtside => ?_
    obtain ⟨q, hq, rfl⟩ := List.mem_map.1 he
    obtain ⟨hqnew, r, hr, rfl⟩ := mem_missing.1 hq
    rcases List.eq_nil_or_concat pszPath with rfl | ⟨names, n, rfl⟩
    · rw [List.prefix_nil.1 hr] at houtside
      exact outside_iff.1 houtside (List.prefix_refl _)
    · rw [List.concat_eq_append] at hr houtside hparent
      rw [List.dropLast_concat] at hparent
      rcases List.prefix_concat_iff.1 hr with rfl | hr
      · exact outside_iff.1 houtside (List.prefix_refl _)
      · exact hqnew (Tree.prefix_mem ((List.prefix_append_right_inj base).2 hr) hparent)
  rw [create_keys, List.filter_append, hold, hnone, List.append_nil]

/-- No key is below a new one. -/
theorem clear_create {t : Tree γ} (hbase : t.paths.contains base = true) (hnew : base ++ pszPath ∉ t.paths) :
    Clear c (t.create base pszPath hbase) (base ++ pszPath) := by
  intro q hq hprefix hne
  rcases (create_paths hbase).1 hq with hq | ⟨r, hr, rfl⟩
  · exact absurd (Tree.prefix_mem hprefix hq) hnew
  · have hlength := ((List.prefix_append_right_inj base).1 hprefix).length_le
    exact absurd (congrArg (base ++ ·) (List.IsPrefix.eq_of_length_le hr hlength)) hne

/-- The deletion of a new key undoes its creation exactly when the key above it was there and the calls succeed. -/
theorem Recursed.undoes_iff (hkey : w.handles.lookup hKeyRoot = some base) (hbase : w.tree.paths.contains base = true)
    (hnew : base ++ pszPath ∉ w.tree.paths) {lRes : LONG}
    (h : Recursed c (base ++ pszPath) ⟨w.tree.create base pszPath hbase, w.handles⟩ lRes w') :
    w'.tree = w.tree ↔ Restores c hKeyRoot pszPath w := by
  have hmem : base ++ pszPath ∈ (w.tree.create base pszPath hbase).paths :=
    (create_paths hbase).2 (Or.inr ⟨pszPath, List.prefix_refl _, rfl⟩)
  constructor
  · intro htree
    have hres : lRes = ERROR_SUCCESS := by
      by_contra hfails
      exact hnew (htree ▸ h.kept hfails hmem)
    obtain ⟨-, hopen, -, hdelete⟩ := h.result.1 hres
    refine ⟨base, hkey, ?_, hopen, hdelete⟩
    rcases List.eq_nil_or_concat pszPath with rfl | ⟨names, n, rfl⟩
    · rw [List.append_nil] at hnew
      exact absurd (List.contains_iff_mem.1 hbase) hnew
    · rw [List.concat_eq_append] at h hnew hmem ⊢
      rw [List.dropLast_concat, ← htree]
      refine mem_paths_of_filter (fun values => outside_iff.2 ?_) h.others
        ((create_paths hbase).2 (Or.inr ⟨names, List.prefix_append names [n], rfl⟩))
      rw [← List.append_assoc]
      exact not_prefix_parent (base ++ names) n
  · rintro ⟨base', hbase', hparent, hopen, hdelete⟩
    obtain rfl := Option.some.inj (hkey.symm.trans hbase')
    have hres : lRes = ERROR_SUCCESS := h.result.2 ⟨hmem, hopen, clear_create hbase hnew, hdelete⟩
    subst hres
    refine Tree.eq_of_keys ?_
    rw [h.keys, Tree.create_outside hbase hnew hparent]

/-- When it can be created the call finds out whether it is there, and what is left is decided by the deletion. -/
theorem keeps_iff_of_creates (hcreates : Creates c hKeyRoot pszPath w) : Keeps c hTemp dwDisp hKeyRoot pszPath w ↔
    HasKey w hKeyRoot pszPath ∨ Restores c hKeyRoot pszPath w := by
  obtain ⟨base, hkey, hbasemem, hcreate⟩ := hcreates
  have hbase := List.contains_iff_mem.2 hbasemem
  have hr := congrArg (createdOr hTemp dwDisp w) (regCreateKeyEx_creates hkey hbase hcreate)
  have hhas : HasKey w hKeyRoot pszPath ↔ base ++ pszPath ∈ w.tree.paths := hasKey_iff hkey
  have hclosed := regCloseKey_created c (w.tree.create base pszPath hbase) w.handles (base ++ pszPath)
  by_cases hmem : base ++ pszPath ∈ w.tree.paths
  · have hdisp : (if w.tree.paths.contains (base ++ pszPath) then REG_OPENED_EXISTING_KEY else REG_CREATED_NEW_KEY) =
        REG_OPENED_EXISTING_KEY := if_pos (List.contains_iff_mem.2 hmem)
    have hkeeps : Settles (fun fuel => keyExists c hTemp dwDisp fuel hKeyRoot pszPath w)
        (true, ⟨w.tree.create base pszPath hbase, w.handles⟩) := by
      rw [← hclosed]
      exact ⟨0, fun fuel _ => keyExists_existing hr hdisp fuel⟩
    rw [keeps_iff hkeeps]
    refine iff_of_true ⟨Tree.create_eq hbase hmem, iff_of_true rfl (hhas.2 hmem)⟩ (Or.inl (hhas.2 hmem))
  · have hdisp : (if w.tree.paths.contains (base ++ pszPath) then REG_OPENED_EXISTING_KEY else REG_CREATED_NEW_KEY) ≠
        REG_OPENED_EXISTING_KEY := by
      rw [if_neg fun hcontains => hmem (List.contains_iff_mem.1 hcontains)]
      decide
    obtain ⟨lRes, w', hsettles, hw'⟩ := recurseDeleteKey_recursed (w := ⟨w.tree.create base pszPath hbase, w.handles⟩)
      c pszPath hkey
    have hkeeps : Settles (fun fuel => keyExists c hTemp dwDisp fuel hKeyRoot pszPath w) (false, w') := by
      have hmap := hsettles.map fun d => (false, d.2)
      rw [← hclosed] at hmap
      exact (funext (keyExists_new hr hdisp) : (fun fuel => keyExists c hTemp dwDisp fuel hKeyRoot pszPath w) = _) ▸ hmap
    rw [keeps_iff hkeeps, or_iff_right (mt hhas.1 hmem), ← hw'.undoes_iff hkey hbase hmem]
    exact and_iff_left (iff_of_false Bool.false_ne_true (mt hhas.1 hmem))

/-- The test leaves the registry as it was, and tells whether the key was there, exactly when the key can be created and
either was there or is the only one that was not, and then can be deleted again; or when it cannot be created and the
value that `dwDisp` happens to have is the right one. -/
theorem keyExists_keeps_iff (c : Calls) (hTemp : HKEY) (dwDisp : DWORD) (hKeyRoot : HKEY) (pszPath : List CString)
    (w : World γ) : Keeps c hTemp dwDisp hKeyRoot pszPath w ↔
      (Creates c hKeyRoot pszPath w → HasKey w hKeyRoot pszPath ∨ Restores c hKeyRoot pszPath w) ∧
      (¬ Creates c hKeyRoot pszPath w → (dwDisp = REG_OPENED_EXISTING_KEY ↔ HasKey w hKeyRoot pszPath)) := by
  by_cases hcreates : Creates c hKeyRoot pszPath w
  · rw [keeps_iff_of_creates hcreates, imp_iff_right hcreates]
    exact (and_iff_left fun hnot => absurd hcreates hnot).symm
  · rw [keeps_iff_of_fails hcreates, imp_iff_right hcreates]
    exact (and_iff_right fun hcreates' => absurd hcreates' hcreates).symm

end Calls

/-- No key but the root. -/
def rootWorld : World Unit where
  tree := Tree.ofKeys [([], [])] (by decide)
  handles := [(1, [])]

example : (keyExists (sampleCalls []) 0 0 3 1 [[0x61], [0x62]] rootWorld).map (fun r => (r.1, r.2.tree.paths)) =
    some (false, [[], [[0x61]]]) := by
  decide

/-- When neither `a` nor its sub-key `b` is there, `a` is left. -/
theorem twoMissing_left : ¬ ∀ (c : Calls) (hTemp : HKEY) (dwDisp : DWORD) (hKeyRoot : HKEY) (pszPath : List CString)
    (w : World Unit), Keeps c hTemp dwDisp hKeyRoot pszPath w := by
  intro hall
  have hcreates : Creates (sampleCalls []) 1 [[0x61], [0x62]] rootWorld := ⟨[], rfl, by decide, rfl⟩
  have habsent : ∀ q, rootWorld.handles.lookup 1 = some q → q = [] := fun q hq => (Option.some.inj hq).symm
  rcases (keeps_iff_of_creates hcreates).1 (hall (sampleCalls []) 0 0 1 [[0x61], [0x62]] rootWorld) with hhas | hrestores
  · obtain ⟨base, hbase, hmem⟩ := hhas
    rw [habsent base hbase] at hmem
    exact absurd hmem (by decide)
  · obtain ⟨base, hbase, hparent, -⟩ := hrestores
    rw [habsent base hbase] at hparent
    exact absurd hparent (by decide)

end StarLib.Regkey.Deletion
