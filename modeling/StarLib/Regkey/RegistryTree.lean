import StarLib.Regkey.RoundTrip

/-! # The tree that an import builds

A tree is a map from paths to values by name. Writing all sections of a tree below an existing key adds exactly its
keys; whatever an import adds was written, and so fits the buffers of the export.
-/

namespace StarLib.Regkey.IniFile
open Foundations
set_option autoImplicit false
set_option maxHeartbeats 250000
set_option maxRecDepth 120000

/-! ## Trees as maps -/

/-- The values of the key with this path. -/
def Subkeys.find : Subkeys → List CString → Option (List (CString × Value))
  | .none, _ => Option.none
  | .key _ _ _ _, [] => Option.none
  | .key name values subkeys rest, n :: path =>
    if n = name then if path = [] then some values else subkeys.find path else rest.find (n :: path)

def valuesOf (values : List (CString × Value)) : CString → Option Value := fun n => values.lookup n

/-- The exported key, without values of its own, and the keys below it. -/
def treeOf (t : Subkeys) : Keys := fun p => if p = [] then some fun _ => none else (t.find p).map valuesOf

/-- A key without values and sub-keys. -/
def emptyKey : Keys := fun p => if p = [] then some fun _ => none else none

theorem find_nil (t : Subkeys) : t.find [] = none := by cases t <;> rfl

theorem find_none {t : Subkeys} {n : CString} (hn : n ∉ t.names) (path : List CString) : t.find (n :: path) = none := by
  induction t with
  | none => rfl
  | key name values subkeys rest _ ihRest =>
    have hne : n ≠ name := fun h => hn (h ▸ List.mem_cons_self)
    show (if n = name then _ else rest.find (n :: path)) = none
    rw [if_neg hne]
    exact ihRest fun h => hn (List.mem_cons_of_mem name h)

theorem find_first (name : CString) (values : List (CString × Value)) (subkeys rest : Subkeys) {path : List CString}
    (hpath : path ≠ []) : (Subkeys.key name values subkeys rest).find (name :: path) = subkeys.find path := by
  show (if name = name then if path = [] then some values else subkeys.find path else rest.find (name :: path)) = _
  rw [if_pos rfl, if_neg hpath]

theorem find_rest {name n : CString} (hn : n ≠ name) (values : List (CString × Value)) (subkeys rest : Subkeys)
    (path : List CString) : (Subkeys.key name values subkeys rest).find (n :: path) = rest.find (n :: path) := if_neg hn

/-- The values of a tree below the key with the names `pre`. -/
def below (pre : List CString) (t : Subkeys) (p : List CString) : Option (List (CString × Value)) :=
  if pre <+: p then t.find (p.drop pre.length) else none

theorem below_append (pre q : List CString) (t : Subkeys) : below pre t (pre ++ q) = t.find q := by
  unfold below
  rw [if_pos (List.prefix_append pre q), List.drop_left]

theorem below_other {pre p : List CString} (h : ¬ pre <+: p) (t : Subkeys) : below pre t p = none := if_neg h

section Key
variable (pre : List CString) (name : CString) (values : List (CString × Value)) (subkeys rest : Subkeys)

theorem below_here : below pre (.key name values subkeys rest) (pre ++ [name]) = some values := by
  rw [below_append]
  show (if name = name then if ([] : List CString) = [] then some values else _ else _) = _
  rw [if_pos rfl, if_pos rfl]

theorem below_deep {q : List CString} (hq : q ≠ []) :
    below pre (.key name values subkeys rest) (pre ++ [name] ++ q) = below (pre ++ [name]) subkeys (pre ++ [name] ++ q) := by
  rw [below_append, List.append_assoc, below_append]
  exact find_first name values subkeys rest hq

theorem below_beside {p : List CString} (h : ¬ pre ++ [name] <+: p) :
    below pre (.key name values subkeys rest) p = below pre rest p := by
  by_cases hp : pre <+: p
  · obtain ⟨q, rfl⟩ := hp
    rw [below_append, below_append]
    cases q with
    | nil => rw [find_nil, find_nil]
    | cons n q =>
      rw [List.prefix_append_right_inj] at h
      have hn : n ≠ name := fun hn => h ⟨q, by rw [hn, List.singleton_append]⟩
      exact find_rest hn values subkeys rest q
  · rw [below_other hp, below_other hp]

theorem below_unused {rest : Subkeys} {name : CString} (hname : name ∉ rest.names) (q : List CString) :
    below pre rest (pre ++ [name] ++ q) = none := by
  rw [List.append_assoc, below_append]
  exact find_none hname q

end Key

/-! ## A section -/

theorem lookup_notMem {n : CString} {values : List (CString × Value)} (hn : n ∉ values.map Prod.fst) :
    values.lookup n = none := by
  induction values with
  | nil => rfl
  | cons v values ih =>
    rw [List.map_cons, List.mem_cons, not_or] at hn
    have hne : (n == v.1) = false := beq_eq_false_iff_ne.2 hn.1
    rw [List.lookup_cons, hne]
    exact ih hn.2

theorem lookup_mem {v : CString × Value} {values : List (CString × Value)} (hnodup : (values.map Prod.fst).Nodup)
    (hv : v ∈ values) : values.lookup v.1 = some v.2 := by
  induction values with
  | nil => exact absurd hv List.not_mem_nil
  | cons w values ih =>
    rw [List.map_cons, List.nodup_cons] at hnodup
    rcases List.mem_cons.1 hv with rfl | hv
    · rw [List.lookup_cons, beq_self_eq_true]
    · have hne : (v.1 == w.1) = false :=
        beq_eq_false_iff_ne.2 fun h => hnodup.1 (h ▸ List.mem_map_of_mem hv)
      rw [List.lookup_cons, hne]
      exact ih hnodup.2 hv

theorem setValues_path (path : List CString) (values : List (CString × Value)) {keys : Keys} {f : CString → Option Value}
    (hkey : keys path = some f) (hnodup : (values.map Prod.fst).Nodup) :
    values.foldl (fun keys v => setValue keys path v) keys =
      Function.update keys path (some fun n => (values.lookup n).or (f n)) := by
  induction values generalizing keys f with
  | nil =>
    have hsame : (fun n => (([] : List (CString × Value)).lookup n).or (f n)) = f := rfl
    rw [hsame, ← hkey, Function.update_eq_self]
    rfl
  | cons v values ih =>
    rw [List.map_cons, List.nodup_cons] at hnodup
    have hset : setValue keys path v = Function.update keys path (some (Function.update f v.1 (some v.2))) := by
      unfold setValue
      rw [hkey]
      rfl
    have hnext : setValue keys path v path = some (Function.update f v.1 (some v.2)) := by
      rw [hset, Function.update_self]
    rw [List.foldl_cons, ih hnext hnodup.2, hset, Function.update_idem]
    congr 2
    funext n
    by_cases hn : n = v.1
    · rw [hn, lookup_notMem hnodup.1, Function.update_self, List.lookup_cons, beq_self_eq_true]
      rfl
    · rw [Function.update_of_ne hn, List.lookup_cons, beq_eq_false_iff_ne.2 hn]

theorem prefix_concat {q pre : List CString} {name : CString} (h : q <+: pre ++ [name]) : q <+: pre ∨ q = pre ++ [name] := by
  rcases List.prefix_concat_iff.1 h with h | h
  · exact Or.inr h
  · exact Or.inl h

/-- A new key below one that exists. -/
theorem writeSection_new {keys : Keys} {pre : List CString} {name : CString} (hpre : ∀ q, q <+: pre → keys q ≠ none)
    (hnew : keys (pre ++ [name]) = none) {values : List (CString × Value)} (hnodup : (values.map Prod.fst).Nodup) :
    writeSection keys (pre ++ [name], values) = Function.update keys (pre ++ [name]) (some (valuesOf values)) := by
  have hcreate : createKey keys (pre ++ [name]) = Function.update keys (pre ++ [name]) (some fun _ => none) := by
    funext p
    unfold createKey
    by_cases hp : p = pre ++ [name]
    · subst hp
      rw [hnew, Function.update_self]
      exact if_pos (List.isPrefixOf_iff_prefix.2 (List.prefix_refl _))
    · rw [Function.update_of_ne hp]
      cases hkey : keys p with
      | some f => rfl
      | none =>
        refine if_neg fun hstart => ?_
        rcases prefix_concat (List.isPrefixOf_iff_prefix.1 hstart) with h | h
        · exact hpre p h hkey
        · exact hp h
  have hkey : Function.update keys (pre ++ [name]) (some fun _ => none) (pre ++ [name]) =
      some fun _ : CString => (none : Option Value) := Function.update_self ..
  unfold writeSection
  simp only
  rw [hcreate, setValues_path _ _ hkey hnodup, Function.update_idem]
  congr 2
  funext n
  exact Option.or_none

/-- The keys that the new one is below exist, and so does itself. -/
theorem update_started {keys : Keys} {pre : List CString} (hpre : ∀ q, q <+: pre → keys q ≠ none) (name : CString)
    (f : CString → Option Value) : ∀ q, q <+: pre ++ [name] → Function.update keys (pre ++ [name]) (some f) q ≠ none := by
  intro q hq
  rcases prefix_concat hq with hq | rfl
  · have hne : q ≠ pre ++ [name] := by
      rintro rfl
      have := hq.length_le
      simp at this
    rw [Function.update_of_ne hne]
    exact hpre q hq
  · rw [Function.update_self]
    exact nofun

/-- Below the new key there is nothing yet. -/
theorem update_unused {keys : Keys} {pre : List CString} {name : CString} (hnew : ∀ q, keys (pre ++ name :: q) = none)
    (f : CString → Option Value) (n : CString) (q : List CString) :
    Function.update keys (pre ++ [name]) (some f) (pre ++ [name] ++ n :: q) = none := by
  have hne : pre ++ [name] ++ n :: q ≠ pre ++ [name] := by simp
  rw [Function.update_of_ne hne, List.append_assoc]
  exact hnew (n :: q)

/-! ## All sections -/

/-- What the buffers of the export have room for: names of fewer than 512 characters, and strings that are read
into 200 bytes with their terminator. -/
def Fits (cs : CharSet) : Subkeys → Prop
  | .none => True
  | .key name values subkeys rest =>
    name.length < 512 ∧ (∀ v ∈ values, v.1.length < 512 ∧ ∀ s, v.2 = .sz s → (s.length + 1) * cs.size ≤ 200) ∧
      Fits cs subkeys ∧ Fits cs rest

theorem readValue_fits {cs : CharSet} {v : Value} (hv : ∀ s, v = .sz s → (s.length + 1) * cs.size ≤ 200) :
    readValue cs v = v := by
  cases v with
  | dword v => rfl
  | sz s =>
    show Value.sz (readString cs s) = _
    unfold readString
    rw [if_pos (hv s rfl)]

theorem written_fits {cs : CharSet} {values : List (CString × Value)}
    (hfits : ∀ v ∈ values, v.1.length < 512 ∧ ∀ s, v.2 = .sz s → (s.length + 1) * cs.size ≤ 200) :
    ((values.takeWhile fun v => enumerated v.1).map fun v => (v.1, readValue cs v.2)) = values := by
  have hall : values.takeWhile (fun v => enumerated v.1) = values :=
    List.takeWhile_eq_self_iff.2 fun v hv => decide_eq_true (hfits v hv).1
  rw [hall]
  refine (List.map_congr_left fun v hv => ?_).trans (List.map_id _)
  rw [readValue_fits (hfits v hv).2]
  rfl

/-- Writing the sections of a tree that fits adds its keys. -/
theorem writeSections_tree {cs : CharSet} {t : Subkeys} (ht : WellFormed t) (hfits : Fits cs t) {pre : List CString}
    {keys : Keys} (hpre : ∀ q, q <+: pre → keys q ≠ none) (hnew : ∀ n ∈ t.names, ∀ q, keys (pre ++ n :: q) = none)
    (p : List CString) :
    (written cs pre t).foldl writeSection keys p =
      match below pre t p with
      | some values => some (valuesOf values)
      | none => keys p := by
  induction t generalizing pre keys p with
  | none =>
    have hnone : below pre .none p = none := by
      unfold below
      split <;> rfl
    rw [hnone]
    rfl
  | key name values subkeys rest ihSub ihRest =>
    obtain ⟨-, hvalues, -, hnodup, hname, hsubOk, hrestOk⟩ := ht
    obtain ⟨hlength, hfit, hsubFits, hrestFits⟩ := hfits
    have henum : enumerated name = true := decide_eq_true hlength
    have hhas : hasValues values = true := by
      cases values with
      | nil => exact absurd rfl hvalues
      | cons v values => exact decide_eq_true (hfit v List.mem_cons_self).1
    have hfirst := writeSection_new hpre (hnew name List.mem_cons_self []) hnodup
    unfold written
    rw [if_pos henum, if_pos hhas, written_fits hfit, List.foldl_append, List.foldl_append, List.foldl_cons,
      List.foldl_nil, hfirst]
    -- the keys below the new one
    have hsub := ihSub hsubOk hsubFits (update_started hpre name (valuesOf values)) fun n _ q =>
      update_unused (hnew name List.mem_cons_self) (valuesOf values) n q
    generalize hkeys₁ : Function.update keys (pre ++ [name]) (some (valuesOf values)) = keys₁ at hsub
    generalize (written cs (pre ++ [name]) subkeys).foldl writeSection keys₁ = keys₂ at hsub
    have hother : ∀ p, p ≠ pre ++ [name] → keys₁ p = keys p := by
      intro p hp
      rw [← hkeys₁, Function.update_of_ne hp]
    -- the keys beside it
    have hbeside : ∀ {q : List CString}, ¬ pre ++ [name] <+: q → keys₂ q = keys q := by
      intro q hq
      have hne : q ≠ pre ++ [name] := fun h => hq (h ▸ List.prefix_refl _)
      rw [hsub, below_other hq]
      exact hother q hne
    have hstart : ∀ q, q <+: pre → keys₂ q ≠ none := by
      intro q hq
      rw [hbeside fun h => absurd (h.trans hq).length_le (by simp)]
      exact hpre q hq
    have hrestNew : ∀ n ∈ rest.names, ∀ q, keys₂ (pre ++ n :: q) = none := by
      intro n hn q
      have happart : ¬ pre ++ [name] <+: pre ++ n :: q := by
        rw [List.prefix_append_right_inj]
        intro h
        exact hname ((List.cons_prefix_cons.1 h).1 ▸ hn)
      rw [hbeside happart]
      exact hnew n (List.mem_cons_of_mem name hn) q
    rw [ihRest hrestOk hrestFits hstart hrestNew p]
    by_cases hp : pre ++ [name] <+: p
    · obtain ⟨q, rfl⟩ := hp
      rw [below_unused pre hname, hsub]
      by_cases hq : q = []
      · subst hq
        rw [List.append_nil, below_here, ← hkeys₁, Function.update_self]
        have hnone : below (pre ++ [name]) subkeys (pre ++ [name]) = none := by
          have happend := below_append (pre ++ [name]) [] subkeys
          rw [List.append_nil] at happend
          exact happend.trans (find_nil subkeys)
        rw [hnone]
      · rw [below_deep _ _ _ _ _ hq, hother _ (by simpa using hq)]
    · rw [below_beside _ _ _ _ _ hp, hbeside hp]

/-! ## Only what was written -/

/-- A value that is there after a section was there before or belongs to the section. -/
theorem writeSection_value {keys : Keys} {s : Section} {p : List CString} {f : CString → Option Value} {v : CString × Value}
    (hf : writeSection keys s p = some f) (hv : f v.1 = some v.2) :
    (∃ g, keys p = some g ∧ g v.1 = some v.2) ∨ s.1 = p ∧ v ∈ s.2 := by
  obtain ⟨path, values⟩ := s
  have hset : ∀ (values : List (CString × Value)) (keys : Keys) (f : CString → Option Value),
      values.foldl (fun keys v => setValue keys path v) keys p = some f → f v.1 = some v.2 →
      (∃ g, keys p = some g ∧ g v.1 = some v.2) ∨ path = p ∧ v ∈ values := by
    intro values
    induction values with
    | nil => exact fun keys f hf hv => Or.inl ⟨f, hf, hv⟩
    | cons w values ih =>
      intro keys f hf hv
      rcases ih (setValue keys path w) f hf hv with ⟨g, hg, hgv⟩ | ⟨hp, hmem⟩
      · by_cases hp : p = path
        · subst hp
          have hupdate : (keys p).map (fun values => Function.update values w.1 (some w.2)) = some g := by
            rw [← hg]
            unfold setValue
            rw [Function.update_self]
          obtain ⟨g', hg', rfl⟩ := Option.map_eq_some_iff.1 hupdate
          by_cases hn : v.1 = w.1
          · rw [hn, Function.update_self] at hgv
            have hsame : v = w := Prod.ext hn (Option.some.inj hgv).symm
            exact Or.inr ⟨rfl, hsame ▸ List.mem_cons_self⟩
          · rw [Function.update_of_ne hn] at hgv
            exact Or.inl ⟨g', hg', hgv⟩
        · have hkeep : setValue keys path w p = keys p := Function.update_of_ne hp ..
          exact Or.inl ⟨g, hkeep ▸ hg, hgv⟩
      · exact Or.inr ⟨hp, List.mem_cons_of_mem w hmem⟩
  rcases hset values (createKey keys path) f hf hv with ⟨g, hg, hgv⟩ | h
  · refine Or.inl ?_
    unfold createKey at hg
    cases hkey : keys p with
    | some g' =>
      rw [hkey] at hg
      exact ⟨g, hg, hgv⟩
    | none =>
      rw [hkey] at hg
      simp only at hg
      split at hg
      · rw [← Option.some.inj hg] at hgv
        exact absurd hgv nofun
      · exact absurd hg nofun
  · exact Or.inr h

theorem writeSections_value {secs : List Section} {keys : Keys} {p : List CString} {f : CString → Option Value}
    {v : CString × Value} (hf : secs.foldl writeSection keys p = some f) (hv : f v.1 = some v.2) :
    (∃ g, keys p = some g ∧ g v.1 = some v.2) ∨ ∃ s ∈ secs, s.1 = p ∧ v ∈ s.2 := by
  induction secs generalizing keys with
  | nil => exact Or.inl ⟨f, hf, hv⟩
  | cons s secs ih =>
    rcases ih hf with ⟨g, hg, hgv⟩ | ⟨s', hs', h⟩
    · rcases writeSection_value hg hgv with h | h
      · exact Or.inl h
      · exact Or.inr ⟨s, List.mem_cons_self, h⟩
    · exact Or.inr ⟨s', List.mem_cons_of_mem s hs', h⟩

/-- What was written fits. -/
theorem written_fit (cs : CharSet) {t : Subkeys} (ht : WellFormed t) : ∀ s ∈ written cs [] t,
    (∀ n ∈ s.1, n.length < 512) ∧
      ∀ v ∈ s.2, v.1.length < 512 ∧ ∀ str, v.2 = .sz str → (str.length + 1) * cs.size ≤ 200 := by
  refine written_all cs ht (Q := fun n => n.length < 512) (fun n hn => absurd hn List.not_mem_nil)
    (fun n _ _ henum => of_decide_eq_true henum) fun path values _ hnames _ => ?_
  refine ⟨hnames, fun v hv => ?_⟩
  obtain ⟨w, hw, rfl⟩ := List.mem_map.1 hv
  have henum : enumerated w.1 = true := List.mem_takeWhile_imp (p := fun v : CString × Value => enumerated v.1) hw
  refine ⟨of_decide_eq_true henum, fun str hstr => ?_⟩
  cases hvalue : w.2 with
  | dword d =>
    rw [hvalue] at hstr
    exact absurd hstr nofun
  | sz s =>
    rw [hvalue] at hstr
    have hread : readString cs s = str := Value.sz.inj hstr
    rw [← hread]
    unfold readString
    split
    · next hshort => exact hshort
    · cases cs <;> decide

theorem find_nodup {t : Subkeys} (ht : WellFormed t) {path : List CString} {values : List (CString × Value)}
    (h : t.find path = some values) : path ≠ [] ∧ values ≠ [] ∧ (values.map Prod.fst).Nodup := by
  induction t generalizing path with
  | none => exact absurd h nofun
  | key name vs subkeys rest ihSub ihRest =>
    obtain ⟨-, hvalues, -, hnodup, -, hsub, hrest⟩ := ht
    cases path with
    | nil => exact absurd h nofun
    | cons n path =>
      refine ⟨List.cons_ne_nil n path, ?_⟩
      by_cases hn : n = name
      · by_cases hpath : path = []
        · subst hn hpath
          have hfound : (if n = n then if ([] : List CString) = [] then some vs else _ else _) = some values := h
          rw [if_pos rfl, if_pos rfl] at hfound
          rw [← Option.some.inj hfound]
          exact ⟨hvalues, hnodup⟩
        · rw [hn, find_first name vs subkeys rest hpath] at h
          exact (ihSub hsub h).2
      · rw [find_rest hn] at h
        exact (ihRest hrest h).2

theorem mem_names {t : Subkeys} {n : CString} {path : List CString} {values : List (CString × Value)}
    (h : t.find (n :: path) = some values) : n ∈ t.names := by
  by_contra hn
  rw [find_none hn] at h
  exact absurd h nofun

theorem fits_of_found {cs : CharSet} {t : Subkeys} (ht : WellFormed t)
    (h : ∀ path values, t.find path = some values → (∀ n ∈ path, n.length < 512) ∧
      ∀ v ∈ values, v.1.length < 512 ∧ ∀ s, v.2 = .sz s → (s.length + 1) * cs.size ≤ 200) : Fits cs t := by
  induction t with
  | none => trivial
  | key name values subkeys rest ihSub ihRest =>
    obtain ⟨-, hvalues, -, hnodup, hname, hsub, hrest⟩ := ht
    have hfound : (Subkeys.key name values subkeys rest).find [name] = some values := by
      show (if name = name then if ([] : List CString) = [] then some values else _ else _) = _
      rw [if_pos rfl, if_pos rfl]
    have hhere := h [name] values hfound
    refine ⟨hhere.1 name List.mem_cons_self, hhere.2, ihSub hsub fun path vs hpath => ?_, ihRest hrest fun path vs hpath => ?_⟩
    · have hne := (find_nodup hsub hpath).1
      have hdeep := h (name :: path) vs (by rw [find_first name values subkeys rest hne, hpath])
      exact ⟨fun n hn => hdeep.1 n (List.mem_cons_of_mem name hn), hdeep.2⟩
    · cases path with
      | nil =>
        rw [find_nil] at hpath
        exact absurd hpath nofun
      | cons n path =>
        have hne : n ≠ name := fun hn => hname (hn ▸ mem_names hpath)
        exact h (n :: path) vs (by rw [find_rest hne, hpath])

/-- A tree that is recreated fits. -/
theorem fits_of_import {cs : CharSet} {t : Subkeys} (ht : WellFormed t)
    (h : importFromIni (exportToIni cs t) emptyKey = some (true, treeOf t)) : Fits cs t := by
  rw [import_export cs ht] at h
  have hkeys : (written cs [] t).foldl writeSection emptyKey = treeOf t := (Prod.mk.inj (Option.some.inj h)).2
  refine fits_of_found ht fun path values hpath => ?_
  obtain ⟨hne, hvalues, hnodup⟩ := find_nodup ht hpath
  have hthere : (written cs [] t).foldl writeSection emptyKey path = some (valuesOf values) := by
    rw [hkeys]
    unfold treeOf
    rw [if_neg hne, hpath]
    rfl
  have hsection : ∀ v ∈ values, ∃ s ∈ written cs [] t, s.1 = path ∧ v ∈ s.2 := by
    intro v hv
    rcases writeSections_value hthere (lookup_mem hnodup hv) with ⟨g, hg, -⟩ | hs
    · unfold emptyKey at hg
      rw [if_neg hne] at hg
      exact absurd hg nofun
    · exact hs
  constructor
  · obtain ⟨v, hv⟩ := List.exists_mem_of_ne_nil values hvalues
    obtain ⟨s, hs, rfl, -⟩ := hsection v hv
    exact (written_fit cs ht s hs).1
  · intro v hv
    obtain ⟨s, hs, -, hvs⟩ := hsection v hv
    exact (written_fit cs ht s hs).2 v hvs

/-- The key `k` with the number 7 and the string `s`. -/
def sampleTree (s : CString) : Subkeys := .key [0x6b] [([0x6e], .dword 7), ([0x76], .sz s)] .none .none

theorem sampleTree_wellFormed {s : CString} (hs : 0x0a ∉ s ∧ 0x0d ∉ s) : WellFormed (sampleTree s) := by
  have hname : ∀ n : CString, n = [0x6b] ∨ n = [0x6e] ∨ n = [0x76] → NameOk n := by
    rintro n (rfl | rfl | rfl)
    · exact ⟨⟨by decide, by decide, by decide⟩, by decide, by decide, by decide⟩
    · exact ⟨⟨by decide, by decide, by decide⟩, by decide, by decide, by decide⟩
    · exact ⟨⟨by decide, by decide, by decide⟩, by decide, by decide, by decide⟩
  have hnodup : [[0x6e], [0x76]].Nodup := by decide
  refine ⟨⟨hname _ (Or.inl rfl), by decide⟩, List.cons_ne_nil _ _, ?_, hnodup, List.not_mem_nil, trivial, trivial⟩
  intro v hv
  rcases List.mem_pair.1 hv with rfl | rfl
  · exact ⟨hname _ (Or.inr (Or.inl rfl)), trivial⟩
  · exact ⟨hname _ (Or.inr (Or.inr rfl)), hs⟩

end StarLib.Regkey.IniFile
