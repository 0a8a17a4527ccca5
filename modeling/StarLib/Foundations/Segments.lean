import Mathlib.Algebra.GroupWithZero.Nat
import Mathlib.Data.List.Forall2
import Mathlib.Data.List.Infix

/-! # Segments between delimiters

A string is cut at the first occurrence of a delimiter, and what follows is cut again. Joining the segments gives
the string back; cutting a joined string gives the joined parts back where no occurrence of the delimiter begins
inside of a part.
-/

namespace Foundations
set_option autoImplicit false
set_option maxHeartbeats 250000
set_option maxRecDepth 120000

variable {α : Type*}

section Cutting

variable [DecidableEq α]

/-- The place of the first occurrence of `d`. -/
def firstMatch (d : List α) : List α → Option ℕ
  | [] => if d.isEmpty then some 0 else none
  | x :: s => if d.isPrefixOf (x :: s) then some 0 else (firstMatch d s).map (· + 1)

/-- At most `fuel` cuts. -/
def segments (d : List α) : ℕ → List α → List (List α)
  | 0, s => [s]
  | fuel + 1, s =>
    match firstMatch d s with
    | none => [s]
    | some i => s.take i :: segments d fuel (s.drop (i + d.length))

/-! ## The first match -/

theorem firstMatch_some {d s : List α} {i : ℕ} (h : firstMatch d s = some i) :
    d <+: s.drop i ∧ ∀ j < i, ¬ d <+: s.drop j := by
  induction s generalizing i with
  | nil =>
    unfold firstMatch at h
    split at h
    · next hd =>
      rw [← Option.some.inj h, List.isEmpty_iff.1 hd]
      exact ⟨List.nil_prefix, fun j hj => absurd hj (Nat.not_lt_zero j)⟩
    · exact absurd h nofun
  | cons x s ih =>
    unfold firstMatch at h
    split at h
    · next hd =>
      rw [← Option.some.inj h]
      exact ⟨List.isPrefixOf_iff_prefix.1 hd, fun j hj => absurd hj (Nat.not_lt_zero j)⟩
    · next hd =>
      obtain ⟨k, hk, rfl⟩ := Option.map_eq_some_iff.1 h
      obtain ⟨hat, hbefore⟩ := ih hk
      refine ⟨hat, fun j hj => ?_⟩
      cases j with
      | zero => exact fun hzero => hd (List.isPrefixOf_iff_prefix.2 hzero)
      | succ j => exact hbefore j (by omega)

theorem firstMatch_none {d s : List α} (h : firstMatch d s = none) (j : ℕ) : ¬ d <+: s.drop j := by
  induction s generalizing j with
  | nil =>
    unfold firstMatch at h
    split at h
    · exact absurd h nofun
    · next hd =>
      rw [List.drop_nil]
      exact fun hstart => hd (List.isEmpty_iff.2 (List.prefix_nil.1 hstart))
  | cons x s ih =>
    unfold firstMatch at h
    split at h
    · exact absurd h nofun
    · next hd =>
      cases j with
      | zero => exact fun hzero => hd (List.isPrefixOf_iff_prefix.2 hzero)
      | succ j => exact ih (Option.map_eq_none_iff.1 h) j

theorem firstMatch_eq_some {d s : List α} {i : ℕ} (hat : d <+: s.drop i) (hbefore : ∀ j < i, ¬ d <+: s.drop j) :
    firstMatch d s = some i := by
  cases h : firstMatch d s with
  | none => exact absurd hat (firstMatch_none h i)
  | some k =>
    obtain ⟨hk, hk'⟩ := firstMatch_some h
    rcases Nat.lt_trichotomy k i with hlt | rfl | hlt
    · exact absurd hk (hbefore k hlt)
    · rfl
    · exact absurd hat (hk' i hlt)

theorem firstMatch_eq_none {d s : List α} (h : ¬ d <:+: s) : firstMatch d s = none := by
  cases hm : firstMatch d s with
  | none => rfl
  | some i => exact absurd ((firstMatch_some hm).1.isInfix.trans (List.drop_suffix i s).isInfix) h

/-- A match of a delimiter that is not empty ends in the string. -/
theorem firstMatch_bound {d s : List α} {i : ℕ} (h : firstMatch d s = some i) : i + d.length ≤ s.length ∨ d = [] := by
  have hlength := (firstMatch_some h).1.length_le
  rw [List.length_drop] at hlength
  by_cases hd : d = []
  · exact Or.inr hd
  · have hpos := List.length_pos_iff.2 hd
    exact Or.inl (by omega)

/-! ## Joining the segments -/

omit [DecidableEq α] in
theorem intercalate_cons {d x : List α} {xs : List (List α)} (h : xs ≠ []) :
    d.intercalate (x :: xs) = x ++ d ++ d.intercalate xs := by
  cases xs with
  | nil => exact absurd rfl h
  | cons y ys => exact List.intercalate_cons_cons

theorem segments_ne_nil (d : List α) (fuel : ℕ) (s : List α) : segments d fuel s ≠ [] := by
  cases fuel with
  | zero => exact List.cons_ne_nil _ _
  | succ fuel =>
    unfold segments
    split <;> exact List.cons_ne_nil _ _

theorem intercalate_segments (d : List α) (fuel : ℕ) (s : List α) : d.intercalate (segments d fuel s) = s := by
  induction fuel generalizing s with
  | zero => exact List.intercalate_singleton
  | succ fuel ih =>
    unfold segments
    split
    · exact List.intercalate_singleton
    · next i hi =>
      obtain ⟨rest, hrest⟩ := (firstMatch_some hi).1
      have hdrop : s.drop (i + d.length) = rest := by
        rw [← List.drop_drop, ← hrest, List.drop_left]
      rw [intercalate_cons (segments_ne_nil _ _ _), ih, hdrop, List.append_assoc, hrest, List.take_append_drop]

/-! ## Cutting a joined string -/

/-- No occurrence of `d` in `x` followed by `d` begins inside of `x`. -/
def Clean (d x : List α) : Prop := ∀ j < x.length, ¬ d <+: (x ++ d).drop j

instance (d x : List α) : Decidable (Clean d x) := inferInstanceAs (Decidable (∀ j < x.length, _))

omit [DecidableEq α] in
/-- What follows the delimiter plays no part in it. -/
theorem clean_iff {d x : List α} (rest : List α) : Clean d x ↔ ∀ j < x.length, ¬ d <+: (x ++ d ++ rest).drop j := by
  have hlong : ∀ j < x.length, (d <+: (x ++ d).drop j ↔ d <+: (x ++ d ++ rest).drop j) := by
    intro j hj
    have hle : j ≤ (x ++ d).length := by
      rw [List.length_append]
      omega
    rw [List.drop_append_of_le_length hle]
    constructor
    · exact fun h => h.trans (List.prefix_append _ _)
    · intro h
      refine List.prefix_of_prefix_length_le h (List.prefix_append _ _) ?_
      rw [List.length_drop, List.length_append]
      omega
  exact ⟨fun h j hj hp => h j hj ((hlong j hj).2 hp), fun h j hj hp => h j hj ((hlong j hj).1 hp)⟩

theorem firstMatch_joined_iff {d x : List α} (rest : List α) :
    firstMatch d (x ++ d ++ rest) = some x.length ↔ Clean d x := by
  rw [clean_iff rest]
  constructor
  · exact fun h => (firstMatch_some h).2
  · refine fun h => firstMatch_eq_some ?_ h
    rw [List.append_assoc, List.drop_left]
    exact List.prefix_append d rest

/-- Cutting gives the parts back exactly when all but the last are clean. -/
theorem segments_intercalate_iff {d : List α} (hd : d ≠ []) {xs : List (List α)} (hxs : xs ≠ [])
    (hfree : ∀ x ∈ xs, ¬ d <:+: x) {fuel : ℕ} (hfuel : (d.intercalate xs).length ≤ fuel) :
    segments d fuel (d.intercalate xs) = xs ↔ ∀ x ∈ xs.dropLast, Clean d x := by
  have hpos := List.length_pos_iff.2 hd
  induction xs generalizing fuel with
  | nil => exact absurd rfl hxs
  | cons x xs ih =>
    by_cases hlast : xs = []
    · subst hlast
      have hnone : firstMatch d x = none := firstMatch_eq_none (hfree x List.mem_cons_self)
      rw [List.intercalate_singleton, List.dropLast_singleton]
      refine ⟨fun _ y hy => absurd hy List.not_mem_nil, fun _ => ?_⟩
      cases fuel with
      | zero => rfl
      | succ fuel =>
        unfold segments
        rw [hnone]
    · have hjoin := intercalate_cons (d := d) (x := x) hlast
      have hfree' : ∀ y ∈ xs, ¬ d <:+: y := fun y hy => hfree y (List.mem_cons_of_mem x hy)
      rw [hjoin, List.length_append, List.length_append] at hfuel
      obtain ⟨fuel, rfl⟩ : ∃ m, fuel = m + 1 := ⟨fuel - 1, by omega⟩
      have hrest := ih hlast hfree' (show (d.intercalate xs).length ≤ fuel by omega)
      have hfirst := firstMatch_joined_iff (d := d) (x := x) (d.intercalate xs)
      rw [hjoin, List.dropLast_cons_of_ne_nil hlast, List.forall_mem_cons]
      refine Iff.trans ?_ (and_congr hfirst hrest)
      generalize d.intercalate xs = rest
      constructor
      · intro h
        unfold segments at h
        split at h
        · exact absurd (List.cons.inj h).2.symm hlast
        · next i hi =>
          obtain ⟨htake, hdrop⟩ := List.cons.inj h
          have hbound := (firstMatch_bound hi).resolve_right hd
          have hi' : i = x.length := by
            rw [← htake, List.length_take]
            omega
          subst hi'
          refine ⟨hi, ?_⟩
          rw [← List.length_append, List.drop_left] at hdrop
          exact hdrop
      · rintro ⟨hi, hsegments⟩
        unfold segments
        rw [hi]
        simp only
        rw [← List.length_append, List.drop_left, hsegments, List.append_assoc, List.take_left]

omit [DecidableEq α] in
theorem sublist_intercalate (d : List α) {x : List α} {xs : List (List α)} (h : x ∈ xs) :
    x.Sublist (d.intercalate xs) := by
  induction xs with
  | nil => exact absurd h List.not_mem_nil
  | cons y ys ih =>
    by_cases hlast : ys = []
    · subst hlast
      rw [List.mem_singleton.1 h, List.intercalate_singleton]
    · rw [intercalate_cons hlast]
      rcases List.mem_cons.1 h with rfl | h
      · exact (List.sublist_append_left _ d).trans (List.sublist_append_left _ _)
      · exact (ih h).trans (List.sublist_append_right _ _)

end Cutting

/-! ## Lengths -/

theorem intercalate_length (d : List α) {xs : List (List α)} (hxs : xs ≠ []) :
    (d.intercalate xs).length + d.length = (xs.map fun x => x.length + d.length).sum := by
  induction xs with
  | nil => exact absurd rfl hxs
  | cons x xs ih =>
    by_cases hlast : xs = []
    · subst hlast
      simp
    · rw [intercalate_cons hlast, List.map_cons, List.sum_cons, ← ih hlast, List.length_append, List.length_append]
      omega

theorem sublists_le {d : List α} {ts segs : List (List α)} (hts : List.Forall₂ List.Sublist ts segs) :
    (ts.map fun x => x.length + d.length).sum ≤ (segs.map fun x => x.length + d.length).sum := by
  induction hts with
  | nil => exact Nat.le_refl _
  | cons h _ ih =>
    have := h.length_le
    simp only [List.map_cons, List.sum_cons]
    omega

theorem sublists_forall {P : α → Prop} {ts segs : List (List α)} (hts : List.Forall₂ List.Sublist ts segs)
    (hsegs : ∀ seg ∈ segs, ∀ c ∈ seg, P c) : ∀ t ∈ ts, ∀ c ∈ t, P c := by
  induction hts with
  | nil => exact fun t ht => absurd ht List.not_mem_nil
  | cons h _ ih =>
    rw [List.forall_mem_cons] at hsegs ⊢
    exact ⟨fun c hc => hsegs.1 c (h.subset hc), ih hsegs.2⟩

theorem sublists_of_length {d : List α} {ts segs : List (List α)} (hts : List.Forall₂ List.Sublist ts segs)
    (hlength : (ts.map fun x => x.length + d.length).sum = (segs.map fun x => x.length + d.length).sum) : ts = segs := by
  induction hts with
  | nil => rfl
  | cons h hrest ih =>
    have hhead := h.length_le
    have htail := sublists_le (d := d) hrest
    simp only [List.map_cons, List.sum_cons] at hlength
    rw [h.eq_of_length (by omega), ih (by omega)]

theorem sublist_sum_le (f : List α → ℕ) {l l' : List (List α)} (h : l.Sublist l') :
    (l.map f).sum ≤ (l'.map f).sum := by
  induction h with
  | slnil => exact Nat.le_refl _
  | cons x _ ih =>
    simp only [List.map_cons, List.sum_cons]
    omega
  | cons_cons x _ ih =>
    simp only [List.map_cons, List.sum_cons]
    omega

/-- Parts that are left of a list, each of them counting, are the whole list where they count as much. -/
theorem sublist_eq_of_sum {f : List α → ℕ} (hf : ∀ x, 0 < f x) {l l' : List (List α)} (h : l.Sublist l')
    (hsum : (l.map f).sum = (l'.map f).sum) : l = l' := by
  induction h with
  | slnil => rfl
  | cons x hrest _ =>
    have hpos := hf x
    have hsub := sublist_sum_le f hrest
    simp only [List.map_cons, List.sum_cons] at hsum
    omega
  | cons_cons x hrest ih =>
    simp only [List.map_cons, List.sum_cons] at hsum
    rw [ih (by omega)]

/-- With a terminator instead of the delimiters the segments are at most one longer than the string. -/
theorem terminated_length_le {d : List α} (hd : d ≠ []) {xs : List (List α)} (hxs : xs ≠ []) :
    (xs.map fun x => x.length + 1).sum ≤ (d.intercalate xs).length + 1 := by
  have hpos := List.length_pos_iff.2 hd
  induction xs with
  | nil => exact absurd rfl hxs
  | cons x xs ih =>
    by_cases hlast : xs = []
    · subst hlast
      simp
    · have hrest := ih hlast
      rw [intercalate_cons hlast, List.map_cons, List.sum_cons, List.length_append, List.length_append]
      omega

/-- What is left of the parts of the segments joins to the string only where it is the segments. -/
theorem segments_of_kept {d : List α} (hd : d ≠ []) {ts segs xs : List (List α)} (hsegs : segs ≠ []) (hxs : xs ≠ [])
    (hts : List.Forall₂ List.Sublist ts segs) (hkept : xs.Sublist ts) (hjoin : d.intercalate segs = d.intercalate xs) :
    segs = xs := by
  have hpos := List.length_pos_iff.2 hd
  have hweight : ∀ {l : List (List α)}, l ≠ [] →
      (l.map fun x => x.length + d.length).sum = (d.intercalate l).length + d.length := fun h => (intercalate_length d h).symm
  have hsum : (xs.map fun x => x.length + d.length).sum = (segs.map fun x => x.length + d.length).sum := by
    rw [hweight hxs, hweight hsegs, hjoin]
  have hle := sublists_le (d := d) hts
  have hle' := sublist_sum_le (fun x => x.length + d.length) hkept
  have hxts := sublist_eq_of_sum (fun x => Nat.add_pos_right x.length hpos) hkept (by omega)
  rw [hxts]
  exact (sublists_of_length (d := d) hts (by omega)).symm

end Foundations
