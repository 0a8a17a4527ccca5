import Mathlib.Data.List.Basic
import Mathlib.Tactic.Common

/-! # Lists of keys with values

Keys count as the same when `fold` makes them equal: names in which case does not matter. The first entry of a
key is the one that is read.
-/

namespace Foundations.Keyed
set_option autoImplicit false
set_option maxHeartbeats 250000
set_option maxRecDepth 120000

variable {κ ρ α : Type*} [DecidableEq ρ] (fold : κ → ρ)

def lookup : List (κ × α) → ρ → Option α
  | [], _ => none
  | e :: l, r => if fold e.1 = r then some e.2 else lookup l r

/-- The value of every entry of the key, or a new entry at the end. -/
def insert (l : List (κ × α)) (k : κ) (v : α) : List (κ × α) :=
  if (lookup fold l (fold k)).isSome then l.map fun e => if fold e.1 = fold k then (e.1, v) else e else l ++ [(k, v)]

def erase (l : List (κ × α)) (r : ρ) : List (κ × α) := l.filter fun e => decide (fold e.1 ≠ r)

variable {fold} {l : List (κ × α)}

theorem lookup_cons (e : κ × α) (l : List (κ × α)) (r : ρ) :
    lookup fold (e :: l) r = if fold e.1 = r then some e.2 else lookup fold l r := rfl

theorem lookup_append (r : ρ) (l' : List (κ × α)) : lookup fold (l ++ l') r = (lookup fold l r).or (lookup fold l' r) := by
  induction l with
  | nil => rfl
  | cons e l ih =>
    rw [List.cons_append, lookup_cons, lookup_cons]
    split
    · rfl
    · exact ih

theorem lookup_replace (k : κ) (v : α) (r : ρ) : lookup fold (l.map fun e => if fold e.1 = fold k then (e.1, v) else e) r =
    if r = fold k then (lookup fold l r).map fun _ => v else lookup fold l r := by
  induction l with
  | nil => rw [List.map_nil, lookup, Option.map_none, ite_self]
  | cons e l ih =>
    rw [List.map_cons, lookup_cons, lookup_cons]
    by_cases hek : fold e.1 = fold k
    · rw [if_pos hek]
      by_cases her : fold e.1 = r
      · rw [if_pos her, if_pos her, if_pos (her.symm.trans hek)]
        rfl
      · rw [if_neg her, if_neg her, ih]
    · rw [if_neg hek]
      by_cases her : fold e.1 = r
      · have hrk : ¬ r = fold k := by rwa [← her]
        rw [if_pos her, if_pos her, if_neg hrk]
      · rw [if_neg her, if_neg her, ih]

theorem lookup_insert (k : κ) (v : α) (r : ρ) :
    lookup fold (insert fold l k v) r = if r = fold k then some v else lookup fold l r := by
  unfold insert
  split
  · next hsome =>
    rw [lookup_replace]
    by_cases hrk : r = fold k
    · obtain ⟨w, hw⟩ := Option.isSome_iff_exists.1 hsome
      rw [if_pos hrk, if_pos hrk, hrk, hw]
      rfl
    · rw [if_neg hrk, if_neg hrk]
  · next hnone =>
    rw [Option.not_isSome_iff_eq_none] at hnone
    rw [lookup_append]
    by_cases hrk : r = fold k
    · rw [hrk, hnone, Option.none_or, if_pos rfl, lookup, if_pos rfl]
    · have hkr : ¬ fold k = r := fun h => hrk h.symm
      rw [if_neg hrk, lookup, if_neg hkr, lookup, Option.or_none]

theorem lookup_erase (r' r : ρ) : lookup fold (erase fold l r') r = if r = r' then none else lookup fold l r := by
  unfold erase
  induction l with
  | nil => rw [List.filter_nil, lookup, ite_self]
  | cons e l ih =>
    by_cases her' : fold e.1 = r'
    · have hdrop : decide (fold e.1 ≠ r') = false := decide_eq_false fun h => h her'
      rw [List.filter_cons, hdrop, if_neg Bool.false_ne_true, ih]
      by_cases hrr' : r = r'
      · rw [if_pos hrr', if_pos hrr']
      · have her : ¬ fold e.1 = r := fun h => hrr' (h.symm.trans her')
        rw [if_neg hrr', if_neg hrr', lookup, if_neg her]
    · rw [List.filter_cons, if_pos (decide_eq_true her'), lookup_cons, lookup_cons]
      by_cases her : fold e.1 = r
      · have hrr' : ¬ r = r' := by rwa [← her]
        rw [if_pos her, if_pos her, if_neg hrr']
      · rw [if_neg her, if_neg her, ih]

end Foundations.Keyed
