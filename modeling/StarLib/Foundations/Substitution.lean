import Mathlib.Data.List.Basic
import Mathlib.Data.List.DropRight
import Mathlib.Tactic.Common

/-! # Putting a text in the place of letters

`substitute p r s` has `r` for every letter of `s` that `p` names. `trim` takes the blanks off both ends.
-/

namespace Foundations
set_option autoImplicit false
set_option maxHeartbeats 250000
set_option maxRecDepth 120000

variable {α : Type*}

def substitute (p : α → Bool) (r s : List α) : List α := s.flatMap fun c => if p c then r else [c]

section Substitute
variable {p q : α → Bool} {r s t : List α} {c : α}

@[simp] theorem substitute_nil : substitute p r [] = [] := rfl

theorem substitute_cons : substitute p r (c :: s) = (if p c then r else [c]) ++ substitute p r s := rfl

theorem substitute_cons_pos (h : p c = true) : substitute p r (c :: s) = r ++ substitute p r s := by
  rw [substitute_cons, if_pos h]

theorem substitute_cons_neg (h : p c = false) : substitute p r (c :: s) = c :: substitute p r s := by
  rw [substitute_cons, h]
  rfl

theorem substitute_append : substitute p r (s ++ t) = substitute p r s ++ substitute p r t := List.flatMap_append

theorem substitute_of_none (h : ∀ c ∈ s, p c = false) : substitute p r s = s := by
  induction s with
  | nil => rfl
  | cons c s ih =>
    rw [List.forall_mem_cons] at h
    rw [substitute_cons_neg h.1, ih h.2]

theorem substitute_empty : substitute p [] s = s.filter fun c => !p c := by
  induction s with
  | nil => rfl
  | cons c s ih =>
    cases hc : p c with
    | true => simp [substitute_cons_pos hc, hc, ih]
    | false => simp [substitute_cons_neg hc, hc, ih]

theorem mem_substitute (h : c ∈ substitute p r s) : c ∈ r ∨ c ∈ s ∧ p c = false := by
  obtain ⟨d, hd, hc⟩ := List.mem_flatMap.1 h
  cases hp : p d with
  | true =>
    rw [hp] at hc
    exact Or.inl hc
  | false =>
    rw [hp] at hc
    rw [List.mem_singleton.1 hc]
    exact Or.inr ⟨hd, hp⟩

/-- A second round leaves what the first one put in. -/
theorem substitute_substitute (hr : ∀ c ∈ r, q c = false) :
    substitute q r (substitute p r s) = substitute (fun c => p c || q c) r s := by
  induction s with
  | nil => rfl
  | cons c s ih =>
    cases hc : p c with
    | true =>
      rw [substitute_cons_pos hc, substitute_append, substitute_of_none hr, ih, substitute_cons, hc]
      rfl
    | false =>
      rw [substitute_cons_neg hc, substitute_cons, substitute_cons, ih, hc]
      rfl

/-- The two ends of the text are letters of a kind, when those of `r` are. -/
theorem head_substitute {P : α → Prop} (hne : r ≠ []) (hr : ∀ c ∈ r, P c) (hs : ∀ c ∈ s.head?, P c) :
    ∀ c ∈ (substitute p r s).head?, P c := by
  cases s with
  | nil => exact fun c hc => absurd hc (by simp)
  | cons d s =>
    cases hd : p d with
    | true =>
      rw [substitute_cons_pos hd, List.head?_append_of_ne_nil r hne]
      exact fun c hc => hr c (List.mem_of_mem_head? hc)
    | false =>
      rw [substitute_cons_neg hd]
      exact hs

theorem getLast_substitute {P : α → Prop} (hne : r ≠ []) (hr : ∀ c ∈ r, P c) (hs : ∀ c ∈ s.getLast?, P c) :
    ∀ c ∈ (substitute p r s).getLast?, P c := by
  cases s using List.reverseRecOn with
  | nil => exact fun c hc => absurd hc (by simp)
  | append_singleton s d =>
    rw [substitute_append]
    cases hd : p d with
    | true =>
      rw [substitute_cons_pos hd, substitute_nil, List.append_nil, List.getLast?_append_of_ne_nil _ hne]
      exact fun c hc => hr c (List.mem_of_mem_getLast? hc)
    | false =>
      rw [substitute_cons_neg hd, substitute_nil, List.getLast?_append_of_ne_nil _ (List.cons_ne_nil d [])]
      rw [List.getLast?_concat] at hs
      exact hs

end Substitute

/-! ## Blanks at the ends -/

section Ends
variable {p : α → Bool} {s l y : List α}

/-- Letters cut off an end leave one of the other kind there. -/
theorem getLast_rdropWhile : ∀ c ∈ (s.rdropWhile p).getLast?, p c = false := by
  intro c hc
  have hne : s.rdropWhile p ≠ [] := by
    intro hnil
    rw [hnil] at hc
    exact absurd hc (by simp)
  rw [List.getLast?_eq_some_getLast hne, Option.mem_some_iff] at hc
  rw [← hc]
  exact eq_false_of_ne_true (List.rdropWhile_last_not p s hne)

/-- The letters at the end of two texts are those at the end of the second, or else of the first. -/
theorem getLast_append_iff {P : α → Prop} (hl : ∀ c ∈ l.getLast?, P c) :
    (∀ c ∈ (l ++ y).getLast?, P c) ↔ ∀ c ∈ y.getLast?, P c := by
  constructor
  · intro h c hc
    exact h c (List.mem_getLast?_append_of_mem_getLast? hc)
  · intro h c hc
    rw [List.getLast?_append] at hc
    rcases Option.or_eq_some_iff.1 hc with hc | ⟨-, hc⟩
    · exact h c hc
    · exact hl c hc

end Ends

/-- `TrimLeft` and `TrimRight`. -/
def trim (blank : α → Bool) (s : List α) : List α := (s.dropWhile blank).rdropWhile blank

structure Trimmed (blank : α → Bool) (s : List α) : Prop where
  head : ∀ c ∈ s.head?, blank c = false
  last : ∀ c ∈ s.getLast?, blank c = false

section Trim
variable {blank : α → Bool} {s : List α}

theorem trim_sublist : (trim blank s).Sublist s :=
  (List.rdropWhile_prefix blank (s.dropWhile blank)).sublist.trans (List.dropWhile_suffix blank).sublist

theorem Trimmed.trim_eq (h : Trimmed blank s) : trim blank s = s := by
  cases s with
  | nil => rfl
  | cons c s =>
    have hhead : blank c = false := h.head c rfl
    unfold trim
    rw [List.dropWhile_cons_of_neg (by rw [hhead]; exact Bool.false_ne_true), List.rdropWhile_eq_self_iff]
    intro hne
    rw [h.last _ (List.getLast?_eq_some_getLast hne)]
    exact Bool.false_ne_true

theorem trimmed_trim : Trimmed blank (trim blank s) := by
  refine ⟨fun c hc => ?_, getLast_rdropWhile⟩
  -- what is left of the text begins as it does before its end is cut off
  obtain ⟨t, ht⟩ := List.rdropWhile_prefix blank (s.dropWhile blank)
  have hhead : (s.dropWhile blank).head? = some c := by
    rw [← ht]
    exact List.mem_head?_append_of_mem_head? hc
  have hnot := List.head?_dropWhile_not blank s
  rw [hhead] at hnot
  exact hnot

theorem trim_eq_iff : trim blank s = s ↔ Trimmed blank s := by
  constructor
  · intro h
    rw [← h]
    exact trimmed_trim
  · exact Trimmed.trim_eq

end Trim

end Foundations
