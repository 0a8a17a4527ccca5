import Mathlib.Data.List.Nodup
import Mathlib.Data.Set.Insert
import Mathlib.Logic.Function.Basic
import Mathlib.Logic.Relation

/-! # Who has to give a resource back

Resources are issued, handed from one holder to another, and closed; a holder can also lose one. However these moves are
mixed, a resource has one holder at most, none once it is closed, and it is closed at most once.
-/

namespace Foundations.Custody
open Function
set_option autoImplicit false
set_option maxHeartbeats 250000
set_option maxRecDepth 120000

/-- What every holder holds, and the resources issued and closed so far. -/
structure Ledger (κ α : Type*) where
  holds : κ → Option α
  issued : Set α
  closed : List α

variable {κ α : Type*} [DecidableEq κ] {l l' : Ledger κ α} {k k' : κ} {a : α}

inductive Move : Ledger κ α → Ledger κ α → Prop
  | issue (l : Ledger κ α) (k : κ) (a : α) (hnew : a ∉ l.issued) :
      Move l { l with holds := update l.holds k (some a), issued := insert a l.issued }
  | pass (l : Ledger κ α) (k k' : κ) : Move l { l with holds := update (update l.holds k none) k' (l.holds k) }
  | close (l : Ledger κ α) (k : κ) (a : α) (hheld : l.holds k = some a) :
      Move l { l with holds := update l.holds k none, closed := a :: l.closed }
  | lose (l : Ledger κ α) (k : κ) : Move l { l with holds := update l.holds k none }

structure Sole (l : Ledger κ α) : Prop where
  one : ∀ k k' a, l.holds k = some a → l.holds k' = some a → k = k'
  known : ∀ k a, l.holds k = some a → a ∈ l.issued
  opened : ∀ k a, l.holds k = some a → a ∉ l.closed
  returned : ∀ a, a ∈ l.closed → a ∈ l.issued
  once : l.closed.Nodup

omit [DecidableEq κ] in
theorem Sole.empty : Sole (⟨fun _ => none, ∅, []⟩ : Ledger κ α) where
  one _ _ _ h := nomatch h
  known _ _ h := nomatch h
  opened _ _ h := nomatch h
  returned _ h := nomatch h
  once := List.nodup_nil

omit [DecidableEq κ] in
/-- Holding less leaves everything as it was. -/
theorem Sole.forget (h : Sole l) {holds : κ → Option α} (hless : ∀ k a, holds k = some a → l.holds k = some a) :
    Sole { l with holds := holds } where
  one k k' a hk hk' := h.one k k' a (hless k a hk) (hless k' a hk')
  known k a hk := h.known k a (hless k a hk)
  opened k a hk := h.opened k a (hless k a hk)
  returned := h.returned
  once := h.once

theorem update_none_eq {f : κ → Option α} (h : update f k none k' = some a) : k' ≠ k ∧ f k' = some a := by
  by_cases hk : k' = k
  · rw [hk, update_self] at h
    exact absurd h (Option.some_ne_none a).symm
  · rw [update_of_ne hk] at h
    exact ⟨hk, h⟩

theorem Sole.lose (h : Sole l) (k : κ) : Sole { l with holds := update l.holds k none } :=
  h.forget fun _ _ hk => (update_none_eq hk).2

/-- What holder `j` holds, where `k'` has what `k` had: its own, or what `k` had. -/
theorem passed_eq {f : κ → Option α} {j : κ} (h : update (update f k none) k' (f k) j = some a) :
    (j = k' ∧ f k = some a) ∨ (j ≠ k' ∧ j ≠ k ∧ f j = some a) := by
  by_cases hj : j = k'
  · rw [hj, update_self] at h
    exact Or.inl ⟨hj, h⟩
  · rw [update_of_ne hj] at h
    obtain ⟨hne, hheld⟩ := update_none_eq h
    exact Or.inr ⟨hj, hne, hheld⟩

theorem passed_source {f : κ → Option α} {j : κ} (h : update (update f k none) k' (f k) j = some a) :
    ∃ i, f i = some a := by
  rcases passed_eq h with ⟨-, hk⟩ | ⟨-, -, hj⟩
  · exact ⟨k, hk⟩
  · exact ⟨j, hj⟩

theorem Sole.pass (h : Sole l) (k k' : κ) :
    Sole { l with holds := update (update l.holds k none) k' (l.holds k) } where
  one i j a hi hj := by
    rcases passed_eq hi with ⟨rfl, hik⟩ | ⟨-, hik, hi'⟩
    · rcases passed_eq hj with ⟨rfl, -⟩ | ⟨-, hjk, hj'⟩
      · rfl
      · exact absurd (h.one j k a hj' hik) hjk
    · rcases passed_eq hj with ⟨rfl, hjk⟩ | ⟨-, -, hj'⟩
      · exact absurd (h.one i k a hi' hjk) hik
      · exact h.one i j a hi' hj'
  known j a hj := by
    obtain ⟨i, hi⟩ := passed_source hj
    exact h.known i a hi
  opened j a hj := by
    obtain ⟨i, hi⟩ := passed_source hj
    exact h.opened i a hi
  returned := h.returned
  once := h.once

theorem Sole.issue (h : Sole l) (k : κ) (hnew : a ∉ l.issued) :
    Sole { l with holds := update l.holds k (some a), issued := insert a l.issued } := by
  have hheld : ∀ j b, update l.holds k (some a) j = some b → (j = k ∧ b = a) ∨ (j ≠ k ∧ l.holds j = some b) := by
    intro j b hj
    by_cases hjk : j = k
    · rw [hjk, update_self] at hj
      exact Or.inl ⟨hjk, (Option.some.inj hj).symm⟩
    · rw [update_of_ne hjk] at hj
      exact Or.inr ⟨hjk, hj⟩
  refine ⟨fun i j b hi hj => ?_, fun j b hj => ?_, fun j b hj => ?_, fun b hb => ?_, h.once⟩
  · rcases hheld i b hi with ⟨rfl, rfl⟩ | ⟨-, hi'⟩
    · rcases hheld j b hj with ⟨rfl, -⟩ | ⟨-, hj'⟩
      · rfl
      · exact absurd (h.known j b hj') hnew
    · rcases hheld j b hj with ⟨rfl, rfl⟩ | ⟨-, hj'⟩
      · exact absurd (h.known i b hi') hnew
      · exact h.one i j b hi' hj'
  · rcases hheld j b hj with ⟨-, rfl⟩ | ⟨-, hj'⟩
    · exact Set.mem_insert b _
    · exact Set.mem_insert_of_mem a (h.known j b hj')
  · rcases hheld j b hj with ⟨-, rfl⟩ | ⟨-, hj'⟩
    · exact fun hb => hnew (h.returned b hb)
    · exact h.opened j b hj'
  · exact Set.mem_insert_of_mem a (h.returned b hb)

theorem Sole.close (h : Sole l) (hheld : l.holds k = some a) :
    Sole { l with holds := update l.holds k none, closed := a :: l.closed } where
  one i j b hi hj := h.one i j b (update_none_eq hi).2 (update_none_eq hj).2
  known j b hj := h.known j b (update_none_eq hj).2
  opened j b hj := by
    obtain ⟨hjk, hj'⟩ := update_none_eq hj
    intro hb
    rcases List.mem_cons.1 hb with rfl | hb
    · exact hjk (h.one j k b hj' hheld)
    · exact h.opened j b hj' hb
  returned b hb := by
    rcases List.mem_cons.1 hb with rfl | hb
    · exact h.known k b hheld
    · exact h.returned b hb
  once := List.nodup_cons.2 ⟨h.opened k a hheld, h.once⟩

theorem Sole.move (h : Sole l) (hmove : Move l l') : Sole l' := by
  cases hmove with
  | issue k a hnew => exact h.issue k hnew
  | pass k k' => exact h.pass k k'
  | close k a hheld => exact h.close hheld
  | lose k => exact h.lose k

theorem Sole.moves (h : Sole l) (hmoves : Relation.ReflTransGen Move l l') : Sole l' := by
  induction hmoves with
  | refl => exact h
  | tail _ hmove ih => exact ih.move hmove

/-! ## What is closed stays closed -/

theorem Move.closed (hmove : Move l l') (ha : a ∈ l.closed) : a ∈ l'.closed := by
  cases hmove with
  | issue | pass | lose => exact ha
  | close k b hheld => exact List.mem_cons_of_mem b ha

theorem closed_moves (hmoves : Relation.ReflTransGen Move l l') (ha : a ∈ l.closed) : a ∈ l'.closed := by
  induction hmoves with
  | refl => exact ha
  | tail _ hmove ih => exact hmove.closed ih

/-- Once closed, nobody has it again. -/
theorem Sole.never_again (h : Sole l) (hmoves : Relation.ReflTransGen Move l l') (ha : a ∈ l.closed) (k : κ) :
    l'.holds k ≠ some a :=
  fun hk => (h.moves hmoves).opened k a hk (closed_moves hmoves ha)

end Foundations.Custody
