import Mathlib.Data.List.Nodup
import Mathlib.Logic.Function.Basic
import Mathlib.Tactic.Common

/-! # Linked lists in a store

`next` holds the link of every cell. `Chain next head xs` says that the cells `xs` are linked from `head` to the end,
each with the one after it. Loops over the cells take at most a given number of steps.
-/

namespace Foundations
set_option autoImplicit false
set_option maxHeartbeats 250000
set_option maxRecDepth 120000

variable {α : Type*} {next : α → Option α} {head : Option α} {x : α} {xs : List α} {n : ℕ}

def Chain (next : α → Option α) : Option α → List α → Prop
  | head, [] => head = none
  | head, x :: xs => head = some x ∧ Chain next (next x) xs

/-- The cells in the order in which a loop meets them. -/
def follow (next : α → Option α) : ℕ → Option α → List α
  | 0, _ => []
  | _, none => []
  | n + 1, some x => x :: follow next n (next x)

/-- The loop that searches for the cell before `x` and sets its link to the one of `x`. -/
def unlink [DecidableEq α] (x : α) : ℕ → Option α → (α → Option α) → α → Option α
  | 0, _, next => next
  | _, none, next => next
  | n + 1, some p, next => if next p = some x then Function.update next p (next x) else unlink x n (next p) next

theorem Chain.follow (h : Chain next head xs) (hn : xs.length ≤ n) : follow next n head = xs := by
  induction xs generalizing head n with
  | nil =>
    subst h
    cases n <;> rfl
  | cons x xs ih =>
    obtain ⟨rfl, h⟩ := h
    cases n with
    | zero => exact absurd hn (Nat.not_succ_le_zero _)
    | succ n => exact congrArg (x :: ·) (ih h (Nat.le_of_succ_le_succ hn))

variable [DecidableEq α]

theorem Chain.update (h : Chain next head xs) (hx : x ∉ xs) (link : Option α) : Chain (Function.update next x link) head xs := by
  induction xs generalizing head with
  | nil => exact h
  | cons y xs ih =>
    refine ⟨h.1, ?_⟩
    rw [Function.update_of_ne (List.ne_of_not_mem_cons hx).symm]
    exact ih h.2 (List.not_mem_of_not_mem_cons hx)

theorem Chain.push (h : Chain next head xs) (hx : x ∉ xs) : Chain (Function.update next x head) (some x) (x :: xs) := by
  refine ⟨rfl, ?_⟩
  rw [Function.update_self]
  exact h.update hx head

theorem unlink_other (y : α) (h : Chain next head xs) (hy : y ∉ xs) : unlink x n head next y = next y := by
  induction xs generalizing head n with
  | nil =>
    subst h
    cases n <;> rfl
  | cons z xs ih =>
    obtain ⟨rfl, h⟩ := h
    cases n with
    | zero => rfl
    | succ n =>
      unfold unlink
      split
      · rw [Function.update_of_ne (List.ne_of_not_mem_cons hy)]
      · exact ih h (List.not_mem_of_not_mem_cons hy)

/-- The loop takes the cell out of the chain, if it is not the first one. -/
theorem Chain.unlink (h : Chain next head xs) (hhead : head ≠ some x) (hnodup : xs.Nodup) (hn : xs.length ≤ n) :
    Chain (unlink x n head next) head (xs.erase x) := by
  induction xs generalizing head n with
  | nil =>
    subst h
    rfl
  | cons y xs ih =>
    obtain ⟨rfl, h⟩ := h
    obtain ⟨hy, hnodup⟩ := List.nodup_cons.1 hnodup
    have hyx : y ≠ x := fun hyx => hhead (congrArg some hyx)
    cases n with
    | zero => exact absurd hn (Nat.not_succ_le_zero _)
    | succ n =>
      rw [List.erase_cons_tail (by rwa [beq_iff_eq])]
      refine ⟨rfl, ?_⟩
      unfold Foundations.unlink
      by_cases hnext : next y = some x
      · -- the cell comes next: its link is skipped, and what follows it is the rest
        rw [if_pos hnext, Function.update_self]
        cases xs with
        | nil => exact absurd (h.symm.trans hnext) nofun
        | cons z xs =>
          obtain ⟨hz, h⟩ := h
          obtain rfl : z = x := Option.some.inj (hz.symm.trans hnext)
          rw [List.erase_cons_head]
          exact h.update (List.not_mem_of_not_mem_cons hy) (next z)
      · rw [if_neg hnext, unlink_other y h hy]
        exact ih h hnext hnodup (Nat.le_of_succ_le_succ hn)

end Foundations
