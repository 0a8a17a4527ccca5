import Mathlib.Data.List.Basic
import StarLib.Foundations.Words

/-! # Records of fixed-width fields

A number in some bytes, the least significant one first, and where a part of a list stands in it. A record is read field
by field: what stands at a place is what was written there, and the next field stands behind it.
-/

namespace Foundations
set_option autoImplicit false
set_option maxHeartbeats 250000
set_option maxRecDepth 120000

/-! ## Numbers -/

def leBytes : ℕ → ℕ → List Byte
  | 0, _ => []
  | k + 1, n => BitVec.ofNat 8 n :: leBytes k (n / 256)

def leValue : List Byte → ℕ
  | [] => 0
  | b :: l => b.toNat + 256 * leValue l

@[simp] theorem leBytes_length (k n : ℕ) : (leBytes k n).length = k := by
  induction k generalizing n with
  | zero => rfl
  | succ k ih => rw [leBytes, List.length_cons, ih]

/-- What does not fit is lost. -/
theorem leValue_leBytes (k n : ℕ) : leValue (leBytes k n) = n % 256 ^ k := by
  induction k generalizing n with
  | zero => rw [Nat.pow_zero, Nat.mod_one, leBytes, leValue]
  | succ k ih =>
    have hsplit : 256 ^ (k + 1) = 256 * 256 ^ k := Nat.pow_succ'
    rw [leBytes, leValue, ih, BitVec.toNat_ofNat, hsplit]
    exact Nat.mod_mul.symm

/-! ## Places -/

variable {α : Type*} {l s t : List α} {i : ℕ}

def StandsAt (l : List α) (i : ℕ) (s : List α) : Prop := ∃ before rest, l = before ++ s ++ rest ∧ before.length = i

theorem StandsAt.start (s rest : List α) : StandsAt (s ++ rest) 0 s := ⟨[], rest, rfl, rfl⟩

theorem StandsAt.end (before s : List α) : StandsAt (before ++ s) before.length s :=
  ⟨before, [], (List.append_nil _).symm, rfl⟩

theorem StandsAt.bound (h : StandsAt l i s) : i + s.length ≤ l.length := by
  obtain ⟨before, rest, rfl, rfl⟩ := h
  simp only [List.length_append]
  omega

theorem StandsAt.read (h : StandsAt l i s) : (l.drop i).take s.length = s := by
  obtain ⟨before, rest, rfl, rfl⟩ := h
  rw [List.append_assoc, List.drop_left, List.take_left]

theorem StandsAt.left (h : StandsAt l i (s ++ t)) : StandsAt l i s := by
  obtain ⟨before, rest, rfl, rfl⟩ := h
  exact ⟨before, t ++ rest, by simp only [List.append_assoc], rfl⟩

theorem StandsAt.right (h : StandsAt l i (s ++ t)) : StandsAt l (i + s.length) t := by
  obtain ⟨before, rest, rfl, rfl⟩ := h
  exact ⟨before ++ s, rest, by simp only [List.append_assoc], List.length_append⟩

/-- Behind a field. -/
theorem StandsAt.field {buf rest : List Byte} {k v : ℕ} (h : StandsAt buf i (leBytes k v ++ rest)) :
    StandsAt buf (i + k) rest := by
  have hright := h.right
  rwa [leBytes_length] at hright

/-- What stands in a part of the list. -/
theorem StandsAt.trans {j : ℕ} (h : StandsAt l i s) (ht : StandsAt s j t) : StandsAt l (i + j) t := by
  obtain ⟨before, rest, rfl, rfl⟩ := h
  obtain ⟨before', rest', rfl, rfl⟩ := ht
  exact ⟨before ++ before', rest' ++ rest, by simp only [List.append_assoc], List.length_append⟩

/-- What an item becomes stands behind what the items in front of it become. -/
theorem StandsAt.flatMap {β : Type*} {items : List β} {x : β} (f : β → List α) (h : items[i]? = some x) :
    StandsAt (items.flatMap f) ((items.take i).flatMap f).length (f x) := by
  obtain ⟨hi, hx⟩ := List.getElem?_eq_some_iff.1 h
  refine ⟨(items.take i).flatMap f, (items.drop (i + 1)).flatMap f, ?_, rfl⟩
  have hsplit : items = items.take i ++ (x :: items.drop (i + 1)) := by
    rw [← hx, List.getElem_cons_drop, List.take_append_drop]
  nth_rewrite 1 [hsplit]
  rw [List.flatMap_append, List.flatMap_cons, List.append_assoc]

/-! ## Writing into a list -/

/-- `s` in the place of what stands at `i`. -/
def overwrite (l : List α) (i : ℕ) (s : List α) : List α := l.take i ++ s ++ l.drop (i + s.length)

theorem overwrite_at {old : List α} (before rest : List α) (h : s.length = old.length) :
    overwrite (before ++ old ++ rest) before.length s = before ++ s ++ rest := by
  unfold overwrite
  rw [h, List.append_assoc before, List.take_left, ← List.append_assoc, ← List.length_append, List.drop_left]

/-- Behind what is there already. -/
theorem overwrite_end (before rest s : List α) :
    overwrite (before ++ rest) before.length s = before ++ (s ++ rest.drop s.length) := by
  unfold overwrite
  rw [List.take_left, ← List.drop_drop, List.drop_left, List.append_assoc]

theorem overwrite_length (h : i + s.length ≤ l.length) : (overwrite l i s).length = l.length := by
  unfold overwrite
  simp only [List.length_append, List.length_take, List.length_drop]
  omega

end Foundations
