import Mathlib.Data.List.TakeWhile
import Mathlib.Logic.Function.Basic
import StarLib.Foundations.Loop
import StarLib.Foundations.Words

/-! # Buffers written from the start

A heap buffer has a length, cells, and a record of whether every write so far was inside it. `Holds` says what
a program that writes one cell after the other has made of it. A string in a buffer ends at its first zero.
-/

namespace Foundations
set_option autoImplicit false
set_option maxHeartbeats 250000
set_option maxRecDepth 120000

variable {α : Type*}

structure Buf (α : Type*) where
  len : ℕ
  cell : ℕ → α
  inside : Bool

namespace Buf

/-- `b[i] = v`. -/
def put (b : Buf α) (i : ℕ) (v : α) : Buf α :=
  { b with cell := Function.update b.cell i v, inside := b.inside && decide (i < b.len) }

/-- `l` was written from the start of a buffer of `n` cells. -/
structure Holds (b : Buf α) (n : ℕ) (l : List α) : Prop where
  len : b.len = n
  cells : ∀ i < l.length, l[i]? = some (b.cell i)
  inside : b.inside = decide (l.length ≤ n)

theorem Holds.new (n : ℕ) (cell : ℕ → α) : Holds ⟨n, cell, true⟩ n [] :=
  ⟨rfl, fun i hi => absurd hi (Nat.not_lt_zero i), rfl⟩

theorem Holds.put {b : Buf α} {n : ℕ} {l : List α} (h : Holds b n l) (v : α) :
    Holds (b.put l.length v) n (l ++ [v]) := by
  refine ⟨h.len, fun i hi => ?_, ?_⟩
  · simp only [List.length_append, List.length_singleton] at hi
    show _ = some (Function.update b.cell l.length v i)
    by_cases hlast : i = l.length
    · rw [hlast, Function.update_self, List.getElem?_concat_length]
    · have hlt : i < l.length := by omega
      rw [Function.update_of_ne hlast, List.getElem?_append_left hlt, h.cells i hlt]
  · show (b.inside && decide (l.length < b.len)) = _
    rw [h.inside, h.len, List.length_append, List.length_singleton, ← Bool.decide_and]
    exact decide_eq_decide.2 (by omega)

/-- A cell written behind all others, such as a terminator, decides whether all were inside. -/
theorem Holds.put_inside_iff {b : Buf α} {n : ℕ} {l : List α} (h : Holds b n l) (v : α) :
    (b.put l.length v).inside = true ↔ l.length < n := by
  rw [(h.put v).inside, decide_eq_true_iff, List.length_append, List.length_singleton]
  exact Nat.succ_le_iff

theorem Holds.start {b : Buf α} {n : ℕ} {l r : List α} (h : Holds b n (l ++ r)) (hin : (l ++ r).length ≤ n) :
    Holds b n l := by
  rw [List.length_append] at hin
  refine ⟨h.len, fun i hi => ?_, ?_⟩
  · have hcell := h.cells i (by rw [List.length_append]; omega)
    rwa [List.getElem?_append_left hi] at hcell
  · rw [h.inside, List.length_append, decide_eq_true hin, decide_eq_true (by omega)]

theorem Holds.map_range {b : Buf α} {n m : ℕ} {l : List α} (h : Holds b n l) (hm : l.length ≤ m) :
    (List.range m).map b.cell = l ++ ((List.range m).map b.cell).drop l.length := by
  have htake : ((List.range m).map b.cell).take l.length = l := by
    apply List.ext_getElem?
    intro i
    by_cases hi : i < l.length
    · rw [List.getElem?_take_of_lt hi, h.cells i hi]
      simp [show i < m by omega]
    · rw [List.getElem?_eq_none (by simp; omega), List.getElem?_eq_none (by omega)]
  have hsplit := List.take_append_drop l.length ((List.range m).map b.cell)
  rw [htake] at hsplit
  exact hsplit.symm

/-- The string at the start of a buffer, unless something was written outside. -/
def str (b : Buf Byte) : Option (List Byte) :=
  if b.inside then some (((List.range b.len).map b.cell).takeWhile (· ≠ 0)) else none

/-- The string that is read from the start of a buffer of which `extent` cells can be read. Without a terminator it
runs on past the end. -/
def readStr [Zero α] [DecidableEq α] (b : Buf α) (extent : ℕ) : List α :=
  ((List.range (max b.len extent)).map b.cell).takeWhile (· ≠ 0)

/-- `for (i = 0; i < m; i++) b[i] = g(i);` -/
theorem put_loop (g : ℕ → α) (m : ℕ) (b : Buf α) :
    let b' := forRange 0 m (fun i b => b.put i (g i)) b
    b'.len = b.len ∧ b'.inside = (b.inside && decide (m ≤ b.len)) ∧
      ∀ i, b'.cell i = if i < m then g i else b.cell i := by
  induction m with
  | zero =>
    rw [forRange_of_le (Nat.le_refl 0)]
    exact ⟨rfl, by simp, fun i => by simp⟩
  | succ m ih =>
    rw [forRange_succ (Nat.zero_le m)]
    generalize forRange 0 m (fun i b => b.put i (g i)) b = c at ih
    obtain ⟨hlen, hinside, hcell⟩ := ih
    refine ⟨hlen, ?_, fun i => ?_⟩
    · show (c.inside && decide (m < c.len)) = _
      rw [hinside, hlen, Bool.and_assoc, ← Bool.decide_and]
      congr 1
      exact decide_eq_decide.2 (by omega)
    · show Function.update c.cell m (g m) i = _
      by_cases hi : i = m
      · rw [hi, Function.update_self, if_pos (Nat.lt_succ_self m)]
      · have hiff : i < m + 1 ↔ i < m := by omega
        rw [Function.update_of_ne hi, hcell]
        simp only [hiff]

theorem Holds.put_loop {b : Buf α} {n : ℕ} {l : List α} (h : Holds b n l) (g : ℕ → α) (m : ℕ) :
    Holds (forRange 0 m (fun i b => b.put (l.length + i) (g i)) b) n (l ++ (List.range m).map g) := by
  induction m with
  | zero =>
    rw [forRange_of_le (Nat.le_refl 0), List.range_zero, List.map_nil, List.append_nil]
    exact h
  | succ m ih =>
    have hnext := ih.put (g m)
    rw [List.length_append, List.length_map, List.length_range] at hnext
    rw [forRange_succ (Nat.zero_le m), List.range_succ, List.map_append, List.map_singleton, ← List.append_assoc]
    exact hnext

/-- `strncpy(&b[off], src, count);` A string that is too short is filled up with zeros. -/
def strncpy [Zero α] (b : Buf α) (off : ℕ) (src : List α) (count : ℕ) : Buf α :=
  forRange 0 count (fun i b => b.put (off + i) (src.getD i 0)) b

theorem range_getD [Zero α] (src : List α) : (List.range src.length).map (fun i => src.getD i 0) = src := by
  apply List.ext_getElem
  · rw [List.length_map, List.length_range]
  · intro i _ hi
    simp [hi]

theorem Holds.strncpy [Zero α] {b : Buf α} {n : ℕ} {l : List α} (h : Holds b n l) (src : List α) :
    Holds (b.strncpy l.length src src.length) n (l ++ src) := by
  have hloop := h.put_loop (fun i => src.getD i 0) src.length
  rw [range_getD] at hloop
  exact hloop

theorem Holds.strncpy_succ [Zero α] {b : Buf α} {n : ℕ} {l : List α} (h : Holds b n l) (src : List α) :
    Holds (b.strncpy l.length src (src.length + 1)) n (l ++ (src ++ [0])) := by
  have hloop := h.put_loop (fun i => src.getD i 0) (src.length + 1)
  have hlast : src.getD src.length 0 = 0 := List.getD_eq_default _ _ (Nat.le_refl _)
  rw [List.range_succ, List.map_append, range_getD, List.map_singleton, hlast] at hloop
  exact hloop

end Buf

theorem takeWhile_stop {p : α → Bool} (l rest : List α) {x : α} (hx : p x = false) :
    (l ++ x :: rest).takeWhile p = l.takeWhile p := by
  induction l with
  | nil => simp [hx]
  | cons y l ih =>
    rw [List.cons_append, List.takeWhile_cons, List.takeWhile_cons, ih]

theorem takeWhile_plain {l : List Byte} (h : ∀ x ∈ l, x ≠ 0) : l.takeWhile (· ≠ 0) = l :=
  List.takeWhile_eq_self_iff.2 fun x hx => decide_eq_true (h x hx)

/-- A string of as many bytes and without a zero is all of what was written. -/
theorem takeWhile_eq_iff {l l' : List Byte} (hlength : l.length = l'.length) (hplain : ∀ x ∈ l', x ≠ 0) :
    l.takeWhile (· ≠ 0) = l' ↔ l = l' := by
  constructor
  · intro h
    have hstart := List.takeWhile_prefix (l := l) (fun x => decide (x ≠ (0 : Byte)))
    rw [h] at hstart
    exact (hstart.eq_of_length hlength.symm).symm
  · rintro rfl
    exact takeWhile_plain hplain

/-- The string that a terminator ends. -/
theorem Buf.Holds.str {b : Buf Byte} {n : ℕ} {l : List Byte} (h : Holds b n (l ++ [0])) :
    b.str = if l.length < n then some (l.takeWhile (· ≠ 0)) else none := by
  have hlength : (l ++ [0]).length = l.length + 1 := by simp
  unfold Buf.str
  rw [h.inside, h.len, hlength]
  by_cases hin : l.length < n
  · have hle : l.length + 1 ≤ n := hin
    rw [if_pos hin, if_pos (decide_eq_true hle)]
    rw [h.map_range (by rw [hlength]; exact hle), List.append_assoc, List.singleton_append,
      takeWhile_stop l _ (by decide)]
  · have hnot : ¬ decide (l.length + 1 ≤ n) = true := by
      rw [decide_eq_true_iff]
      omega
    rw [if_neg hin, if_neg hnot]

theorem Buf.Holds.readStr [Zero α] [DecidableEq α] {b : Buf α} {n : ℕ} {l : List α} (h : Holds b n (l ++ [0]))
    (hin : l.length < n) (hplain : ∀ x ∈ l, x ≠ 0) (extent : ℕ) : b.readStr extent = l := by
  have hfits : (l ++ [0]).length ≤ max b.len extent := by
    rw [h.len, List.length_append, List.length_singleton]
    omega
  unfold Buf.readStr
  rw [h.map_range hfits, List.append_assoc, List.singleton_append, takeWhile_stop l _ (by simp)]
  exact List.takeWhile_eq_self_iff.2 fun x hx => decide_eq_true (hplain x hx)

end Foundations
