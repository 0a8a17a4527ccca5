import StarLib.Foundations.Layouts

/-! # Buffers in a chain

A pass over a buffer whose every value goes through a step that takes a chain along: each output depends on what came
before it. The output may overlap the input as long as no value is overwritten before its turn.
-/

namespace Foundations
set_option autoImplicit false
set_option maxHeartbeats 250000
set_option maxRecDepth 120000

variable {β κ : Type}

/-- The values of a list through `step`, from left to right. -/
def chainList (step : κ → β → β × κ) : κ → List β → List β × κ
  | c, [] => ([], c)
  | c, x :: xs => ((step c x).1 :: (chainList step (step c x).2 xs).1, (chainList step (step c x).2 xs).2)

theorem chainList_append (step : κ → β → β × κ) (c : κ) (xs ys : List β) :
    chainList step c (xs ++ ys) =
      ((chainList step c xs).1 ++ (chainList step (chainList step c xs).2 ys).1,
        (chainList step (chainList step c xs).2 ys).2) := by
  induction xs generalizing c with
  | nil => rfl
  | cons x xs ih => simp only [List.cons_append, chainList, ih]

theorem chainList_length (step : κ → β → β × κ) (c : κ) (xs : List β) : (chainList step c xs).1.length = xs.length := by
  induction xs generalizing c with
  | nil => rfl
  | cons x xs ih => rw [chainList, List.length_cons, List.length_cons, ih]

theorem chainList_undo {step step' : κ → β → β × κ} (h : ∀ c x, step' c (step c x).1 = (x, (step c x).2)) (c : κ)
    (xs : List β) : chainList step' c (chainList step c xs).1 = (xs, (chainList step c xs).2) := by
  induction xs generalizing c with
  | nil => rfl
  | cons x xs ih => simp only [chainList, h, ih]

namespace Layout
variable (L : Layout β)

/-- The values of a buffer. -/
def loads (mem : Ram) (a n : ℕ) : List β := (List.range n).map fun i => L.load mem (a + L.size * i)

theorem loads_add (mem : Ram) (a n m : ℕ) :
    L.loads mem a (n + m) = L.loads mem a n ++ L.loads mem (a + L.size * n) m := by
  unfold loads
  rw [List.range_add, List.map_append, List.map_map]
  congr 1
  apply List.map_congr_left
  intro i _
  rw [Function.comp_apply, Nat.mul_add, Nat.add_assoc]

theorem loads_succ (mem : Ram) (a n : ℕ) : L.loads mem a (n + 1) = L.load mem a :: L.loads mem (a + L.size) n := by
  rw [Nat.add_comm, loads_add, Nat.mul_one]
  rfl

theorem loads_congr {mem mem' : Ram} {a b n : ℕ} (h : ∀ p < L.size * n, mem (a + p) = mem' (b + p)) :
    L.loads mem a n = L.loads mem' b n := by
  apply List.map_congr_left
  intro i hi
  have hplace := places_apart (s := L.size) (List.mem_range.1 hi)
  refine L.load_eq_iff.2 fun j hj => ?_
  rw [Nat.add_assoc, Nat.add_assoc]
  exact h _ (by omega)

theorem loads_byte {mem mem' : Ram} {a b n p : ℕ} (h : L.loads mem a n = L.loads mem' b n) (hp : p < L.size * n) :
    mem (a + p) = mem' (b + p) := by
  refine L.byte_place hp fun i hi => ?_
  exact List.map_inj_left.1 h i (List.mem_range.2 hi)

/-- A loop over `n` values of a buffer, which steps along both buffers. -/
def chainBlocks (step : κ → β → β × κ) : ℕ → ℕ → ℕ → κ → Ram → κ × Ram
  | 0, _, _, c, mem => (c, mem)
  | n + 1, Out, In, c, mem =>
    chainBlocks step n (Out + L.size) (In + L.size) (step c (L.load mem In)).2
      (L.store Out (step c (L.load mem In)).1 mem)

/-- The output is written behind the input or apart from it. -/
def Behind (Out In n : ℕ) : Prop := Out ≤ In ∨ In + n ≤ Out

variable (step : κ → β → β × κ)

theorem chainBlocks_apart (n Out In : ℕ) (c : κ) (mem : Ram) {p : ℕ} (hp : p < Out ∨ Out + L.size * n ≤ p) :
    (L.chainBlocks step n Out In c mem).2 p = mem p := by
  induction n generalizing Out In c mem with
  | zero => rfl
  | succ n ih =>
    rw [Nat.mul_succ] at hp
    rw [chainBlocks, ih _ _ _ _ (by omega), L.store_apart _ _ _ (by omega)]

theorem chainBlocks_loads {n Out In : ℕ} (h : Behind Out In (L.size * n)) (c : κ) (mem : Ram) :
    L.loads (L.chainBlocks step n Out In c mem).2 Out n = (chainList step c (L.loads mem In n)).1 ∧
      (L.chainBlocks step n Out In c mem).1 = (chainList step c (L.loads mem In n)).2 := by
  induction n generalizing Out In c mem with
  | zero => exact ⟨rfl, rfl⟩
  | succ n ih =>
    unfold Behind at h
    rw [Nat.mul_succ] at h
    have hrest : L.loads (L.store Out (step c (L.load mem In)).1 mem) (In + L.size) n = L.loads mem (In + L.size) n :=
      L.loads_congr fun p hp => L.store_apart _ _ _ (by omega)
    have hbehind : Behind (Out + L.size) (In + L.size) (L.size * n) := by
      unfold Behind
      omega
    obtain ⟨hloads, hchain⟩ := ih hbehind (step c (L.load mem In)).2 (L.store Out (step c (L.load mem In)).1 mem)
    rw [hrest] at hloads hchain
    have hfirst : L.load (L.chainBlocks step n (Out + L.size) (In + L.size) (step c (L.load mem In)).2
        (L.store Out (step c (L.load mem In)).1 mem)).2 Out = (step c (L.load mem In)).1 := by
      rw [← L.load_store Out (step c (L.load mem In)).1 mem]
      exact L.load_congr fun i hi => by rw [chainBlocks_apart L step _ _ _ _ _ (by omega), L.load_store]
    rw [loads_succ, loads_succ]
    simp only [chainBlocks, chainList, hfirst, hloads, hchain, and_self]

end Layout

end Foundations
