import StarLib.Foundations.Arrays

/-! # Absorbing a stream block by block

A state with a partly filled block and a value chained from block to block. `Absorbed` is the invariant
over any stream of pushes: the block holds the rest of the stream after its full blocks, and the value is
the chain of `compress` over them.
-/

namespace Foundations
set_option autoImplicit false
set_option maxHeartbeats 250000
set_option maxRecDepth 120000

variable {β σ : Type*}

structure Absorber (β σ : Type*) where
  fill : ℕ
  block : ℕ → β
  value : σ

namespace Absorber

/-- One element goes into the block; a full block is compressed into the value. -/
def push (n : ℕ) (compress : σ → (ℕ → β) → σ) (s : Absorber β σ) (b : β) : Absorber β σ :=
  let block := Function.update s.block s.fill b
  let fill := s.fill + 1
  if n = fill then ⟨0, block, compress s.value block⟩ else ⟨fill, block, s.value⟩

def absorb (n : ℕ) (compress : σ → (ℕ → β) → σ) (s : Absorber β σ) (src : List β) : Absorber β σ :=
  src.foldl (push n compress) s

end Absorber

variable [Inhabited β]

/-- Block `k` of a stream. -/
def blockAt (n : ℕ) (stream : List β) (k j : ℕ) : β := stream.getD (n * k + j) default

/-- The value after the first `k` blocks of a stream. -/
def chain (n : ℕ) (compress : σ → (ℕ → β) → σ) (v : σ) (stream : List β) (k : ℕ) : σ :=
  forRange 0 k (fun i v => compress v (blockAt n stream i)) v

/-- The state after `stream`, from value `v` and an empty block. -/
structure Absorbed (n : ℕ) (compress : σ → (ℕ → β) → σ) (v : σ) (stream : List β) (s : Absorber β σ) : Prop where
  fill : s.fill = stream.length % n
  block : AgreeBelow s.fill s.block (blockAt n stream (stream.length / n))
  value : s.value = chain n compress v stream (stream.length / n)

section
variable {n : ℕ} {compress : σ → (ℕ → β) → σ} {v : σ} {stream : List β} {s : Absorber β σ}

theorem blockAt_append (rest : List β) {k j : ℕ} (h : n * k + j < stream.length) :
    blockAt n (stream ++ rest) k j = blockAt n stream k j := by
  simp only [blockAt, List.getD_eq_getElem?_getD]
  rw [List.getElem?_append_left h]

theorem blockAt_last (b : β) {k j : ℕ} (h : n * k + j = stream.length) : blockAt n (stream ++ [b]) k j = b := by
  simp [blockAt, List.getD_eq_getElem?_getD, h]

theorem blockAt_agree (rest : List β) {k m : ℕ} (h : n * k + m ≤ stream.length) :
    AgreeBelow m (blockAt n stream k) (blockAt n (stream ++ rest) k) :=
  fun _ hj => (blockAt_append rest (by omega)).symm

theorem chain_append (hlocal : ∀ v b b', AgreeBelow n b b' → compress v b = compress v b') (v : σ)
    (rest : List β) {k : ℕ} (h : n * k ≤ stream.length) :
    chain n compress v (stream ++ rest) k = chain n compress v stream k := by
  refine forRange_congr _ fun i v _ hi => (hlocal v _ _ (blockAt_agree rest ?_)).symm
  calc n * i + n = n * (i + 1) := (Nat.mul_succ n i).symm
    _ ≤ n * k := Nat.mul_le_mul_left n hi
    _ ≤ stream.length := h

theorem chain_succ (v : σ) (stream : List β) (k : ℕ) :
    chain n compress v stream (k + 1) = compress (chain n compress v stream k) (blockAt n stream k) :=
  forRange_succ (Nat.zero_le k) _ v

theorem Absorbed.start (n : ℕ) (compress : σ → (ℕ → β) → σ) (block : ℕ → β) (v : σ) :
    Absorbed n compress v [] ⟨0, block, v⟩ := by
  have hdiv : ([] : List β).length / n = 0 := Nat.zero_div n
  refine ⟨(Nat.zero_mod n).symm, AgreeBelow.zero _ _, ?_⟩
  rw [hdiv, chain, forRange_of_le (Nat.le_refl 0)]

theorem Absorbed.push (hn : 0 < n) (hlocal : ∀ v b b', AgreeBelow n b b' → compress v b = compress v b')
    (h : Absorbed n compress v stream s) (b : β) : Absorbed n compress v (stream ++ [b]) (s.push n compress b) := by
  obtain ⟨hfill, hblock, hvalue⟩ := h
  have hdm : n * (stream.length / n) + stream.length % n = stream.length := Nat.div_add_mod _ _
  have hlt : stream.length % n < n := Nat.mod_lt _ hn
  -- the block with its new element, read as the block of the longer stream
  have hpush : AgreeBelow (s.fill + 1) (Function.update s.block s.fill b)
      (blockAt n (stream ++ [b]) (stream.length / n)) := by
    intro j hj
    by_cases hlast : j = s.fill
    · rw [hlast, Function.update_self, blockAt_last b (by rw [hfill, hdm])]
    · rw [Function.update_of_ne hlast, hblock j (by omega), blockAt_append [b] (by omega)]
  have hchain : chain n compress v (stream ++ [b]) (stream.length / n) =
      chain n compress v stream (stream.length / n) := chain_append hlocal v [b] (by omega)
  unfold Absorber.push
  by_cases hfull : n = s.fill + 1
  · have hlen : (stream ++ [b]).length = n * (stream.length / n + 1) := by
      rw [List.length_append, List.length_singleton, Nat.mul_succ]
      omega
    simp only [if_pos hfull]
    refine ⟨?_, AgreeBelow.zero _ _, ?_⟩
    · rw [hlen, Nat.mul_mod_right]
    · rw [hlen, Nat.mul_div_cancel_left _ hn, chain_succ, hchain, ← hvalue]
      rw [← hfull] at hpush
      exact hlocal _ _ _ hpush
  · have hlen : (stream ++ [b]).length = stream.length % n + 1 + n * (stream.length / n) := by
      rw [List.length_append, List.length_singleton]
      omega
    have hsmall : stream.length % n + 1 < n := by omega
    have hdiv : (stream ++ [b]).length / n = stream.length / n := by
      rw [hlen, Nat.add_mul_div_left _ _ hn, Nat.div_eq_of_lt hsmall, Nat.zero_add]
    simp only [if_neg hfull]
    refine ⟨?_, ?_, ?_⟩
    · rw [hlen, Nat.add_mul_mod_self_left, Nat.mod_eq_of_lt hsmall, hfill]
    · rw [hdiv]
      exact hpush
    · rw [hdiv, hchain]
      exact hvalue

theorem Absorbed.absorb (hn : 0 < n) (hlocal : ∀ v b b', AgreeBelow n b b' → compress v b = compress v b')
    (h : Absorbed n compress v stream s) (src : List β) :
    Absorbed n compress v (stream ++ src) (s.absorb n compress src) := by
  induction src generalizing stream s with
  | nil => simpa [Absorber.absorb] using h
  | cons b src ih =>
    have hrest := ih (h.push hn hlocal b)
    rw [List.append_assoc] at hrest
    exact hrest

end

end Foundations
