import StarLib.Aes.Refinement

/-! # `gkey` computes the expanded key

The expansion loop of `gkey` writes `Nk` words a turn, in order. What it keeps is that every word
written so far holds its column of `keyColumn`; the case `Nk = 8` cuts a turn in three.
-/

namespace StarLib.Aes
open Foundations StarLib.Rijndael
set_option autoImplicit false
set_option maxHeartbeats 250000
set_option maxRecDepth 120000

theorem leColumn_subByte (w : DWord) : leColumn (subByte gentables w) =
    ⟨sBox (byteAt w 0), sBox (byteAt w 1), sBox (byteAt w 2), sBox (byteAt w 3)⟩ := by
  unfold subByte unpack
  rw [setWidth_one_byte, setWidth_two_byte, setWidth_three_byte, setWidth_zero_byte, leColumn_pack,
    gentables_fbsub]
  rfl

theorem leColumn_subByte_rotl (w : DWord) : leColumn (subByte gentables (rotl w 24)) =
    ⟨sBox (byteAt w 1), sBox (byteAt w 2), sBox (byteAt w 3), sBox (byteAt w 0)⟩ := by
  rw [leColumn_subByte, ← ofBytes_byteAt w, rotl_twentyFour_ofBytes]
  simp

theorem leColumn_rco (k : ℕ) : leColumn (gentables.rco.getD k 0) = ⟨roundConstant k, 0, 0, 0⟩ := by
  have hget : gentables.rco.getD k 0 = (roundConstant k).setWidth 32 := by
    rw [gentables_rco]
    exact List.getD_map smRcon 0 (fun y : Byte => y.setWidth 32)
  rw [hget, setWidth_shiftLeft_zero, leColumn_ofBytes]

/-- The words below `m` hold their columns of the expanded key. -/
def Expanded (nk : ℕ) (key : List Byte) (m : ℕ) (fkey : ℕ → DWord) : Prop :=
  ∀ t < m, leColumn (fkey t) = keyColumn nk key t

section Expansion
variable {nk : ℕ} {key : List Byte}

theorem Expanded.mono {m m' : ℕ} {fkey : ℕ → DWord} (h : Expanded nk key m fkey) (hm : m' ≤ m) :
    Expanded nk key m' fkey := fun t ht => h t (by omega)

theorem Expanded.push {m : ℕ} {fkey : ℕ → DWord} (h : Expanded nk key m fkey) {v : DWord}
    (hv : leColumn v = keyColumn nk key m) : Expanded nk key (m + 1) (Function.update fkey m v) := by
  intro t ht
  by_cases htm : t = m
  · rw [htm, Function.update_self, hv]
  · rw [Function.update_of_ne htm, h t (by omega)]

section Turn
variable {j k : ℕ} {fkey : ℕ → DWord} (hj : j = nk * k) (h0 : 0 < nk) (hge : nk ≤ j)
include hj h0 hge

theorem Expanded.chain {lo : ℕ} (hi : ℕ) (h : Expanded nk key (lo + j) fkey) (hlo : 0 < lo) (hle : lo ≤ hi)
    (hhi : hi ≤ nk) (h4 : nk = 8 → ∀ i, lo ≤ i → i < hi → i ≠ 4) :
    Expanded nk key (hi + j) (forRange lo hi (chainBody nk j) fkey) := by
  refine forRange_inv (P := fun i fkey => Expanded nk key (i + j) fkey) hle h ?_
  intro i fkey h1 h2 ih
  have hcol := keyColumn_ge key h0 (by omega : nk ≤ i + j)
  rw [feed_inner (k := k) (i := i) (by omega) (by omega) (by omega) fun h8 => h4 h8 i h1 h2] at hcol
  have hnext : i + 1 + j = i + j + 1 := by omega
  rw [hnext]
  refine ih.push ?_
  rw [leColumn_xor, ih _ (by omega), ih _ (by omega), hcol]

theorem Expanded.first {k' : ℕ} (hk : k = k' + 1) (h : Expanded nk key j fkey) :
    Expanded nk key (1 + j) (Function.update fkey j
      (fkey (j - nk) ^^^ subByte gentables (rotl (fkey (j - 1)) 24) ^^^ gentables.rco.getD k' 0)) := by
  have hcol := keyColumn_ge key h0 hge
  rw [feed_first (k := k') (by rw [hj, hk]) h0, ← h (j - 1) (by omega), ← h (j - nk) (by omega)] at hcol
  rw [Nat.add_comm]
  refine h.push ?_
  rw [leColumn_xor, leColumn_xor, leColumn_subByte_rotl, leColumn_rco, hcol]
  simp [Column.xor, leColumn, BitVec.xor_assoc]

theorem Expanded.fifth (h8 : nk = 8) (h : Expanded nk key (4 + j) fkey) :
    Expanded nk key (5 + j) (Function.update fkey (j + 4)
      (fkey (j + 4 - nk) ^^^ subByte gentables (fkey (j + 3)))) := by
  have hcol := keyColumn_ge key h0 (by omega : nk ≤ j + 4)
  rw [feed_fifth (k := k) h8 (by omega), ← h (j + 4 - nk) (by omega), ← h (j + 4 - 1) (by omega)] at hcol
  have hnext : 5 + j = j + 4 + 1 := by omega
  rw [Nat.add_comm 4 j] at h
  rw [hnext]
  refine h.push ?_
  rw [leColumn_xor, leColumn_subByte, hcol]
  rfl

theorem Expanded.turn {k' N : ℕ} (hk : k = k' + 1) (hN : j < N) (hnk : nk ≤ 6 ∨ nk = 8)
    (h : Expanded nk key j fkey) :
    Expanded nk key (min nk (N - j) + j) (expandBody gentables nk N k' j fkey) := by
  have h1 := h.first hj h0 hge hk
  unfold expandBody
  by_cases h6 : nk ≤ 6
  · simp only [h6, if_true]
    exact h1.chain hj h0 hge _ (by omega) (by omega) (by omega) (by omega)
  · have h8 : nk = 8 := by omega
    have h4 := h1.chain hj h0 hge (min 4 (N - j)) (by omega) (by omega) (by omega) (by omega)
    simp only [h6, if_false]
    by_cases hfifth : j + 4 < N
    · have hmin : min 4 (N - j) = 4 := by omega
      rw [hmin] at h4 ⊢
      simp only [hfifth, if_true]
      exact (h4.fifth hj h0 hge h8).chain hj h0 hge _ (by omega) (by omega) (by omega) (by omega)
    · have hmin : min 4 (N - j) = min nk (N - j) := by omega
      simp only [hfifth, if_false]
      rw [forRange_of_le (by omega : min nk (N - j) ≤ 5), ← hmin]
      exact h4

end Turn

/-- What the outer loop keeps. -/
structure Turns (nk : ℕ) (key : List Byte) (N : ℕ) (e : Expansion) : Prop where
  position : e.j = nk * (e.k + 1)
  started : nk ≤ e.j
  expanded : Expanded nk key (min e.j (max nk N)) e.fkey

theorem Turns.step {N : ℕ} (h0 : 0 < nk) (hnk : nk ≤ 6 ∨ nk = 8) {e : Expansion} (h : Turns nk key N e)
    (hlt : e.j < N) :
    Turns nk key N ⟨e.j + nk, e.k + 1, expandBody gentables nk N e.k e.j e.fkey⟩ := by
  obtain ⟨hj, hge, he⟩ := h
  have hmin : min e.j (max nk N) = e.j := by omega
  rw [hmin] at he
  refine ⟨?_, ?_, ?_⟩
  · change e.j + nk = nk * (e.k + 1 + 1)
    rw [hj, Nat.mul_succ nk (e.k + 1)]
  · exact Nat.le_add_left nk e.j
  · change Expanded nk key (min (e.j + nk) (max nk N)) _
    exact (he.turn hj h0 hge rfl hlt hnk).mono (by omega)

theorem expand_expanded {N : ℕ} (h0 : 0 < nk) (hnk : nk ≤ 6 ∨ nk = 8) {fkey : ℕ → DWord}
    (h : Expanded nk key nk fkey) : Expanded nk key N (expand gentables nk N fkey) := by
  have hstart : Turns nk key N ⟨nk, 0, fkey⟩ :=
    ⟨(Nat.mul_one nk).symm, Nat.le_refl nk, h.mono (Nat.min_le_left nk _)⟩
  have hend := whileFuel_inv (fun e : Expansion => decide (e.j < N)) _ (Turns nk key N)
    (fun e he hc => he.step h0 hnk (of_decide_eq_true hc)) N _ hstart
  have hexit := whileFuel_exit (fun e : Expansion => decide (e.j < N))
    (fun e => ⟨e.j + nk, e.k + 1, expandBody gentables nk N e.k e.j e.fkey⟩) (Turns nk key N)
    (fun e => N - e.j) (fun e he hc => ⟨he.step h0 hnk (of_decide_eq_true hc), by
      have hlt : e.j < N := of_decide_eq_true hc
      change N - (e.j + nk) < N - e.j
      omega⟩) N _ hstart (Nat.sub_le N nk)
  have hdone := of_decide_eq_false hexit
  exact hend.expanded.mono (by omega)

/-- The round keys that `gkey` leaves are the expanded key. -/
theorem gkey_fkey (g : KeyData) (nb : ℕ) (h0 : 0 < nk) (hnk : nk ≤ 6 ∨ nk = 8) {t : ℕ}
    (ht : t < nb * ((gkey gentables g nb nk key).Nr + 1)) :
    leColumn ((gkey gentables g nb nk key).fkey t) = keyColumn nk key t := by
  have hkey : Expanded nk key nk (fill nk (keyWord key) g.fkey) := by
    intro t ht
    rw [fill_apply_of_lt ht]
    unfold keyWord keyColumn
    rw [leColumn_pack, expandedKey_lt ht]
    rfl
  exact expand_expanded h0 hnk hkey t ht

end Expansion

end StarLib.Aes
