import StarLib.Rijndael.MakeKey

/-! # `MakeKey` computes the expanded key

`tk` holds one phase of `KC` columns; `phi` replaces it by the next one, word by word. `Rolled` is the
state of `tk` in between: the first `i` words belong to the next phase already. Every word goes to its
cell of `Ke` and to the mirrored cell of `Kd`, which after `unmixKeys` holds the decryption keys.
-/

namespace StarLib.Rijndael
open Foundations
set_option autoImplicit false
set_option maxHeartbeats 250000
set_option maxRecDepth 120000

/-- The first `i` words of `tk` are of phase `k + 1`, the others of phase `k`. -/
def Rolled (KC : ℕ) (key : List Byte) (k i : ℕ) (tk : ℕ → DWord) : Prop :=
  ∀ j < KC, beColumn (tk j) = keyColumn KC key (if j < i then KC * (k + 1) + j else KC * k + j)

section Phase
variable {KC k : ℕ} {key : List Byte} {tk : ℕ → DWord}

theorem Rolled.push {i : ℕ} (h : Rolled KC key k i tk) {v : DWord}
    (hv : beColumn v = keyColumn KC key (KC * (k + 1) + i)) :
    Rolled KC key k (i + 1) (Function.update tk i v) := by
  intro j hj
  by_cases hji : j = i
  · subst hji
    rw [Function.update_self, if_pos (Nat.lt_succ_self j), hv]
  · have hiff : j < i + 1 ↔ j < i := by omega
    rw [Function.update_of_ne hji, h j hj]
    simp only [hiff]

theorem Rolled.next (h : Rolled KC key k KC tk) : Rolled KC key (k + 1) 0 tk := by
  intro j hj
  rw [h j hj, if_pos hj, if_neg (Nat.not_lt_zero j)]

theorem Rolled.old {i j : ℕ} (h : Rolled KC key k i tk) (hij : i ≤ j) (hj : j < KC) :
    beColumn (tk j) = keyColumn KC key (KC * k + j) := by
  rw [h j hj, if_neg (by omega)]

theorem Rolled.previous {i j : ℕ} (h : Rolled KC key k i tk) (hj : j < KC)
    (hprev : i = j + 1 ∨ i = 0 ∧ KC = j + 1) :
    beColumn (tk j) = keyColumn KC key (KC * (k + 1) + i - 1) := by
  have hmul : KC * (k + 1) = KC * k + KC := Nat.mul_succ KC k
  rw [h j hj]
  rcases hprev with rfl | ⟨rfl, hKC⟩
  · rw [if_pos (Nat.lt_succ_self j)]
    rfl
  · rw [if_neg (Nat.not_lt_zero j)]
    congr 1
    omega

theorem keyColumn_next {i : ℕ} (h0 : 0 < KC) : keyColumn KC key (KC * (k + 1) + i) =
    (keyColumn KC key (KC * k + i)).xor
      (feed sBox roundConstant KC (KC * (k + 1) + i) (keyColumn KC key (KC * (k + 1) + i - 1))) := by
  have hmul : KC * (k + 1) = KC * k + KC := Nat.mul_succ KC k
  have hback : KC * (k + 1) + i - KC = KC * k + i := by omega
  rw [keyColumn_ge key h0 (by omega), hback]

theorem Rolled.chain {lo : ℕ} (hi : ℕ) (h : Rolled KC key k lo tk) (hlo : 0 < lo) (hle : lo ≤ hi) (hhi : hi ≤ KC)
    (h4 : KC = 8 → ∀ i, lo ≤ i → i < hi → i ≠ 4) : Rolled KC key k hi (chainKeys lo hi tk) := by
  refine forRange_inv (P := fun i tk => Rolled KC key k i tk) hle h ?_
  intro i tk h1 h2 ih
  refine ih.push ?_
  rw [keyColumn_next (by omega), feed_inner (k := k + 1) rfl (by omega) (by omega) fun h8 => h4 h8 i h1 h2,
    beColumn_xor, ih.old (Nat.le_refl i) (by omega), ih.previous (j := i - 1) (by omega) (by omega)]

theorem Rolled.first (h : Rolled KC key k 0 tk) (h0 : 0 < KC) :
    Rolled KC key k 1 (Function.update tk 0 (tk 0 ^^^
      ((entry smS (byteIndex (tk (KC - 1)) 16)).setWidth 32 <<< 24 ^^^
        (entry smS (byteIndex (tk (KC - 1)) 8)).setWidth 32 <<< 16 ^^^
        (entry smS (byteIndex (tk (KC - 1)) 0)).setWidth 32 <<< 8 ^^^
        (entry smS (byteIndex (tk (KC - 1)) 24)).setWidth 32 ^^^
        (smRcon.getD k 0).setWidth 32 <<< 24))) := by
  refine h.push ?_
  rw [keyColumn_next h0, feed_first (t := KC * (k + 1) + 0) (k := k) rfl h0, ← h.previous (j := KC - 1) (by omega) (by omega),
    ← h.old (Nat.le_refl 0) h0, beColumn_xor, byteIndex_zero, byteIndex_one, byteIndex_two,
    byteIndex_three, setWidth_shiftLeft_three, setWidth_shiftLeft_two, setWidth_shiftLeft_one,
    setWidth_shiftLeft_zero, setWidth_shiftLeft_three, ofBytes_xor, ofBytes_xor, ofBytes_xor, ofBytes_xor]
  simp [beColumn, sBox, roundConstant]

theorem Rolled.fifth (h8 : KC = 8) (h : Rolled KC key k 4 tk) :
    Rolled KC key k 5 (Function.update tk 4 (tk 4 ^^^
      ((entry smS (byteIndex (tk 3) 0)).setWidth 32 ^^^ (entry smS (byteIndex (tk 3) 8)).setWidth 32 <<< 8 ^^^
        (entry smS (byteIndex (tk 3) 16)).setWidth 32 <<< 16 ^^^
        (entry smS (byteIndex (tk 3) 24)).setWidth 32 <<< 24))) := by
  refine h.push ?_
  rw [keyColumn_next (by omega), feed_fifth (k := k + 1) h8 rfl, ← h.previous (j := 3) (by omega) (by omega),
    ← h.old (Nat.le_refl 4) (by omega), beColumn_xor, byteIndex_zero, byteIndex_one, byteIndex_two,
    byteIndex_three, setWidth_shiftLeft_three, setWidth_shiftLeft_two, setWidth_shiftLeft_one,
    setWidth_shiftLeft_zero, ofBytes_xor, ofBytes_xor, ofBytes_xor]
  simp [beColumn, sBox]

theorem Rolled.phi (h : Rolled KC key k 0 tk) (hKC : KC = 4 ∨ KC = 6 ∨ KC = 8) :
    Rolled KC key (k + 1) 0 (phi KC k tk) := by
  have h1 := h.first (by omega)
  refine Rolled.next ?_
  unfold StarLib.Rijndael.phi
  by_cases h8 : KC = 8
  · have h4 := h1.chain 4 (by omega) (by omega) (by omega) (by omega)
    simp only [h8, ne_eq, not_true_eq_false, if_false]
    simp only [h8] at h4 ⊢
    exact (h4.fifth rfl).chain 8 (by omega) (by omega) (by omega) (by omega)
  · simp only [ne_eq, h8, not_false_eq_true, if_true]
    exact h1.chain KC (by omega) (by omega) (Nat.le_refl KC) (by omega)

end Phase

/-! ## The round key arrays -/

/-- The words copied so far are in their cells of both arrays. -/
def Copied (BC KC rounds : ℕ) (key : List Byte) (e : Expansion) : Prop :=
  ∀ t < e.t, beColumn (e.Ke (t / BC) (t % BC)) = keyColumn KC key t ∧
    e.Kd (rounds - t / BC) (t % BC) = e.Ke (t / BC) (t % BC)

section Arrays
variable {BC KC rounds count : ℕ} {key : List Byte} {e : Expansion}

theorem Copied.push (hBC : 0 < BC) (h : Copied BC KC rounds key e) (ht : e.t < (rounds + 1) * BC) {v : DWord}
    (hv : beColumn v = keyColumn KC key e.t) :
    Copied BC KC rounds key
      { e with Ke := setCell e.Ke (e.t / BC) (e.t % BC) v,
               Kd := setCell e.Kd (rounds - e.t / BC) (e.t % BC) v, t := e.t + 1 } := by
  intro t htt
  have hround : e.t / BC < rounds + 1 := (Nat.div_lt_iff_lt_mul hBC).mpr ht
  have hcell := Nat.div_add_mod t BC
  have hcell' := Nat.div_add_mod e.t BC
  simp only [setCell_apply]
  by_cases hte : t = e.t
  · subst hte
    simp [hv]
  · have htt' : t < e.t := by
      change t < e.t + 1 at htt
      omega
    obtain ⟨h1, h2⟩ := h t htt'
    have hle : t / BC ≤ e.t / BC := Nat.div_le_div_right (Nat.le_of_lt htt')
    have hne : ¬ (t / BC = e.t / BC ∧ t % BC = e.t % BC) := by
      rintro ⟨hq, hr⟩
      rw [hq, hr] at hcell
      omega
    have hne' : ¬ (rounds - t / BC = rounds - e.t / BC ∧ t % BC = e.t % BC) := by
      rintro ⟨hq, hr⟩
      exact hne ⟨by omega, hr⟩
    rw [if_neg hne, if_neg hne']
    exact ⟨h1, h2⟩

theorem Copied.copyKeys (hBC : 0 < BC) (hcount : count = (rounds + 1) * BC) (h : Copied BC KC rounds key e)
    (htk : ∀ j < min KC (count - e.t), beColumn (e.tk j) = keyColumn KC key (e.t + j)) :
    let e' := copyKeys BC KC rounds count e
    e'.t = e.t + min KC (count - e.t) ∧ e'.tk = e.tk ∧ e'.rconpointer = e.rconpointer ∧
      Copied BC KC rounds key e' := by
  refine forRange_inv (P := fun j (e' : Expansion) => e'.t = e.t + j ∧ e'.tk = e.tk ∧
    e'.rconpointer = e.rconpointer ∧ Copied BC KC rounds key e') (Nat.zero_le _) ⟨rfl, rfl, rfl, h⟩ ?_
  rintro j e' _ hj ⟨ht, htk', hrcon, ih⟩
  refine ⟨?_, htk', hrcon, ?_⟩
  · change e'.t + 1 = e.t + (j + 1)
    omega
  · refine ih.push hBC (by omega) ?_
    rw [htk', htk j hj, ht]

/-- What the expansion loop keeps. -/
structure Phases (BC KC rounds count : ℕ) (key : List Byte) (e : Expansion) : Prop where
  position : e.t = min (KC * (e.rconpointer + 1)) count
  rolled : Rolled KC key e.rconpointer 0 e.tk
  copied : Copied BC KC rounds key e

variable (hBC : 0 < BC) (hKC : KC = 4 ∨ KC = 6 ∨ KC = 8) (hcount : count = (rounds + 1) * BC)
include hBC hKC hcount

theorem Phases.step (h : Phases BC KC rounds count key e) (hlt : e.t < count) :
    let e' := copyKeys BC KC rounds count
      { e with tk := phi KC e.rconpointer e.tk, rconpointer := e.rconpointer + 1 }
    Phases BC KC rounds count key e' ∧ e.t < e'.t := by
  obtain ⟨hpos, hroll, hcopy⟩ := h
  have hmul : KC * (e.rconpointer + 1 + 1) = KC * (e.rconpointer + 1) + KC := Nat.mul_succ ..
  have hnext := hroll.phi hKC
  have hcopy' : Copied BC KC rounds key
      { e with tk := phi KC e.rconpointer e.tk, rconpointer := e.rconpointer + 1 } := hcopy
  obtain ⟨h1, h2, h3, h4⟩ := hcopy'.copyKeys hBC hcount (by
    intro j hj
    have hphase : e.t = KC * (e.rconpointer + 1) := by omega
    have hcol := hnext.old (Nat.zero_le j) (by omega)
    rw [← hphase] at hcol
    exact hcol)
  refine ⟨⟨?_, ?_, h4⟩, ?_⟩
  · rw [h1, h3]
    change e.t + min KC (count - e.t) = min (KC * (e.rconpointer + 1 + 1)) count
    omega
  · rw [h2, h3]
    exact hnext
  · rw [h1]
    change e.t < e.t + min KC (count - e.t)
    omega

omit hKC in
theorem start_phases (o : CRijndael) : Phases BC KC rounds count key
    (copyKeys BC KC rounds count (startExpansion BC KC rounds key o)) := by
  have hfirst : ∀ j < KC, beColumn ((startExpansion BC KC rounds key o).tk j) = keyColumn KC key j := by
    intro j hj
    change beColumn (fill KC (loadWord key) (fun _ => 0) j) = _
    rw [fill_apply_of_lt hj, loadWord_eq]
    exact (expandedKey_lt hj).symm
  have hempty : Copied BC KC rounds key (startExpansion BC KC rounds key o) :=
    fun t ht => absurd ht (Nat.not_lt_zero t)
  obtain ⟨h1, h2, h3, h4⟩ := hempty.copyKeys hBC hcount fun j hj => by
    have hzero : (startExpansion BC KC rounds key o).t + j = j := Nat.zero_add j
    rw [hzero]
    exact hfirst j (by omega)
  refine ⟨?_, ?_, h4⟩
  · rw [h1, h3]
    change 0 + min KC (count - 0) = min (KC * (0 + 1)) count
    omega
  · intro j hj
    rw [h2, h3, if_neg (Nat.not_lt_zero j)]
    change _ = keyColumn KC key (KC * 0 + j)
    rw [Nat.mul_zero, Nat.zero_add]
    exact hfirst j hj

theorem expand_copied (h : Phases BC KC rounds count key e) :
    (expand BC KC rounds count e).t = count ∧ Copied BC KC rounds key (expand BC KC rounds count e) := by
  have hend := whileFuel_inv (fun e : Expansion => decide (e.t < count)) _
    (Phases BC KC rounds count key) (fun e he hc => (he.step hBC hKC hcount (of_decide_eq_true hc)).1) count e h
  have hexit := whileFuel_exit (fun e : Expansion => decide (e.t < count))
    (fun e => copyKeys BC KC rounds count
      { e with tk := phi KC e.rconpointer e.tk, rconpointer := e.rconpointer + 1 })
    (Phases BC KC rounds count key) (fun e => count - e.t) (fun e he hc => by
      have hlt : e.t < count := of_decide_eq_true hc
      obtain ⟨hnext, hmore⟩ := he.step hBC hKC hcount hlt
      exact ⟨hnext, Nat.sub_lt_sub_left hlt hmore⟩) count e h (Nat.sub_le count e.t)
  have hdone := of_decide_eq_false hexit
  refine ⟨?_, hend.copied⟩
  have hpos := hend.position
  change (expand BC KC rounds count e).t = _ at hpos
  change ¬ (expand BC KC rounds count e).t < count at hdone
  omega

end Arrays

/-! ## The decryption keys -/

def roundKey (n : ℕ) (m : ℕ → ℕ → DWord) (r : ℕ) : State n := fun i => beColumn (m r i)

theorem unmixRow_apply (r n : ℕ) (Kd : ℕ → ℕ → DWord) (p q : ℕ) :
    forRange 0 n (fun j Kd => setCell Kd r j (unmixWord (Kd r j))) Kd p q =
      if p = r ∧ q < n then unmixWord (Kd p q) else Kd p q := by
  refine forRange_inv (P := fun n (m : ℕ → ℕ → DWord) => ∀ p q,
    m p q = if p = r ∧ q < n then unmixWord (Kd p q) else Kd p q) (Nat.zero_le n) (by simp) ?_ p q
  intro j m _ _ ih p q
  rw [setCell_apply, ih, ih]
  by_cases hcell : p = r ∧ q = j
  · obtain ⟨rfl, rfl⟩ := hcell
    simp
  · have hiff : (p = r ∧ q < j + 1) ↔ (p = r ∧ q < j) := by omega
    simp only [hcell, if_false, hiff]

theorem unmixKeys_apply (BC rounds : ℕ) (Kd : ℕ → ℕ → DWord) (h : 1 ≤ rounds) (p q : ℕ) :
    unmixKeys BC rounds Kd p q =
      if 1 ≤ p ∧ p < rounds ∧ q < BC then unmixWord (Kd p q) else Kd p q := by
  refine forRange_inv (P := fun n (m : ℕ → ℕ → DWord) => ∀ p q,
    m p q = if 1 ≤ p ∧ p < n ∧ q < BC then unmixWord (Kd p q) else Kd p q) h ?_ ?_ p q
  · intro p q
    rw [if_neg (by omega)]
  · intro r m h1 _ ih p q
    rw [unmixRow_apply, ih]
    by_cases hrow : p = r ∧ q < BC
    · obtain ⟨rfl, hq⟩ := hrow
      have hin : 1 ≤ p ∧ p < p + 1 ∧ q < BC := by omega
      rw [if_pos ⟨rfl, hq⟩, if_pos hin, if_neg (by omega)]
    · have hiff : (1 ≤ p ∧ p < r + 1 ∧ q < BC) ↔ (1 ≤ p ∧ p < r ∧ q < BC) := by omega
      rw [if_neg hrow]
      simp only [hiff]

theorem roundCount_pos (keylength blockSize : ℕ) : 1 ≤ roundCount keylength blockSize := by
  unfold roundCount
  split
  · split <;> (try split) <;> omega
  · split <;> omega
  · omega

theorem Copied.cell {BC KC rounds r c : ℕ} {key : List Byte} {e : Expansion}
    (h : Copied BC KC rounds key e) (ht : e.t = (rounds + 1) * BC) (hr : r ≤ rounds) (hc : c < BC) :
    beColumn (e.Ke r c) = keyColumn KC key (r * BC + c) ∧ e.Kd (rounds - r) c = e.Ke r c := by
  have hlt : r * BC + c < e.t := by
    have hmul : r * BC ≤ rounds * BC := Nat.mul_le_mul_right BC hr
    rw [ht, Nat.succ_mul]
    omega
  have hdiv : (r * BC + c) / BC = r := by
    rw [Nat.mul_comm, Nat.mul_add_div (by omega), Nat.div_eq_of_lt hc, Nat.add_zero]
  have hmod : (r * BC + c) % BC = c := by
    rw [Nat.mul_comm, Nat.mul_add_mod, Nat.mod_eq_of_lt hc]
  have hcell := h _ hlt
  rwa [hdiv, hmod] at hcell

theorem Copied.roundKeys {BC KC rounds r : ℕ} {key : List Byte} {e : Expansion}
    (h : Copied BC KC rounds key e) (ht : e.t = (rounds + 1) * BC) (hrounds : 1 ≤ rounds)
    (hr : r ≤ rounds) :
    roundKey BC e.Ke r = (fun i : Fin BC => keyColumn KC key (r * BC + i)) ∧
      roundKey BC (unmixKeys BC rounds e.Kd) r = invKeys (roundKey BC e.Ke) rounds r := by
  refine ⟨?_, ?_⟩
  · funext i
    exact (h.cell ht hr i.isLt).1
  · funext i
    have hback : rounds - (rounds - r) = r := by omega
    have hcell := (h.cell ht (by omega : rounds - r ≤ rounds) i.isLt).2
    rw [hback] at hcell
    unfold invKeys
    by_cases hends : r = 0 ∨ r = rounds
    · have hno : ¬ (1 ≤ r ∧ r < rounds ∧ (i : ℕ) < BC) := by omega
      rw [if_pos hends]
      unfold roundKey
      rw [unmixKeys_apply BC rounds e.Kd hrounds, if_neg hno, hcell]
    · have hin : 1 ≤ r ∧ r < rounds ∧ (i : ℕ) < BC := by
        have hi := i.isLt
        omega
      rw [if_neg hends]
      unfold roundKey invMixState
      rw [unmixKeys_apply BC rounds e.Kd hrounds, if_pos hin, beColumn_unmixWord, hcell]

/-- What a successful `makeKey` leaves behind, for `nk` columns of key and `nb` columns of block. -/
structure Keyed (key : List Byte) (nk nb : ℕ) (o : CRijndael) : Prop where
  init : o.bKeyInit = true
  size : o.blockSize = 4 * nb
  rounds : o.iROUNDS = roundCount (4 * nk) (4 * nb)
  encryption : ∀ r ≤ o.iROUNDS, roundKey nb o.Ke r = fun i : Fin nb => keyColumn nk key (r * nb + i)
  decryption : ∀ r ≤ o.iROUNDS, roundKey nb o.Kd r = invKeys (roundKey nb o.Ke) o.iROUNDS r

/-- `makeKey` succeeds on the accepted lengths and leaves the expanded key in both arrays. -/
theorem makeKey_keyed (key chain : List Byte) {nk nb : ℕ} (hnk : nk = 4 ∨ nk = 6 ∨ nk = 8)
    (hnb : nb = 4 ∨ nb = 6 ∨ nb = 8) (o : CRijndael) :
    ∃ o', makeKey (some key) chain (4 * nk) (4 * nb) o = .ok o' ∧ Keyed key nk nb o' ∧
      o'.chain = chain.take (4 * nb) := by
  have hBC : 0 < nb := by omega
  have hrounds := roundCount_pos (4 * nk) (4 * nb)
  have hkey : 4 * nk = 16 ∨ 4 * nk = 24 ∨ 4 * nk = 32 := by omega
  have hblock : 4 * nb = 16 ∨ 4 * nb = 24 ∨ 4 * nb = 32 := by omega
  have hquarter : ∀ n, 4 * n / 4 = n := fun n => by omega
  simp only [makeKey, hkey, hblock, not_true_eq_false, if_false, hquarter]
  refine ⟨_, rfl, ?_⟩
  obtain ⟨hfull, hcopied⟩ := expand_copied hBC hnk rfl (start_phases hBC rfl o)
  exact ⟨⟨rfl, rfl, rfl, fun r hr => (hcopied.roundKeys hfull hrounds hr).1,
    fun r hr => (hcopied.roundKeys hfull hrounds hr).2⟩, rfl⟩

end StarLib.Rijndael
