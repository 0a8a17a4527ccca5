import StarLib.Idea.Cipher

/-! # What `Decode` makes of what `Encode` made

With every multiplier at most 65536 a block comes back up to the upper halves of its first and its last word: a
product has only the lower half of its factor. For other keys the products are none modulo 65537. Of a buffer only
the first sixteenth of the units is enciphered.
-/

namespace StarLib.Idea
open Foundations
set_option autoImplicit false
set_option maxHeartbeats 250000
set_option maxRecDepth 120000

/-! ## The schedule for the way back -/

/-- The inverses of the four words at `z`, from `p` on. -/
structure Group (Z T : ℕ → DWord) (kept : Prop) (z p : ℕ) : Prop where
  first : inv (Z z) = some (T p)
  kept_middle : kept → T (p + 1) = -Z (z + 1) ∧ T (p + 2) = -Z (z + 2)
  swapped_middle : ¬ kept → T (p + 1) = -Z (z + 2) ∧ T (p + 2) = -Z (z + 1)
  fourth : inv (Z (z + 3)) = some (T (p + 3))

theorem Group.congr {Z T T' : ℕ → DWord} {kept : Prop} {z p : ℕ} (h : Group Z T kept z p) (hT : ∀ q, p ≤ q → T' q = T q) :
    Group Z T' kept z p where
  first := by rw [hT p (Nat.le_refl p), h.first]
  kept_middle := by
    rw [hT (p + 1) (by omega), hT (p + 2) (by omega)]
    exact h.kept_middle
  swapped_middle := by
    rw [hT (p + 1) (by omega), hT (p + 2) (by omega)]
    exact h.swapped_middle
  fourth := by rw [hT (p + 3) (by omega), h.fourth]

/-- Four pushes, the last one lowest. -/
theorem push_four (s : DeKeyRun) (hp : 4 ≤ s.p) (w1 w2 w3 w4 : DWord) :
    let T := ((((s.push w4).push w3).push w2).push w1).T
    T (s.p - 4) = w1 ∧ T (s.p - 4 + 1) = w2 ∧ T (s.p - 4 + 2) = w3 ∧ T (s.p - 4 + 3) = w4 ∧ ∀ q, s.p ≤ q → T q = s.T q := by
  unfold DeKeyRun.push
  simp only [Function.update_apply]
  refine ⟨?_, ?_, ?_, ?_, fun q hq => ?_⟩
  · rw [if_pos (by omega)]
  · rw [if_neg (by omega), if_pos (by omega)]
  · rw [if_neg (by omega), if_neg (by omega), if_pos (by omega)]
  · rw [if_neg (by omega), if_neg (by omega), if_neg (by omega), if_pos (by omega)]
  · rw [if_neg (by omega), if_neg (by omega), if_neg (by omega), if_neg (by omega)]

theorem inverses_group {Z : ℕ → DWord} {s : DeKeyRun} (kept : Bool) (hp : 4 ≤ s.p) {r1 r4 : DWord} (h1 : inv (Z s.z) = some r1)
    (h4 : inv (Z (s.z + 3)) = some r4) :
    ∃ s', s.inverses Z kept = some s' ∧ s'.z = s.z + 4 ∧ s'.p = s.p - 4 ∧ Group Z s'.T (kept = true) s.z (s.p - 4) ∧
      ∀ q, s.p ≤ q → s'.T q = s.T q := by
  unfold DeKeyRun.inverses
  rw [h1, h4]
  cases kept with
  | true =>
    obtain ⟨hw1, hw2, hw3, hw4, hrest⟩ := push_four s hp r1 (-Z (s.z + 1)) (-Z (s.z + 2)) r4
    exact ⟨_, rfl, rfl, rfl, ⟨h1.trans (congrArg some hw1.symm), fun _ => ⟨hw2, hw3⟩, fun h => absurd rfl h,
      h4.trans (congrArg some hw4.symm)⟩, hrest⟩
  | false =>
    obtain ⟨hw1, hw2, hw3, hw4, hrest⟩ := push_four s hp r1 (-Z (s.z + 2)) (-Z (s.z + 1)) r4
    exact ⟨_, rfl, rfl, rfl, ⟨h1.trans (congrArg some hw1.symm), fun h => absurd h Bool.false_ne_true, fun _ => ⟨hw2, hw3⟩,
      h4.trans (congrArg some hw4.symm)⟩, hrest⟩

/-- `de_key_idea` does not divide by zero. -/
def Invertible (Z : ℕ → DWord) : Prop := ∀ q < KEYLEN, q % 3 = 0 → Z q = 0 ∨ ¬ 65537 ∣ (Z q).toNat

/-- The words that `cipher_idea` multiplies the ends of a block with are numbers modulo 65537. -/
def MultipliersFit (Z : ℕ → DWord) : Prop := ∀ q < KEYLEN, q % 3 = 0 → (Z q).toNat ≤ 65536

theorem MultipliersFit.invertible {Z : ℕ → DWord} (h : MultipliersFit Z) : Invertible Z := by
  intro q hq hmod
  obtain ⟨r, hr, _⟩ := inv_inverse (h q hq hmod)
  exact inv_isSome_iff.1 (hr ▸ rfl)

theorem Invertible.inv {Z : ℕ → DWord} (h : Invertible Z) {q : ℕ} (hq : q < KEYLEN) (hmod : q % 3 = 0) : ∃ r, inv (Z q) = some r :=
  Option.isSome_iff_exists.1 (inv_isSome_iff.2 (h q hq hmod))

/-- After `j` turns. -/
structure Reversed (Z : ℕ → DWord) (j : ℕ) (s : DeKeyRun) : Prop where
  z : s.z = 6 * j + 4
  p : s.p = 48 - 6 * j
  groups : ∀ i ≤ j, Group Z s.T (i = 0 ∨ i = ROUNDS) (6 * i) (48 - 6 * i)
  copies : ∀ i < j, s.T (46 - 6 * i) = Z (6 * i + 4) ∧ s.T (47 - 6 * i) = Z (6 * i + 5)

theorem Reversed.next {Z : ℕ → DWord} (hinv : Invertible Z) {j : ℕ} (hj : j < ROUNDS) {s : DeKeyRun} (h : Reversed Z j s)
    {kept : Bool} (hkept : kept = true ↔ j + 1 = ROUNDS) :
    ∃ s', (s.copies Z).inverses Z kept = some s' ∧ Reversed Z (j + 1) s' := by
  have hROUNDS : ROUNDS = 8 := rfl
  have hKEYLEN : KEYLEN = 52 := rfl
  have hz : (s.copies Z).z = 6 * (j + 1) := by
    show s.z + 2 = 6 * (j + 1)
    rw [h.z]
    omega
  have hp : (s.copies Z).p = 52 - 6 * (j + 1) := by
    show s.p - 1 - 1 = 52 - 6 * (j + 1)
    rw [h.p]
    omega
  have hcopies : ∀ q, (s.copies Z).T q = if q = s.p - 1 - 1 then Z s.z else if q = s.p - 1 then Z (s.z + 1) else s.T q := by
    intro q
    show Function.update (Function.update s.T (s.p - 1) (Z (s.z + 1))) (s.p - 1 - 1) (Z s.z) q = _
    rw [Function.update_apply, Function.update_apply]
  obtain ⟨r1, h1⟩ := hinv.inv (q := 6 * (j + 1)) (by omega) (by omega)
  obtain ⟨r4, h4⟩ := hinv.inv (q := 6 * (j + 1) + 3) (by omega) (by omega)
  rw [← hz] at h1 h4
  obtain ⟨s', hs', hz', hp', hgroup, hrest⟩ := inverses_group kept (by omega) h1 h4
  have hsame : ∀ q, s.p ≤ q → s'.T q = s.T q := by
    intro q hq
    have hsp := h.p
    rw [hrest q (by omega), hcopies, if_neg (by omega), if_neg (by omega)]
  refine ⟨s', hs', by omega, by omega, fun i hi => ?_, fun i hi => ?_⟩
  · by_cases hlast : i = j + 1
    · have hplace : (s.copies Z).p - 4 = 48 - 6 * i := by omega
      rw [hz, ← hlast, hplace] at hgroup
      have hiff : kept = true ↔ i = 0 ∨ i = ROUNDS := hkept.trans (by omega)
      exact ⟨hgroup.first, fun h => hgroup.kept_middle (hiff.2 h), fun h => hgroup.swapped_middle fun hk => h (hiff.1 hk), hgroup.fourth⟩
    · have hsp := h.p
      exact (h.groups i (by omega)).congr fun q hq => hsame q (by omega)
  · have hsp := h.p
    have hsz := h.z
    by_cases hlast : i = j
    · rw [hrest _ (by omega), hrest _ (by omega), hcopies, hcopies, if_pos (by omega), if_neg (by omega), if_pos (by omega), hlast, hsz]
      exact ⟨rfl, rfl⟩
    · rw [hsame _ (by omega), hsame _ (by omega)]
      exact h.copies i (by omega)

/-- With multipliers that have inverses there is a schedule for the way back. -/
theorem deKeyIdea_reversed {Z : ℕ → DWord} (hinv : Invertible Z) :
    ∃ DK, deKeyIdea Z = some DK ∧ (∀ i ≤ ROUNDS, Group Z DK (i = 0 ∨ i = ROUNDS) (6 * i) (48 - 6 * i)) ∧
      ∀ i < ROUNDS, DK (46 - 6 * i) = Z (6 * i + 4) ∧ DK (47 - 6 * i) = Z (6 * i + 5) := by
  have hKEYLEN : KEYLEN = 52 := rfl
  obtain ⟨r1, h1⟩ := hinv.inv (q := 0) (by decide) rfl
  obtain ⟨r4, h4⟩ := hinv.inv (q := 0 + 3) (by decide) rfl
  obtain ⟨s, hs, hz, hp, hgroup, _⟩ := inverses_group (s := ⟨0, KEYLEN, fun _ => 0⟩) true (by decide) h1 h4
  have hstart : Reversed Z 0 s := by
    refine ⟨hz, hp, fun i hi => ?_, fun i hi => absurd hi (Nat.not_lt_zero i)⟩
    rw [Nat.le_zero.1 hi]
    exact ⟨hgroup.first, fun _ => hgroup.kept_middle rfl, fun h => absurd (Or.inl rfl) h, hgroup.fourth⟩
  have hloop : ∃ s', forRange 1 ROUNDS (fun _ s => s.bind fun s : DeKeyRun => (s.copies Z).inverses Z false)
      (DeKeyRun.inverses Z true ⟨0, KEYLEN, fun _ => 0⟩) = some s' ∧ Reversed Z (ROUNDS - 1) s' := by
    refine forRange_inv (P := fun j (o : Option DeKeyRun) => ∃ s', o = some s' ∧ Reversed Z (j - 1) s') (by decide) ⟨s, hs, hstart⟩ ?_
    rintro j o hj hj' ⟨s', rfl, hs'⟩
    obtain ⟨j, rfl⟩ := Nat.exists_eq_add_of_le' hj
    rw [Nat.add_sub_cancel] at hs'
    exact hs'.next hinv (by omega) ⟨fun h => absurd h Bool.false_ne_true, fun h => absurd h (by omega)⟩
  obtain ⟨s', hs', hrev⟩ := hloop
  obtain ⟨s'', hs'', hrev'⟩ := hrev.next hinv (by decide) (by decide : true = true ↔ ROUNDS - 1 + 1 = ROUNDS)
  refine ⟨s''.T, ?_, hrev'.groups, hrev'.copies⟩
  unfold deKeyIdea
  simp only
  rw [hs', Option.bind_some, hs'', Option.map_some]

theorem inverses_some {Z : ℕ → DWord} {kept : Bool} {s s' : DeKeyRun} (h : s.inverses Z kept = some s') :
    s'.z = s.z + 4 ∧ (inv (Z s.z)).isSome = true ∧ (inv (Z (s.z + 3))).isSome = true := by
  obtain ⟨r1, h1, h⟩ := Option.bind_eq_some_iff.1 h
  obtain ⟨r4, h4, rfl⟩ := Option.map_eq_some_iff.1 h
  rw [h1, h4]
  exact ⟨rfl, rfl, rfl⟩

/-- The groups up to `s.z` have been inverted. -/
structure Inverted (Z : ℕ → DWord) (j : ℕ) (s : DeKeyRun) : Prop where
  z : s.z = 6 * j + 4
  below : ∀ q < 6 * j + 4, q % 3 = 0 → (inv (Z q)).isSome = true

theorem Inverted.next {Z : ℕ → DWord} {j : ℕ} {s s' : DeKeyRun} (h : Inverted Z j s) {kept : Bool}
    (hs' : (s.copies Z).inverses Z kept = some s') : Inverted Z (j + 1) s' := by
  have hz : (s.copies Z).z = 6 * (j + 1) := by
    show s.z + 2 = 6 * (j + 1)
    rw [h.z]
    omega
  obtain ⟨hz', h1, h4⟩ := inverses_some hs'
  rw [hz] at hz' h1 h4
  refine ⟨hz', fun q hq hmod => ?_⟩
  rcases (by omega : q < 6 * j + 4 ∨ q = 6 * (j + 1) ∨ q = 6 * (j + 1) + 3) with hold | rfl | rfl
  · exact h.below q hold hmod
  · exact h1
  · exact h4

theorem deKeyIdea_isSome_iff {Z : ℕ → DWord} : (deKeyIdea Z).isSome = true ↔ Invertible Z := by
  constructor
  · intro h
    obtain ⟨DK, hDK⟩ := Option.isSome_iff_exists.1 h
    obtain ⟨s'', hs'', _⟩ := Option.map_eq_some_iff.1 hDK
    obtain ⟨s', hs', hlast⟩ := Option.bind_eq_some_iff.1 hs''
    have hloop : ∀ s', forRange 1 ROUNDS (fun _ s => s.bind fun s : DeKeyRun => (s.copies Z).inverses Z false)
        (DeKeyRun.inverses Z true ⟨0, KEYLEN, fun _ => 0⟩) = some s' → Inverted Z (ROUNDS - 1) s' := by
      refine forRange_inv (P := fun j (o : Option DeKeyRun) => ∀ s', o = some s' → Inverted Z (j - 1) s') (by decide) ?_ ?_
      · intro s hs
        obtain ⟨hz, h1, h4⟩ := inverses_some hs
        refine ⟨hz, fun q hq hmod => ?_⟩
        rcases (by omega : q = 0 ∨ q = 3) with rfl | rfl
        · exact h1
        · exact h4
      · intro j o hj _ ho s' hs'
        obtain ⟨s, hs, hnext⟩ := Option.bind_eq_some_iff.1 hs'
        obtain ⟨j, rfl⟩ := Nat.exists_eq_add_of_le' hj
        exact (ho s hs).next hnext
    have hall := (hloop s' hs').next hlast
    exact fun q hq hmod => inv_isSome_iff.1 (hall.below q hq hmod)
  · intro h
    obtain ⟨DK, hDK, _⟩ := deKeyIdea_reversed h
    rw [hDK]
    rfl

theorem deKeyIdea_ends {Z DK : ℕ → DWord} (hDK : deKeyIdea Z = some DK) : inv (Z 0) = some (DK 48) ∧ inv (Z 3) = some (DK 51) := by
  obtain ⟨DK', hDK', hgroups, _⟩ := deKeyIdea_reversed (deKeyIdea_isSome_iff.1 (Option.isSome_iff_exists.2 ⟨DK, hDK⟩))
  obtain rfl : DK = DK' := Option.some.inj (hDK.symm.trans hDK')
  have hgroup := hgroups 0 (Nat.zero_le _)
  exact ⟨hgroup.first, hgroup.fourth⟩

/-! ## Blocks -/

/-- The first half of a turn. -/
def mixed (k1 k2 k3 k4 : DWord) (b : Block) : Block := ⟨MUL b.x1 k1, b.x2 + k2, b.x3 + k3, MUL b.x4 k4⟩

/-- The second half of a turn. -/
def crossed (k5 k6 : DWord) (b : Block) : Block :=
  let t2 := MUL (b.x1 ^^^ b.x3) k5
  let t1 := MUL (t2 + (b.x2 ^^^ b.x4)) k6
  ⟨b.x1 ^^^ t1, (t1 + t2) ^^^ b.x2, b.x3 ^^^ t1, b.x4 ^^^ (t1 + t2)⟩

def swapped (b : Block) : Block := ⟨b.x1, b.x3, b.x2, b.x4⟩

/-- The block without the upper halves of its first and its last word. -/
def lowered (b : Block) : Block := ⟨low16 b.x1, b.x2, b.x3, low16 b.x4⟩

theorem cipherTurn_eq (Z : ℕ → DWord) (z : ℕ) (b : Block) :
    cipherTurn Z z b = swapped (crossed (Z (z + 4)) (Z (z + 5)) (mixed (Z z) (Z (z + 1)) (Z (z + 2)) (Z (z + 3)) b)) := rfl

theorem cipherIdea_eq (Z : ℕ → DWord) (b : Block) :
    cipherIdea Z b = mixed (Z 48) (Z 49) (Z 50) (Z 51) (swapped (forRange 0 ROUNDS (fun r => cipherTurn Z (6 * r)) b)) := rfl

theorem xor_cancel (x t : DWord) : x ^^^ t ^^^ t = x := by rw [BitVec.xor_assoc, BitVec.xor_self, BitVec.xor_zero]

theorem cancel_xor (t x : DWord) : t ^^^ (t ^^^ x) = x := by rw [← BitVec.xor_assoc, BitVec.xor_self, BitVec.zero_xor]

/-- The second half of a turn is undone by itself: what it multiplies is what it leaves. -/
theorem crossed_crossed (k5 k6 : DWord) (b : Block) : crossed k5 k6 (crossed k5 k6 b) = b := by
  have hodd : ∀ t : DWord, b.x1 ^^^ t ^^^ (b.x3 ^^^ t) = b.x1 ^^^ b.x3 := by
    intro t
    rw [BitVec.xor_comm b.x3 t, ← BitVec.xor_assoc, xor_cancel]
  have heven : ∀ t : DWord, t ^^^ b.x2 ^^^ (b.x4 ^^^ t) = b.x2 ^^^ b.x4 := by
    intro t
    rw [BitVec.xor_comm t b.x2, BitVec.xor_comm b.x4 t, ← BitVec.xor_assoc, xor_cancel]
  unfold crossed
  simp only [hodd, heven, xor_cancel, cancel_xor]

theorem mixed_lowered (k1 k2 k3 k4 : DWord) (b : Block) : mixed k1 k2 k3 k4 (lowered b) = mixed k1 k2 k3 k4 b := by
  unfold mixed lowered
  rw [MUL_low16, MUL_low16]

theorem low16_xor (x y : DWord) : low16 (x ^^^ y) = low16 x ^^^ low16 y := by
  unfold low16
  apply BitVec.eq_of_getLsbD_eq
  intro i _
  rw [BitVec.getLsbD_and, BitVec.getLsbD_xor, BitVec.getLsbD_xor, BitVec.getLsbD_and, BitVec.getLsbD_and, Bool.and_xor_distrib_right]

theorem low16_add_congr (t : DWord) {x y : DWord} (h : low16 x = low16 y) : low16 (t + x) = low16 (t + y) := by
  have hmod : x.toNat % 65536 = y.toNat % 65536 := by rw [← low16_toNat, h, low16_toNat]
  apply BitVec.eq_of_toNat_eq
  rw [low16_toNat, low16_toNat, BitVec.toNat_add, BitVec.toNat_add]
  omega

/-- What a product depends on. -/
theorem MUL_congr {x y : DWord} (k : DWord) (h : low16 x = low16 y) : MUL x k = MUL y k := congrArg (mul · k) h

theorem lowered_crossed (k5 k6 : DWord) (b : Block) : lowered (crossed k5 k6 (lowered b)) = lowered (crossed k5 k6 b) := by
  have hodd : MUL (low16 b.x1 ^^^ b.x3) k5 = MUL (b.x1 ^^^ b.x3) k5 := by
    refine MUL_congr k5 ?_
    rw [low16_xor, low16_xor, low16_low16]
  have heven : ∀ t : DWord, MUL (t + (b.x2 ^^^ low16 b.x4)) k6 = MUL (t + (b.x2 ^^^ b.x4)) k6 := by
    intro t
    refine MUL_congr k6 (low16_add_congr t ?_)
    rw [low16_xor, low16_xor, low16_low16]
  unfold lowered crossed
  simp only [hodd, heven, low16_xor, low16_low16]

theorem mixed_back {k1 k2 k3 k4 r1 r4 : DWord} (hk1 : k1.toNat ≤ 65536) (hk4 : k4.toNat ≤ 65536) (h1 : Inverse (residue k1) r1)
    (h4 : Inverse (residue k4) r4) (b : Block) : lowered (mixed r1 (-k2) (-k3) r4 (mixed k1 k2 k3 k4 b)) = lowered b := by
  unfold lowered mixed
  simp only [MUL_back hk1 h1, MUL_back hk4 h4, ← BitVec.sub_eq_add_neg, BitVec.add_sub_cancel]

/-! ## The way back -/

section Back
variable {Z DK : ℕ → DWord} (hfit : MultipliersFit Z)

/-- What `Decode` has before it mixes group `i` of its words, when `Encode` had `b` before it mixed its own. -/
def dressed (Z : ℕ → DWord) (i : ℕ) (b : Block) : Block :=
  if i = ROUNDS then mixed (Z (6 * i)) (Z (6 * i + 1)) (Z (6 * i + 2)) (Z (6 * i + 3)) (swapped b)
  else swapped (mixed (Z (6 * i)) (Z (6 * i + 1)) (Z (6 * i + 2)) (Z (6 * i + 3)) b)

include hfit

theorem group_back {i p : ℕ} (hpos : 0 < i) (hi : i ≤ ROUNDS) (hgroup : Group Z DK (i = 0 ∨ i = ROUNDS) (6 * i) p) (b : Block) :
    lowered (mixed (DK p) (DK (p + 1)) (DK (p + 2)) (DK (p + 3)) (dressed Z i (swapped b))) = lowered b := by
  have hKEYLEN : KEYLEN = 6 * ROUNDS + 4 := rfl
  have hz1 := hfit (6 * i) (by omega) (by omega)
  have hz4 := hfit (6 * i + 3) (by omega) (by omega)
  obtain ⟨r1, h1, hr1⟩ := inv_inverse hz1
  obtain ⟨r4, h4, hr4⟩ := inv_inverse hz4
  have hDK1 : r1 = DK p := Option.some.inj (h1.symm.trans hgroup.first)
  have hDK4 : r4 = DK (p + 3) := Option.some.inj (h4.symm.trans hgroup.fourth)
  rw [← hDK1, ← hDK4]
  unfold dressed
  by_cases hlast : i = ROUNDS
  · obtain ⟨h2, h3⟩ := hgroup.kept_middle (Or.inr hlast)
    rw [if_pos hlast, h2, h3]
    exact mixed_back hz1 hz4 hr1 hr4 b
  · obtain ⟨h2, h3⟩ := hgroup.swapped_middle (by omega)
    rw [if_neg hlast, h2, h3]
    exact mixed_back hz1 hz4 hr1 hr4 b

theorem turn_back {k : ℕ} (hk : k < ROUNDS) (hgroup : Group Z DK (k + 1 = 0 ∨ k + 1 = ROUNDS) (6 * (k + 1)) (42 - 6 * k))
    (hcopies : DK (46 - 6 * k) = Z (6 * k + 4) ∧ DK (47 - 6 * k) = Z (6 * k + 5)) (b : Block) :
    lowered (cipherTurn DK (42 - 6 * k) (dressed Z (k + 1) (cipherTurn Z (6 * k) b))) = lowered (dressed Z k b) := by
  have hROUNDS : ROUNDS = 8 := rfl
  have h4 : 42 - 6 * k + 4 = 46 - 6 * k := by omega
  have h5 : 42 - 6 * k + 5 = 47 - 6 * k := by omega
  have hdressed : dressed Z k b = swapped (mixed (Z (6 * k)) (Z (6 * k + 1)) (Z (6 * k + 2)) (Z (6 * k + 3)) b) := if_neg (Nat.ne_of_lt hk)
  have hlowered : ∀ b, lowered (swapped b) = swapped (lowered b) := fun _ => rfl
  rw [cipherTurn_eq DK, cipherTurn_eq Z, hdressed, hlowered, hlowered, h4, h5, hcopies.1, hcopies.2, ← lowered_crossed,
    group_back hfit (Nat.succ_pos k) hk hgroup, lowered_crossed, crossed_crossed]

/-- A block under a schedule whose multipliers fit, and back. -/
theorem cipher_back (hDK : deKeyIdea Z = some DK) (b : Block) :
    cipherIdea DK (cipherIdea Z b) = ⟨MUL (MUL b.x1 (Z 0)) (DK 48), b.x2, b.x3, MUL (MUL b.x4 (Z 3)) (DK 51)⟩ := by
  have hROUNDS : ROUNDS = 8 := rfl
  obtain ⟨DK', hDK', hgroups, hcopies⟩ := deKeyIdea_reversed hfit.invertible
  obtain rfl : DK = DK' := Option.some.inj (hDK.symm.trans hDK')
  have hback := forRange_back (n := ROUNDS) (f := fun k => cipherTurn Z (6 * k))
    (g := fun k b => lowered (cipherTurn DK (42 - 6 * k) b)) (c := fun k b => lowered (dressed Z k b)) ?_ b
  · -- the loop of `Decode` finds the same blocks up to the upper halves
    have hrun : ∀ d, lowered (forRange 0 ROUNDS (fun r => cipherTurn DK (6 * r)) d) =
        forRange 0 ROUNDS (fun r b => lowered (cipherTurn DK (42 - 6 * (ROUNDS - 1 - r)) b)) (lowered d) := by
      intro d
      refine forRange_rel (fun _ d t => lowered d = t) (Nat.zero_le _) rfl ?_
      rintro r d _ _ hr rfl
      have hplace : 42 - 6 * (ROUNDS - 1 - r) = 6 * r := by omega
      rw [hplace, cipherTurn_eq, cipherTurn_eq, mixed_lowered]
    have hfinal : ∀ d, cipherIdea DK d = mixed (DK 48) (DK 49) (DK 50) (DK 51)
        (swapped (lowered (forRange 0 ROUNDS (fun r => cipherTurn DK (6 * r)) d))) := by
      intro d
      rw [cipherIdea_eq]
      exact (mixed_lowered ..).symm
    have hstart : cipherIdea Z b = dressed Z ROUNDS (forRange 0 ROUNDS (fun r => cipherTurn Z (6 * r)) b) := (if_pos rfl).symm
    have hfirst : dressed Z 0 b = swapped (mixed (Z 0) (Z 1) (Z 2) (Z 3) b) := if_neg (by decide)
    have hswap : ∀ b, swapped (lowered (swapped b)) = lowered b := fun _ => rfl
    obtain ⟨h1, h2⟩ := (hgroups 0 (Nat.zero_le _)).kept_middle (Or.inl rfl)
    have h1' : DK 49 = -Z 1 := h1
    have h2' : DK 50 = -Z 2 := h2
    rw [hfinal, hrun, hstart, hback, hfirst, hswap, mixed_lowered, h1', h2']
    unfold mixed
    simp only [← BitVec.sub_eq_add_neg, BitVec.add_sub_cancel]
  · intro k hk b
    have hplace : 48 - 6 * (k + 1) = 42 - 6 * k := by omega
    have hgroup := hgroups (k + 1) hk
    rw [hplace] at hgroup
    have hturn := turn_back hfit hk hgroup (hcopies k hk) b
    rw [← hturn, cipherTurn_eq DK, cipherTurn_eq DK, mixed_lowered]

end Back

end StarLib.Idea
