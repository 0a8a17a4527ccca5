import StarLib.Idea.Restore

/-! # Which buffers come back

Plaintexts of `n` units, through `Encode` into a second buffer and through `Decode` into a third one.
-/

namespace StarLib.Idea
open Foundations
set_option autoImplicit false
set_option maxHeartbeats 250000
set_option maxRecDepth 120000

/-- The units that the two loops come to. -/
def reached (n : ℕ) : ℕ := (n + 15) / 16

theorem cipherBuffer_eq (Z : ℕ → DWord) (pIn pOut n : ℕ) (mem : Ram) :
    cipherBuffer Z pIn pOut (16 * n) mem = block.mapBlocks (cipherIdea Z) pOut pIn (reached n) mem := by
  unfold cipherBuffer
  rw [Nat.mul_div_cancel_left n (by decide)]
  rfl

/-- `Decode` takes what `Encode` wrote back to the plaintext, whatever else the memory holds. -/
def Restores (key : ℕ → DWord) (pIn pMid pOut nSize : ℕ) (plain : ℕ → Byte) : Prop :=
  ∀ mem mem' : Ram, (∀ p < nSize, mem (pIn + p) = plain p) →
    (∀ p < nSize, mem' (pMid + p) = encode pIn pMid nSize key mem (pMid + p)) →
    ∃ result, decode pMid pOut nSize key mem' = some result ∧ ∀ p < nSize, result (pOut + p) = plain p

/-- The unit `u` of a buffer. -/
def unitOf (plain : ℕ → Byte) (u : ℕ) : Block := block.load plain (16 * u)

/-- A word that a factor and its inverse give back, its upper half too. -/
def Kept (k w : DWord) : Prop := ∃ r, inv k = some r ∧ MUL (MUL w k) r = w

section Runs
variable {pIn pMid pOut n : ℕ} (h : Layout.SameOrApart pMid pIn (16 * n)) (h' : Layout.SameOrApart pOut pMid (16 * n))
  {plain : ℕ → Byte} {mem mem' : Ram} (hplain : ∀ p < 16 * n, mem (pIn + p) = plain p)
  {Z DK : ℕ → DWord} (hcopy : ∀ p < 16 * n, mem' (pMid + p) = cipherBuffer Z pIn pMid (16 * n) mem (pMid + p))

include h h' hplain hcopy in
theorem unit_back {u : ℕ} (hu : u < reached n) :
    block.load (cipherBuffer DK pMid pOut (16 * n) mem') (pOut + 16 * u) = cipherIdea DK (cipherIdea Z (unitOf plain u)) := by
  have hsize : block.size = 16 := rfl
  have hreached : 16 * reached n ≤ 16 * n := by
    unfold reached at hu ⊢
    omega
  have hmid : block.load mem' (pMid + 16 * u) = block.load (cipherBuffer Z pIn pMid (16 * n) mem) (pMid + 16 * u) := by
    refine block.load_congr fun i hi => ?_
    rw [Nat.add_assoc]
    exact hcopy (16 * u + i) (by omega)
  have hload : block.load mem (pIn + 16 * u) = unitOf plain u := by
    refine block.load_eq_iff.2 fun i hi => ?_
    rw [Nat.add_assoc]
    exact hplain (16 * u + i) (by omega)
  rw [cipherBuffer_eq] at hmid ⊢
  rw [← hload]
  refine (block.mapBlocks_load (cipherIdea DK) (h'.mono hreached) mem' hu).trans (congrArg (cipherIdea DK) ?_)
  exact hmid.trans (block.mapBlocks_load (cipherIdea Z) (h.mono hreached) mem hu)

theorem cipherBuffer_rest (Z : ℕ → DWord) (pIn pOut : ℕ) (mem : Ram) {p : ℕ} (hp : 16 * reached n ≤ p) :
    cipherBuffer Z pIn pOut (16 * n) mem (pOut + p) = mem (pOut + p) := by
  rw [cipherBuffer_eq]
  exact block.mapBlocks_apart _ _ _ _ _ (Or.inr (Nat.add_le_add_left hp pOut))

end Runs

/-! ## Upper halves -/

/-- The upper half of a product is all zeros or all ones, but for a factor of zero. -/
theorem MUL_upper (x k : DWord) : (MUL x k).toNat < 65536 ∨ 2 ^ 32 - 65536 ≤ (MUL x k).toNat ∨ MUL x k = 1 - k := by
  have hx := low16_lt x
  unfold MUL
  by_cases ha : low16 x = 0
  · exact Or.inr (Or.inr (if_neg (not_not.2 ha)))
  · by_cases hk : k = 0
    · have hmul : mul (low16 x) k = 1 - low16 x := by
        unfold mul
        rw [if_pos ha, if_neg (not_not.2 hk)]
      have hsub : (1 - low16 x).toNat = (2 ^ 32 - (low16 x).toNat + 1) % 2 ^ 32 := BitVec.toNat_sub 1 (low16 x)
      rw [hmul]
      omega
    · have hlo := low16_lt (low16 x * k)
      have hhi := high_lt (low16 x * k)
      rw [mul_of_ne_zero ha hk, difference_toNat]
      split <;> omega

/-! ## Whole buffers -/

/-- A plaintext with `w` as its first word. -/
def startingWith (w : DWord) : ℕ → Byte := fun p => if p < 4 then byteAt w p else 0

theorem startingWith_word (w : DWord) : (unitOf (startingWith w) 0).x1 = w := by
  refine Layout.word.ext fun i hi => ?_
  have hbyte := Layout.word.byte_ofBytes (fun i => startingWith w (0 + i)) i hi
  refine Eq.trans hbyte ?_
  rw [Nat.zero_add]
  exact if_pos hi

/-- The plaintext at an address, and zeros below it. -/
def loadedAt (a : ℕ) (plain : ℕ → Byte) : Ram := fun q => plain (q - a)

theorem loadedAt_byte (a : ℕ) (plain : ℕ → Byte) (p : ℕ) : loadedAt a plain (a + p) = plain p :=
  congrArg plain (Nat.add_sub_cancel_left a p)

section Restores
variable {key : ℕ → DWord} {pIn pMid pOut n : ℕ} (h : Layout.SameOrApart pMid pIn (16 * n))
  (h' : Layout.SameOrApart pOut pMid (16 * n)) {plain : ℕ → Byte}

include h h' in
/-- In a plaintext that is restored every unit the loops come to is taken back. -/
theorem Restores.unit (hres : Restores key pIn pMid pOut (16 * n) plain) {u : ℕ} (hu : u < reached n) :
    ∃ DK, deKeyIdea (enKeyIdea key) = some DK ∧ cipherIdea DK (cipherIdea (enKeyIdea key) (unitOf plain u)) = unitOf plain u := by
  have hsize : block.size = 16 := rfl
  obtain ⟨result, hdecode, hplain⟩ := hres (loadedAt pIn plain) _ (fun p _ => loadedAt_byte pIn plain p) fun _ _ => rfl
  obtain ⟨DK, hDK, rfl⟩ := Option.map_eq_some_iff.1 hdecode
  refine ⟨DK, hDK, ?_⟩
  rw [← unit_back h h' (fun p _ => loadedAt_byte pIn plain p) (fun _ _ => rfl) hu]
  refine block.load_eq_iff.2 fun i hi => ?_
  unfold reached at hu
  rw [Nat.add_assoc]
  exact hplain (16 * u + i) (by omega)

theorem upper_word {x k w : DWord} (hlow : 65536 ≤ w.toNat) (hhigh : w.toNat < 2 ^ 32 - 65536) (h : MUL x k = w) : w = 1 - k := by
  have hupper := MUL_upper x k
  rw [h] at hupper
  rcases hupper with hless | hmore | heq
  · exact absurd hless (Nat.not_lt.2 hlow)
  · exact absurd hmore (Nat.not_le.2 hhigh)
  · exact heq

include h h' in
/-- Of the first words `0x10000` and `0x20000` one is no product with the last factor of `Decode`. -/
theorem restores_all_empty (hall : ∀ plain, Restores key pIn pMid pOut (16 * n) plain) : n = 0 := by
  by_contra hn
  have hfirst : 0 < reached n := by
    unfold reached
    omega
  have hword : ∀ w : DWord, ∃ x DK, deKeyIdea (enKeyIdea key) = some DK ∧ MUL x (DK (6 * ROUNDS)) = w := by
    intro w
    obtain ⟨DK, hDK, hback⟩ := (hall (startingWith w)).unit h h' hfirst
    exact ⟨_, DK, hDK, (congrArg Block.x1 hback).trans (startingWith_word w)⟩
  obtain ⟨x, DK, hDK, hx⟩ := hword 0x10000
  obtain ⟨y, DK', hDK', hy⟩ := hword 0x20000
  obtain rfl : DK = DK' := Option.some.inj (hDK.symm.trans hDK')
  have hx' : (0x10000 : DWord) = 1 - DK (6 * ROUNDS) := upper_word (by decide) (by decide) hx
  have hy' : (0x20000 : DWord) = 1 - DK (6 * ROUNDS) := upper_word (by decide) (by decide) hy
  exact absurd (hx'.trans hy'.symm) (by decide)

include h h' in
/-- No key gives back all the buffers of a size other than zero. -/
theorem restores_all_iff : (∀ plain, Restores key pIn pMid pOut (16 * n) plain) ↔ n = 0 ∧ Invertible (enKeyIdea key) := by
  rw [← deKeyIdea_isSome_iff]
  constructor
  · intro hall
    refine ⟨?_, ?_⟩
    · exact restores_all_empty h h' hall
    · obtain ⟨result, hdecode, _⟩ := hall (fun _ => 0) (fun _ => 0) _ (fun _ _ => rfl) fun _ _ => rfl
      obtain ⟨DK, hDK, _⟩ := Option.map_eq_some_iff.1 hdecode
      rw [hDK]
      rfl
  · rintro ⟨rfl, hsome⟩ plain mem mem' _ _
    obtain ⟨DK, hDK⟩ := Option.isSome_iff_exists.1 hsome
    refine ⟨_, congrArg (Option.map _) hDK, fun p hp => absurd hp (Nat.not_lt_zero p)⟩

/-! ## Single buffers -/

/-- Of two units or more the last one is not reached. -/
theorem reached_lt (hn : 2 ≤ n) : reached n < n := by
  unfold reached
  omega

theorem add_one_ne (b : Byte) : b + 1 ≠ b := by
  intro h
  have htoNat : (b + 1).toNat = b.toNat := congrArg BitVec.toNat h
  rw [BitVec.toNat_add, show (1 : Byte).toNat = 1 from rfl] at htoNat
  omega

/-- A unit that is not reached shows what was in a buffer before, when not all of the work is in one place. -/
theorem Restores.in_place (h : Layout.SameOrApart pMid pIn (16 * n)) (h' : Layout.SameOrApart pOut pMid (16 * n)) (hn : 2 ≤ n)
    (hres : Restores key pIn pMid pOut (16 * n) plain) : pMid = pIn ∧ pOut = pMid := by
  have hlast := reached_lt hn
  -- a byte behind the units that are reached, and another value for it
  have hrest : 16 * reached n ≤ 16 * (n - 1) := by omega
  have hbyte : 16 * (n - 1) < 16 * n := by omega
  have hout : pOut = pMid := by
    by_contra hne
    unfold Layout.SameOrApart at h'
    obtain ⟨result, hdecode, hplain⟩ := hres (loadedAt pIn plain)
      (Function.update (encode pIn pMid (16 * n) key (loadedAt pIn plain)) (pOut + 16 * (n - 1)) (plain (16 * (n - 1)) + 1))
      (fun p _ => loadedAt_byte pIn plain p) fun p hp => Function.update_of_ne (by omega) ..
    obtain ⟨DK, _, rfl⟩ := Option.map_eq_some_iff.1 hdecode
    have hleft := hplain (16 * (n - 1)) hbyte
    rw [cipherBuffer_rest DK pMid pOut _ hrest, Function.update_self] at hleft
    exact add_one_ne _ hleft
  refine ⟨?_, hout⟩
  by_contra hne
  unfold Layout.SameOrApart at h
  obtain ⟨result, hdecode, hplain⟩ := hres
    (Function.update (loadedAt pIn plain) (pMid + 16 * (n - 1)) (plain (16 * (n - 1)) + 1)) _
    (fun p hp => (Function.update_of_ne (by omega) ..).trans (loadedAt_byte pIn plain p)) fun _ _ => rfl
  obtain ⟨DK, _, rfl⟩ := Option.map_eq_some_iff.1 hdecode
  have hleft := hplain (16 * (n - 1)) hbyte
  rw [cipherBuffer_rest DK pMid pOut _ hrest, hout] at hleft
  unfold encode at hleft
  rw [cipherBuffer_rest _ pIn pMid _ hrest, Function.update_self] at hleft
  exact add_one_ne _ hleft

/-- The first and the last word of every unit that is reached come back with their upper halves. -/
def EndsKept (key : ℕ → DWord) (plain : ℕ → Byte) (n : ℕ) : Prop :=
  ∀ u < reached n, Kept (enKeyIdea key 0) (unitOf plain u).x1 ∧ Kept (enKeyIdea key 3) (unitOf plain u).x4

/-- With multipliers that fit a unit comes back when its ends do. -/
theorem unit_kept_iff (hfit : MultipliersFit (enKeyIdea key)) {DK : ℕ → DWord} (hDK : deKeyIdea (enKeyIdea key) = some DK) (b : Block) :
    cipherIdea DK (cipherIdea (enKeyIdea key) b) = b ↔ Kept (enKeyIdea key 0) b.x1 ∧ Kept (enKeyIdea key 3) b.x4 := by
  obtain ⟨hfirst, hfourth⟩ := deKeyIdea_ends hDK
  rw [cipher_back hfit hDK]
  constructor
  · intro heq
    exact ⟨⟨_, hfirst, congrArg Block.x1 heq⟩, ⟨_, hfourth, congrArg Block.x4 heq⟩⟩
  · rintro ⟨⟨r1, hr1, h1⟩, ⟨r4, hr4, h4⟩⟩
    obtain rfl : r1 = DK 48 := Option.some.inj (hr1.symm.trans hfirst)
    obtain rfl : r4 = DK 51 := Option.some.inj (hr4.symm.trans hfourth)
    rw [h1, h4]

theorem restores_fit_iff (h : Layout.SameOrApart pMid pIn (16 * n)) (h' : Layout.SameOrApart pOut pMid (16 * n))
    (hfit : MultipliersFit (enKeyIdea key)) :
    Restores key pIn pMid pOut (16 * n) plain ↔ EndsKept key plain n ∧ (n ≤ 1 ∨ pMid = pIn ∧ pOut = pMid) := by
  have hsize : block.size = 16 := rfl
  constructor
  · intro hres
    refine ⟨fun u hu => ?_, ?_⟩
    · obtain ⟨DK, hDK, hback⟩ := hres.unit h h' hu
      exact (unit_kept_iff hfit hDK _).1 hback
    · rcases Nat.lt_or_ge 1 n with hn | hn
      · exact Or.inr (hres.in_place h h' hn)
      · exact Or.inl hn
  · rintro ⟨hkept, hplace⟩ mem mem' hplain hcopy
    obtain ⟨DK, hDK⟩ := Option.isSome_iff_exists.1 (deKeyIdea_isSome_iff.2 hfit.invertible)
    refine ⟨_, congrArg (Option.map _) hDK, fun p hp => ?_⟩
    by_cases hreached : p < 16 * reached n
    · have hunits : ∀ u < reached n, block.load (cipherBuffer DK pMid pOut (16 * n) mem') (pOut + block.size * u) =
          block.load plain (0 + block.size * u) := by
        intro u hu
        rw [Nat.zero_add]
        exact (unit_back h h' hplain hcopy hu).trans ((unit_kept_iff hfit hDK _).2 (hkept u hu))
      have hback := block.byte_place hreached hunits
      rwa [Nat.zero_add] at hback
    · have hrest := Nat.le_of_not_lt hreached
      have hinplace : pMid = pIn ∧ pOut = pMid := by
        refine hplace.resolve_left fun hn => ?_
        unfold reached at hrest
        omega
      have hmid := hcopy p hp
      unfold encode at hmid
      rw [cipherBuffer_rest _ pIn pMid _ hrest] at hmid
      show cipherBuffer DK pMid pOut (16 * n) mem' (pOut + p) = plain p
      rw [cipherBuffer_rest DK pMid pOut _ hrest, hinplace.2, hmid, hinplace.1, hplain p hp]

/-- For all keys, which sizes come back whatever the plaintext; for keys whose multipliers fit, which plaintexts do. -/
theorem restores_iff (key : ℕ → DWord) (h : Layout.SameOrApart pMid pIn (16 * n)) (h' : Layout.SameOrApart pOut pMid (16 * n)) :
    ((∀ plain, Restores key pIn pMid pOut (16 * n) plain) ↔ n = 0 ∧ Invertible (enKeyIdea key)) ∧
    (MultipliersFit (enKeyIdea key) → ∀ plain,
      Restores key pIn pMid pOut (16 * n) plain ↔ EndsKept key plain n ∧ (n ≤ 1 ∨ pMid = pIn ∧ pOut = pMid)) :=
  ⟨restores_all_iff h h', fun hfit _ => restores_fit_iff h h' hfit⟩

end Restores

/-- The key 0, 0, 3, 0, 0, 0x21, 0, 0. -/
def smallKey : ℕ → DWord := fun i => if i = 2 then 3 else if i = 5 then 0x21 else 0

theorem smallKey_fits : MultipliersFit (enKeyIdea smallKey) := by
  unfold MultipliersFit
  decide

/-- Two units from address 0 to 32 and on to 64. -/
theorem restores_sample :
    ((∀ plain, Restores smallKey 0 32 64 (16 * 2) plain) ↔ 2 = 0 ∧ Invertible (enKeyIdea smallKey)) ∧
    (Restores smallKey 0 32 64 (16 * 2) (fun _ => 0) ↔ EndsKept smallKey (fun _ => 0) 2 ∧ (2 ≤ 1 ∨ 32 = 0 ∧ 64 = 32)) :=
  have hboth := @restores_iff 0 32 64 2 smallKey (Or.inr (Or.inr (by decide))) (Or.inr (Or.inr (by decide)))
  ⟨hboth.1, hboth.2 smallKey_fits fun _ => 0⟩

/-- The key and the text that the header has as an example. -/
def headerKey : ℕ → DWord := fun i => BitVec.ofNat 32 (i + 1)

def headerText : ℕ → Byte := fun p => ("1234567890123456".toList.map fun c => BitVec.ofNat 8 c.toNat).getD p 0

theorem header_not_restored : ¬ Restores headerKey 0 16 32 16 headerText := by
  intro hres
  obtain ⟨result, hdecode, hplain⟩ := hres headerText _ (fun p _ => congrArg headerText (Nat.zero_add p)) fun _ _ => rfl
  have hbyte : (decode 16 32 16 headerKey (encode 0 16 16 headerKey headerText)).map (fun mem => mem (32 + 0)) ≠ some 0x31 := by
    decide
  rw [hdecode, Option.map_some, hplain 0 (by decide)] at hbyte
  exact hbyte rfl

end StarLib.Idea
