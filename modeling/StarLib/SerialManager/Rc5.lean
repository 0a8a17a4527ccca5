import StarLib.Foundations.Arrays
import StarLib.Foundations.Words

/-! # The RC5 variant of `CSerialManager`

The key bytes go one to a word (`cp` is a word pointer), and a half round starts by overwriting `d[0]`
with a rotation of `d[1]`, so the first word of a block never reaches the result. The mixing of the key
is compared with a run on lists (`mixList`), from which the expanded key can be computed.
-/

namespace StarLib.SerialManager
open Foundations
set_option autoImplicit false
set_option maxHeartbeats 250000
set_option maxRecDepth 120000

structure Rc5Ctx where
  xk : ℕ → DWord
  nr : ℕ

/-- `rc5_init`: `xk` is fresh from `malloc`. -/
def rc5Init (xk : ℕ → DWord) (rounds : ℕ) : Rc5Ctx := ⟨xk, rounds⟩

/-- The state of the mixing loop. -/
structure Rc5Mix where
  A : DWord
  B : DWord
  xk : ℕ → DWord
  pk : ℕ → DWord

def rc5MixStep (xkLen pkLen i : ℕ) (s : Rc5Mix) : Rc5Mix :=
  let A := rotl (s.xk (i % xkLen) + s.A + s.B) 3
  let rc := ((A + s.B) &&& 31).toNat
  let B := rotl (s.pk (i % pkLen) + A + s.B) rc
  ⟨A, B, Function.update s.xk (i % xkLen) A, Function.update s.pk (i % pkLen) B⟩

/-- `rc5_key`. `pk` is the local array before the call; the loop that sums the fresh `xk` into `A` and
`B` is left out, since both are reset after it. -/
def rc5Key (pk : ℕ → DWord) (c : Rc5Ctx) (key : List Byte) : Rc5Ctx :=
  let xkLen := c.nr * 2 + 2
  let pkLen := if key.length % 4 ≠ 0 then key.length / 4 + 1 else key.length / 4
  let pk := fill pkLen (fun _ => 0) pk
  let pk := fill key.length (fun i => (key.getD i 0).setWidth 32) pk
  let xk := Function.update c.xk 0 0xb7e15163
  let xk := forRange 1 xkLen (fun i xk => Function.update xk i (xk (i - 1) + 0x9e3779b9)) xk
  let numSteps := if xkLen < pkLen then 3 * pkLen else 3 * xkLen
  let s := forRange 0 numSteps (rc5MixStep xkLen pkLen) ⟨0, 0, xk, pk⟩
  { c with xk := s.xk }

/-- One turn of the round loop, `i = 2 * k`. `sk` is `xk + 2`. -/
def rc5Round (xk : ℕ → DWord) (k : ℕ) (d : DWord × DWord) : DWord × DWord :=
  let sk := fun i => xk (i + 2)
  -- `d[0] ^= d[1]` comes first, but `d[0]` is assigned from `d[1]` before it is read
  let rc := (d.2 &&& 31).toNat
  let d0 := rotl d.2 rc
  let d0 := d0 + sk (2 * k)
  let d1 := d.2 ^^^ d0
  let rc := (d0 &&& 31).toNat
  let d1 := rotl d1 rc
  let d1 := d1 + sk (2 * k + 1)
  (d0, d1)

def rc5Block (c : Rc5Ctx) (d : DWord × DWord) : DWord × DWord :=
  forRange 0 c.nr (rc5Round c.xk) (d.1 + c.xk 0, d.2 + c.xk 1)

/-- `rc5_encrypt`. -/
def rc5Encrypt (c : Rc5Ctx) (blocks : ℕ) (data : ℕ → DWord) : ℕ → DWord :=
  forRange 0 blocks (fun h data =>
    let d := rc5Block c (data (2 * h), data (2 * h + 1))
    Function.update (Function.update data (2 * h) d.1) (2 * h + 1) d.2) data

/-- `Rc5Enc`. `xk` and `pk` are the memory that `malloc` and the stack give. -/
def rc5Enc (xk pk : ℕ → DWord) (rounds : ℕ) (key : List Byte) (data : ℕ → DWord) (blocks : ℕ) : ℕ → DWord :=
  rc5Encrypt (rc5Key pk (rc5Init xk rounds) key) blocks data

/-! ## The key mixing on lists -/

structure Rc5List where
  A : DWord
  B : DWord
  xk : List DWord
  pk : List DWord

def mixListStep (xkLen pkLen i : ℕ) (s : Rc5List) : Rc5List :=
  let A := rotl (s.xk.getD (i % xkLen) 0 + s.A + s.B) 3
  let B := rotl (s.pk.getD (i % pkLen) 0 + A + s.B) ((A + s.B) &&& 31).toNat
  ⟨A, B, s.xk.set (i % xkLen) A, s.pk.set (i % pkLen) B⟩

/-- The expanded key, from the key bytes and the number of rounds alone. -/
def mixList (nr : ℕ) (key : List Byte) : List DWord :=
  let xkLen := nr * 2 + 2
  let pkLen := if key.length % 4 ≠ 0 then key.length / 4 + 1 else key.length / 4
  let xk := (List.range xkLen).map fun i => 0xb7e15163 + BitVec.ofNat 32 i * 0x9e3779b9
  let pk := (List.range pkLen).map fun i => (key.getD i 0).setWidth 32
  let numSteps := if xkLen < pkLen then 3 * pkLen else 3 * xkLen
  (forRange 0 numSteps (mixListStep xkLen pkLen) ⟨0, 0, xk, pk⟩).xk

/-- An array holds a list. -/
def Holds (a : ℕ → DWord) (l : List DWord) (n : ℕ) : Prop := l.length = n ∧ ∀ i < n, a i = l.getD i 0

theorem Holds.set {a : ℕ → DWord} {l : List DWord} {n : ℕ} (h : Holds a l n) (i : ℕ) (v : DWord) :
    Holds (Function.update a i v) (l.set i v) n := by
  obtain ⟨hlen, hcell⟩ := h
  refine ⟨by rw [List.length_set, hlen], ?_⟩
  intro j hj
  by_cases hji : j = i
  · subst hji
    have hj' : j < l.length := by omega
    simp [List.getD_eq_getElem?_getD, hj']
  · rw [Function.update_of_ne hji, hcell j hj]
    simp [List.getD_eq_getElem?_getD, List.getElem?_set_ne (Ne.symm hji)]

theorem holds_map {n : ℕ} {a : ℕ → DWord} {f : ℕ → DWord} (h : ∀ i < n, a i = f i) :
    Holds a ((List.range n).map f) n := by
  refine ⟨by simp, ?_⟩
  intro i hi
  simp [List.getD_eq_getElem?_getD, hi, h i hi]

/-- Whatever `malloc` and the stack held, `rc5_key` leaves the expanded key. -/
theorem rc5Key_holds (xk pk : ℕ → DWord) (rounds : ℕ) (key : List Byte) (hkey : 0 < key.length) :
    Holds (rc5Key pk (rc5Init xk rounds) key).xk (mixList rounds key) (rounds * 2 + 2) := by
  unfold rc5Key mixList rc5Init
  simp only
  have hpkle : (if key.length % 4 ≠ 0 then key.length / 4 + 1 else key.length / 4) ≤ key.length := by
    split <;> omega
  have hpkpos : 0 < (if key.length % 4 ≠ 0 then key.length / 4 + 1 else key.length / 4) := by
    split <;> omega
  generalize (if key.length % 4 ≠ 0 then key.length / 4 + 1 else key.length / 4) = pkLen at hpkle hpkpos ⊢
  have hbase : ∀ i < rounds * 2 + 2, forRange 1 (rounds * 2 + 2)
      (fun i xk => Function.update xk i (xk (i - 1) + 0x9e3779b9)) (Function.update xk 0 0xb7e15163) i =
        0xb7e15163 + BitVec.ofNat 32 i * 0x9e3779b9 := by
    refine forRange_inv (P := fun n (a : ℕ → DWord) =>
      ∀ i < n, a i = 0xb7e15163 + BitVec.ofNat 32 i * 0x9e3779b9) (by omega) ?_ ?_
    · intro i hi
      have hi0 : i = 0 := by omega
      subst hi0
      simp
    · intro n a h1 _ ih i hi
      by_cases hin : i = n
      · subst hin
        have hback : i - 1 + 1 = i := by omega
        have hsucc : BitVec.ofNat 32 i = BitVec.ofNat 32 (i - 1) + 1 := by
          conv_lhs => rw [← hback]
          exact BitVec.ofNat_add ..
        have hone : (1 : DWord) * 0x9e3779b9 = 0x9e3779b9 := by decide
        rw [Function.update_self, ih (i - 1) (by omega), hsucc, BitVec.add_mul, hone, BitVec.add_assoc]
      · rw [Function.update_of_ne hin, ih i (by omega)]
  have hpk : ∀ i < pkLen, fill key.length (fun i => (key.getD i 0).setWidth 32) (fill pkLen (fun _ => 0) pk) i =
      (key.getD i 0).setWidth 32 := by
    intro i hi
    rw [fill_apply_of_lt (by omega : i < key.length)]
  refine (forRange_rel (f := rc5MixStep (rounds * 2 + 2) pkLen) (g := mixListStep (rounds * 2 + 2) pkLen)
    (fun _ (s : Rc5Mix) (l : Rc5List) => s.A = l.A ∧ s.B = l.B ∧ Holds s.xk l.xk (rounds * 2 + 2) ∧
      Holds s.pk l.pk pkLen) (Nat.zero_le _) ?_ ?_).2.2.1
  · exact ⟨rfl, rfl, holds_map hbase, holds_map hpk⟩
  · rintro i ⟨A, B, xk, pk⟩ ⟨A', B', xk', pk'⟩ _ _ ⟨rfl, rfl, hxk, hpk⟩
    have h1 : i % (rounds * 2 + 2) < rounds * 2 + 2 := Nat.mod_lt _ (by omega)
    have h2 : i % pkLen < pkLen := Nat.mod_lt _ hpkpos
    have hx : xk (i % (rounds * 2 + 2)) = xk'.getD (i % (rounds * 2 + 2)) 0 := hxk.2 _ h1
    have hp : pk (i % pkLen) = pk'.getD (i % pkLen) 0 := hpk.2 _ h2
    simp only [rc5MixStep, mixListStep, hx, hp, true_and]
    exact ⟨hxk.set _ _, hpk.set _ _⟩

/-! ## What a block reads -/

theorem rc5Block_congr {c c' : Rc5Ctx} (hnr : c.nr = c'.nr) (h : AgreeBelow (c.nr * 2 + 2) c.xk c'.xk)
    (d : DWord × DWord) : rc5Block c d = rc5Block c' d := by
  unfold rc5Block
  rw [← hnr, h 0 (by omega), h 1 (by omega)]
  refine forRange_congr _ fun k s _ hk => ?_
  unfold rc5Round
  simp only
  rw [h (2 * k + 2) (by omega), h (2 * k + 1 + 2) (by omega)]

/-- The first word of a block does not reach the result. -/
theorem rc5Block_first {c : Rc5Ctx} (hnr : 0 < c.nr) (d0 d0' d1 : DWord) :
    rc5Block c (d0, d1) = rc5Block c (d0', d1) := by
  unfold rc5Block
  rw [forRange_cons hnr, forRange_cons hnr]
  rfl

/-- The blocks are enciphered one by one. -/
theorem rc5Encrypt_block (c : Rc5Ctx) {blocks h : ℕ} (hh : h < blocks) (data : ℕ → DWord) :
    (rc5Encrypt c blocks data (2 * h), rc5Encrypt c blocks data (2 * h + 1)) =
      rc5Block c (data (2 * h), data (2 * h + 1)) := by
  have hall := forRange_inv (f := fun h (data : ℕ → DWord) =>
      let d := rc5Block c (data (2 * h), data (2 * h + 1))
      Function.update (Function.update data (2 * h) d.1) (2 * h + 1) d.2) (s := data)
    (P := fun i (d : ℕ → DWord) =>
      (∀ h < i, (d (2 * h), d (2 * h + 1)) = rc5Block c (data (2 * h), data (2 * h + 1))) ∧
        ∀ p, 2 * i ≤ p → d p = data p) (Nat.zero_le blocks) ?_ ?_
  · exact hall.1 h hh
  · exact ⟨fun h hh => absurd hh (Nat.not_lt_zero h), fun p _ => rfl⟩
  · rintro i d _ _ ⟨ih, hrest⟩
    have h0 := hrest (2 * i) (by omega)
    have h1 := hrest (2 * i + 1) (by omega)
    simp only [h0, h1]
    refine ⟨?_, ?_⟩
    · intro h hh
      by_cases hhi : h = i
      · have hne : 2 * i ≠ 2 * i + 1 := by omega
        rw [hhi, Function.update_self, Function.update_of_ne hne, Function.update_self]
      · have h00 : 2 * h ≠ 2 * i := by omega
        have h01 : 2 * h ≠ 2 * i + 1 := by omega
        have h10 : 2 * h + 1 ≠ 2 * i := by omega
        have h11 : 2 * h + 1 ≠ 2 * i + 1 := by omega
        rw [Function.update_of_ne h01, Function.update_of_ne h00, Function.update_of_ne h11,
          Function.update_of_ne h10, ih h (by omega)]
    · intro p hp
      have hodd : p ≠ 2 * i + 1 := by omega
      have heven : p ≠ 2 * i := by omega
      rw [Function.update_of_ne hodd, Function.update_of_ne heven, hrest p (by omega)]

/-- Different words in a block give different words there. -/
def Rc5Injective (c : Rc5Ctx) (blocks : ℕ) : Prop :=
  ∀ h < blocks, ∀ data data' : ℕ → DWord, (data (2 * h), data (2 * h + 1)) ≠ (data' (2 * h), data' (2 * h + 1)) →
    (rc5Encrypt c blocks data (2 * h), rc5Encrypt c blocks data (2 * h + 1)) ≠
      (rc5Encrypt c blocks data' (2 * h), rc5Encrypt c blocks data' (2 * h + 1))

/-- Two blocks that differ in the first word are merged by the first round. -/
theorem rc5Merged {c : Rc5Ctx} (hnr : 0 < c.nr) {blocks : ℕ} (hblocks : 0 < blocks) : ¬ Rc5Injective c blocks := by
  intro hinj
  refine hinj 0 hblocks (fun _ => 0) (Function.update (fun _ => 0) 0 1) (by simp) ?_
  rw [rc5Encrypt_block c hblocks, rc5Encrypt_block c hblocks]
  exact rc5Block_first hnr 0 1 0

/-- The words are only whitened without rounds, and that keeps blocks apart. -/
theorem rc5Encrypt_injective_iff (c : Rc5Ctx) (blocks : ℕ) : Rc5Injective c blocks ↔ c.nr = 0 ∨ blocks = 0 := by
  constructor
  · intro hinj
    by_contra hnone
    exact rc5Merged (by omega) (by omega) hinj
  · rintro (hnr | hnone) h hh data data' hne
    · rw [rc5Encrypt_block c hh, rc5Encrypt_block c hh]
      intro heq
      unfold rc5Block at heq
      rw [hnr, forRange_of_le (Nat.le_refl 0), forRange_of_le (Nat.le_refl 0)] at heq
      simp only [Prod.mk.injEq, BitVec.add_left_inj] at heq
      exact hne (Prod.ext heq.1 heq.2)
    · omega

/-- Two rounds with a zero key: the blocks (0, 0) and (1, 0). -/
theorem rc5Encrypt_merges : ¬ Rc5Injective ⟨fun _ => 0, 2⟩ 1 := rc5Merged (by decide) (by decide)

/-- Encrypting equal words gives equal words, whatever `malloc` and the stack held. -/
theorem rc5Enc_agree (xk xk' pk pk' : ℕ → DWord) (rounds : ℕ) (key : List Byte) (hkey : 0 < key.length)
    (blocks : ℕ) {a b : ℕ → DWord} (h : AgreeBelow (2 * blocks) a b) :
    AgreeBelow (2 * blocks) (rc5Enc xk pk rounds key a blocks) (rc5Enc xk' pk' rounds key b blocks) := by
  obtain ⟨_, hxk⟩ := rc5Key_holds xk pk rounds key hkey
  obtain ⟨_, hxk'⟩ := rc5Key_holds xk' pk' rounds key hkey
  have hctx : ∀ d, rc5Block (rc5Key pk (rc5Init xk rounds) key) d =
      rc5Block (rc5Key pk' (rc5Init xk' rounds) key) d := by
    intro d
    have hnr : (rc5Key pk (rc5Init xk rounds) key).nr = (rc5Key pk' (rc5Init xk' rounds) key).nr := rfl
    refine rc5Block_congr hnr (fun i hi => ?_) d
    rw [hxk i hi, hxk' i hi]
  refine forRange_rel (fun _ a b => AgreeBelow (2 * blocks) a b) (Nat.zero_le blocks) h ?_
  intro i a b _ hi hab
  simp only
  rw [hctx, hab (2 * i) (by omega), hab (2 * i + 1) (by omega)]
  exact (hab.update _ _).update _ _

end StarLib.SerialManager
