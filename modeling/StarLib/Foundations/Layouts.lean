import StarLib.Foundations.Loop
import StarLib.Foundations.Words
import Mathlib.Logic.Equiv.Defs

/-! # Values in memory

A memory is a function from addresses to bytes. A `Layout` says which bytes a value takes, and that no two
values take the same ones; loads and stores, and loops that put a function of every value of a buffer in
its place in another one (`mapBlocks`), follow from that. The other buffer may be the same one.
-/

namespace Foundations
set_option autoImplicit false
set_option maxHeartbeats 250000
set_option maxRecDepth 120000

abbrev Ram := ℕ → Byte

structure Layout (β : Type) where
  size : ℕ
  byte : β → ℕ → Byte
  ofBytes : (ℕ → Byte) → β
  byte_ofBytes : ∀ f, ∀ i < size, byte (ofBytes f) i = f i
  ext : ∀ {x y}, (∀ i < size, byte x i = byte y i) → x = y

namespace Layout
variable {β γ : Type} (L : Layout β)

def load (mem : Ram) (a : ℕ) : β := L.ofBytes fun i => mem (a + i)

def store (a : ℕ) (x : β) (mem : Ram) : Ram := fillAt a L.size (L.byte x) mem

theorem store_byte (a : ℕ) (x : β) (mem : Ram) {i : ℕ} (hi : i < L.size) : L.store a x mem (a + i) = L.byte x i := by
  have hin : a ≤ a + i ∧ a + i < a + L.size := by omega
  unfold store
  rw [fillAt_apply, if_pos hin, Nat.add_sub_cancel_left]

theorem store_apart (a : ℕ) (x : β) (mem : Ram) {p : ℕ} (hp : p < a ∨ a + L.size ≤ p) : L.store a x mem p = mem p := by
  have hout : ¬ (a ≤ p ∧ p < a + L.size) := by omega
  unfold store
  rw [fillAt_apply, if_neg hout]

/-- Two loads are equal when the bytes are. -/
theorem load_eq_iff {mem mem' : Ram} {a b : ℕ} :
    L.load mem a = L.load mem' b ↔ ∀ i < L.size, mem (a + i) = mem' (b + i) := by
  constructor
  · intro h i hi
    have hbyte := congrArg (L.byte · i) h
    unfold load at hbyte
    rwa [L.byte_ofBytes _ i hi, L.byte_ofBytes _ i hi] at hbyte
  · intro h
    refine L.ext fun i hi => ?_
    unfold load
    rw [L.byte_ofBytes _ i hi, L.byte_ofBytes _ i hi, h i hi]

theorem load_store (a : ℕ) (x : β) (mem : Ram) : L.load (L.store a x mem) a = x := by
  refine L.ext fun i hi => ?_
  unfold load
  rw [L.byte_ofBytes _ i hi, L.store_byte a x mem hi]

/-- What was there before a store, put back. -/
theorem store_back (a : ℕ) (x : β) (mem : Ram) : L.store a (L.load mem a) (L.store a x mem) = mem := by
  funext p
  by_cases hin : a ≤ p ∧ p < a + L.size
  · obtain ⟨i, rfl⟩ := Nat.exists_eq_add_of_le hin.1
    have hi : i < L.size := by omega
    rw [L.store_byte _ _ _ hi, load, L.byte_ofBytes _ i hi]
  · rw [L.store_apart _ _ _ (by omega), L.store_apart _ _ _ (by omega)]

theorem load_store_apart {a b : ℕ} (h : a + L.size ≤ b ∨ b + L.size ≤ a) (x : β) (mem : Ram) :
    L.load (L.store a x mem) b = L.load mem b :=
  L.load_eq_iff.2 fun i hi => L.store_apart a x mem (by omega)

theorem load_congr {mem mem' : Ram} {a : ℕ} (h : ∀ i < L.size, mem (a + i) = mem' (a + i)) : L.load mem a = L.load mem' a :=
  L.load_eq_iff.2 h

/-! ## Words and pairs -/

def ofByte : Layout Byte where
  size := 1
  byte := fun x _ => x
  ofBytes := fun f => f 0
  byte_ofBytes := fun f i hi => by rw [Nat.lt_one_iff.1 hi]
  ext := fun h => h 0 Nat.one_pos

/-- A word, with its least significant byte first. -/
def word : Layout DWord where
  size := 4
  byte := byteAt
  ofBytes := fun f => Foundations.ofBytes (f 0) (f 1) (f 2) (f 3)
  byte_ofBytes := by
    intro f i hi
    rcases (by omega : i = 0 ∨ i = 1 ∨ i = 2 ∨ i = 3) with rfl | rfl | rfl | rfl
    · exact byteAt_ofBytes_zero ..
    · exact byteAt_ofBytes_one ..
    · exact byteAt_ofBytes_two ..
    · exact byteAt_ofBytes_three ..
  ext := fun h => eq_of_byteAt (h 0 (by decide)) (h 1 (by decide)) (h 2 (by decide)) (h 3 (by decide))

/-- A value and another one behind it. -/
def pair (L : Layout β) (M : Layout γ) : Layout (β × γ) where
  size := L.size + M.size
  byte := fun x i => if i < L.size then L.byte x.1 i else M.byte x.2 (i - L.size)
  ofBytes := fun f => (L.ofBytes f, M.ofBytes fun i => f (L.size + i))
  byte_ofBytes := by
    intro f i hi
    by_cases hfirst : i < L.size
    · rw [if_pos hfirst, L.byte_ofBytes _ i hfirst]
    · have hback : L.size + (i - L.size) = i := by omega
      rw [if_neg hfirst, M.byte_ofBytes _ _ (by omega), hback]
  ext := by
    intro x y h
    refine Prod.ext (L.ext fun i hi => ?_) (M.ext fun i hi => ?_)
    · have hbyte := h i (by omega)
      rwa [if_pos hi, if_pos hi] at hbyte
    · have hlate : ¬ L.size + i < L.size := by omega
      have hbyte := h (L.size + i) (by omega)
      rwa [if_neg hlate, if_neg hlate, Nat.add_sub_cancel_left] at hbyte

theorem pair_load (M : Layout γ) (mem : Ram) (a : ℕ) :
    (L.pair M).load mem a = (L.load mem a, M.load mem (a + L.size)) := by
  show (_, M.ofBytes fun i => mem (a + (L.size + i))) = (_, M.ofBytes fun i => mem (a + L.size + i))
  simp only [Nat.add_assoc]
  rfl

theorem pair_store (M : Layout γ) (a : ℕ) (x : β × γ) (mem : Ram) :
    (L.pair M).store a x mem = M.store (a + L.size) x.2 (L.store a x.1 mem) := by
  funext p
  by_cases hsecond : a + L.size ≤ p ∧ p < a + L.size + M.size
  · obtain ⟨i, rfl⟩ := Nat.exists_eq_add_of_le hsecond.1
    have hlate : ¬ L.size + i < L.size := by omega
    rw [M.store_byte _ _ _ (by omega), Nat.add_assoc, (L.pair M).store_byte _ _ _ (show L.size + i < L.size + M.size by omega)]
    show (if L.size + i < L.size then _ else M.byte x.2 (L.size + i - L.size)) = _
    rw [if_neg hlate, Nat.add_sub_cancel_left]
  · rw [M.store_apart _ _ _ (by omega)]
    by_cases hfirst : a ≤ p ∧ p < a + L.size
    · obtain ⟨i, rfl⟩ := Nat.exists_eq_add_of_le hfirst.1
      have hi : i < L.size := by omega
      rw [L.store_byte _ _ _ hi, (L.pair M).store_byte _ _ _ (show i < L.size + M.size by omega)]
      exact if_pos hi
    · rw [L.store_apart _ _ _ (by omega), (L.pair M).store_apart _ _ _ (show p < a ∨ a + (L.size + M.size) ≤ p by omega)]

/-- The same bytes for the values of a type with as many of them. -/
def along (e : γ ≃ β) : Layout γ where
  size := L.size
  byte := fun x => L.byte (e x)
  ofBytes := fun f => e.symm (L.ofBytes f)
  byte_ofBytes := fun f i hi => by rw [Equiv.apply_symm_apply, L.byte_ofBytes f i hi]
  ext := fun h => e.injective (L.ext h)

/-! ## Buffers -/

/-- `f` of every value of a buffer, put in its place in another one. -/
def mapBlocks (f : β → β) (Out In n : ℕ) (mem : Ram) : Ram :=
  forRange 0 n (fun i mem => L.store (Out + L.size * i) (f (L.load mem (In + L.size * i))) mem) mem

/-- Two buffers of `n` bytes are one, or apart. -/
def SameOrApart (Out In n : ℕ) : Prop := Out = In ∨ Out + n ≤ In ∨ In + n ≤ Out

theorem SameOrApart.mono {Out In n m : ℕ} (h : SameOrApart Out In n) (hm : m ≤ n) : SameOrApart Out In m := by
  unfold SameOrApart at *
  omega

theorem SameOrApart.add {Out In n : ℕ} (k : ℕ) (h : SameOrApart Out In (k + n)) : SameOrApart (Out + k) (In + k) n := by
  unfold SameOrApart at *
  omega

/-- Places of two values of a buffer do not overlap. -/
theorem places_apart {i j s : ℕ} (h : i < j) : s * i + s ≤ s * j := by
  have hmul := Nat.mul_le_mul_left s (Nat.succ_le_of_lt h)
  rwa [Nat.mul_succ] at hmul

theorem mapBlocks_load (f : β → β) {Out In n : ℕ} (h : SameOrApart Out In (L.size * n)) (mem : Ram) {i : ℕ} (hi : i < n) :
    L.load (L.mapBlocks f Out In n mem) (Out + L.size * i) = f (L.load mem (In + L.size * i)) := by
  unfold SameOrApart at h
  refine (forRange_inv (P := fun k (now : Ram) =>
      (∀ i < k, L.load now (Out + L.size * i) = f (L.load mem (In + L.size * i))) ∧
      ∀ i < n, k ≤ i → L.load now (In + L.size * i) = L.load mem (In + L.size * i)) (Nat.zero_le n) ?_ ?_).1 i hi
  · exact ⟨fun i hi => absurd hi (Nat.not_lt_zero i), fun _ _ _ => rfl⟩
  · intro k now _ hk hnow
    obtain ⟨hdone, htodo⟩ := hnow
    have hkn := places_apart (s := L.size) hk
    refine ⟨fun i hi => ?_, fun i hi hki => ?_⟩
    · by_cases hik : i = k
      · rw [hik, L.load_store, htodo k hk (Nat.le_refl k)]
      · have hplace := places_apart (s := L.size) (show i < k by omega)
        rw [L.load_store_apart (by omega), hdone i (by omega)]
    · have hplace := places_apart (s := L.size) (show k < i by omega)
      have hin := places_apart (s := L.size) hi
      rw [L.load_store_apart (by omega), htodo i hi (by omega)]

theorem mapBlocks_apart (f : β → β) (Out In n : ℕ) (mem : Ram) {p : ℕ} (hp : p < Out ∨ Out + L.size * n ≤ p) :
    L.mapBlocks f Out In n mem p = mem p := by
  refine forRange_inv (P := fun _ (now : Ram) => now p = mem p) (Nat.zero_le n) rfl ?_
  intro i now _ hi hnow
  have hplace := places_apart (s := L.size) hi
  rw [L.store_apart _ _ _ (by omega), hnow]

/-- A loop over single bytes. -/
theorem mapBytes_eq (g : Byte → Byte) (Out In n : ℕ) (mem : Ram) :
    forRange 0 n (fun i mem => Function.update mem (Out + i) (g (mem (In + i)))) mem = ofByte.mapBlocks g Out In n mem := by
  refine forRange_congr mem fun i mem _ _ => ?_
  funext p
  have hone : ofByte.size * i = i := Nat.one_mul i
  rw [hone]
  by_cases hp : p = Out + i
  · rw [hp, Function.update_self]
    exact (ofByte.store_byte _ _ mem Nat.one_pos).symm
  · have hsize : ofByte.size = 1 := rfl
    rw [Function.update_of_ne hp, ofByte.store_apart _ _ _ (by omega)]

/-- Byte `p` of a buffer is a byte of the value that it lies in. -/
theorem byte_place {Out In n p : ℕ} {mem mem' : Ram} (hp : p < L.size * n)
    (h : ∀ i < n, L.load mem (Out + L.size * i) = L.load mem' (In + L.size * i)) : mem (Out + p) = mem' (In + p) := by
  have hsize : 0 < L.size := Nat.pos_of_mul_pos_right (Nat.lt_of_le_of_lt (Nat.zero_le p) hp)
  have hi : p / L.size < n := Nat.div_lt_of_lt_mul hp
  have hbyte := L.load_eq_iff.1 (h (p / L.size) hi) (p % L.size) (Nat.mod_lt p hsize)
  rwa [Nat.add_assoc, Nat.add_assoc, Nat.div_add_mod] at hbyte

/-- A buffer of values taken through `f` and then through an inverse of it. -/
theorem mapBlocks_restore {f g : β → β} (hgf : ∀ x, g (f x) = x) {Out In Out' In' n : ℕ}
    (h : SameOrApart Out In (L.size * n)) (h' : SameOrApart Out' In' (L.size * n)) {mem mem' : Ram}
    (hcopy : ∀ p < L.size * n, mem' (In' + p) = L.mapBlocks f Out In n mem (Out + p)) {p : ℕ} (hp : p < L.size * n) :
    L.mapBlocks g Out' In' n mem' (Out' + p) = mem (In + p) := by
  refine L.byte_place hp fun i hi => ?_
  have hplace := places_apart (s := L.size) hi
  have hload : L.load mem' (In' + L.size * i) = L.load (L.mapBlocks f Out In n mem) (Out + L.size * i) := by
    refine L.load_eq_iff.2 fun j hj => ?_
    have hcell := hcopy (L.size * i + j) (by omega)
    rwa [← Nat.add_assoc, ← Nat.add_assoc] at hcell
  rw [L.mapBlocks_load g h' mem' hi, hload, L.mapBlocks_load f h mem hi, hgf]

/-! ### With a rest -/

/-- The whole values of a buffer of `n` bytes through `f`, the bytes behind them through `g`. -/
def mapBuffer (f : β → β) (g : Byte → Byte) (Out In n : ℕ) (mem : Ram) : Ram :=
  let k := L.size * (n / L.size)
  ofByte.mapBlocks g (Out + k) (In + k) (n % L.size) (L.mapBlocks f Out In (n / L.size) mem)

variable {f f' : β → β} {g g' : Byte → Byte} {Out In Out' In' n : ℕ} {mem mem' : Ram}

theorem mapBuffer_block {p : ℕ} (hp : p < L.size * (n / L.size)) :
    L.mapBuffer f g Out In n mem (Out + p) = L.mapBlocks f Out In (n / L.size) mem (Out + p) :=
  ofByte.mapBlocks_apart _ _ _ _ _ (by omega)

theorem mapBuffer_rest (h : SameOrApart Out In n) {i : ℕ} (hi : i < n % L.size) :
    L.mapBuffer f g Out In n mem (Out + L.size * (n / L.size) + i) = g (mem (In + L.size * (n / L.size) + i)) := by
  have hn := Nat.div_add_mod n L.size
  have hrest : SameOrApart (Out + L.size * (n / L.size)) (In + L.size * (n / L.size)) (1 * (n % L.size)) := by
    rw [Nat.one_mul]
    exact SameOrApart.add _ (by rwa [hn])
  have hload := ofByte.mapBlocks_load g hrest (L.mapBlocks f Out In (n / L.size) mem) hi
  have hbefore : L.mapBlocks f Out In (n / L.size) mem (In + L.size * (n / L.size) + i) =
      mem (In + L.size * (n / L.size) + i) := by
    refine L.mapBlocks_apart _ _ _ _ _ ?_
    unfold SameOrApart at h
    omega
  rw [← hbefore]
  have hone : ofByte.size * i = i := Nat.one_mul i
  rw [hone] at hload
  exact hload

theorem mapBuffer_restore (hf : ∀ x, f' (f x) = x) (hg : ∀ b, g' (g b) = b) (h : SameOrApart Out In n)
    (h' : SameOrApart Out' In' n) (hcopy : ∀ p < n, mem' (In' + p) = L.mapBuffer f g Out In n mem (Out + p)) {p : ℕ}
    (hp : p < n) : L.mapBuffer f' g' Out' In' n mem' (Out' + p) = mem (In + p) := by
  have hn := Nat.div_add_mod n L.size
  by_cases hblock : p < L.size * (n / L.size)
  · rw [L.mapBuffer_block hblock]
    refine L.mapBlocks_restore hf (h.mono (by omega)) (h'.mono (by omega)) (fun q hq => ?_) hblock
    rw [hcopy q (by omega), L.mapBuffer_block hq]
  · obtain ⟨i, rfl⟩ := Nat.exists_eq_add_of_le (Nat.le_of_not_lt hblock)
    have hi : i < n % L.size := by omega
    have hcell := hcopy _ hp
    rw [← Nat.add_assoc, ← Nat.add_assoc, L.mapBuffer_rest h hi] at hcell
    rw [← Nat.add_assoc, ← Nat.add_assoc, L.mapBuffer_rest h' hi, hcell, hg]

/-! ### With what the destination held -/

/-- `f` of what the destination held and of every value of a buffer apart from it. -/
def blendBlocks (f : β → β → β) (Out In n : ℕ) (mem : Ram) : Ram :=
  forRange 0 n (fun i mem =>
    L.store (Out + L.size * i) (f (L.load mem (Out + L.size * i)) (L.load mem (In + L.size * i))) mem) mem

def Apart (Out In n : ℕ) : Prop := Out + n ≤ In ∨ In + n ≤ Out

theorem blendBlocks_load (f : β → β → β) {Out In n : ℕ} (h : Apart Out In (L.size * n)) (mem : Ram) {i : ℕ} (hi : i < n) :
    L.load (L.blendBlocks f Out In n mem) (Out + L.size * i) =
      f (L.load mem (Out + L.size * i)) (L.load mem (In + L.size * i)) := by
  unfold Apart at h
  refine (forRange_inv (P := fun k (now : Ram) =>
      (∀ i < k, L.load now (Out + L.size * i) = f (L.load mem (Out + L.size * i)) (L.load mem (In + L.size * i))) ∧
      ∀ i < n, (k ≤ i → L.load now (Out + L.size * i) = L.load mem (Out + L.size * i)) ∧
        L.load now (In + L.size * i) = L.load mem (In + L.size * i)) (Nat.zero_le n) ?_ ?_).1 i hi
  · exact ⟨fun i hi => absurd hi (Nat.not_lt_zero i), fun _ _ => ⟨fun _ => rfl, rfl⟩⟩
  · rintro k now _ hk ⟨hdone, htodo⟩
    have hkn := places_apart (s := L.size) hk
    refine ⟨fun i hi => ?_, fun i hi => ⟨fun hki => ?_, ?_⟩⟩
    · by_cases hik : i = k
      · rw [hik, L.load_store, (htodo k hk).1 (Nat.le_refl k), (htodo k hk).2]
      · have hplace := places_apart (s := L.size) (show i < k by omega)
        rw [L.load_store_apart (by omega), hdone i (by omega)]
    · have hplace := places_apart (s := L.size) (show k < i by omega)
      rw [L.load_store_apart (by omega), (htodo i hi).1 (by omega)]
    · have hplace := places_apart (s := L.size) hi
      rw [L.load_store_apart (by omega), (htodo i hi).2]

theorem blendBlocks_apart (f : β → β → β) (Out In n : ℕ) (mem : Ram) {p : ℕ} (hp : p < Out ∨ Out + L.size * n ≤ p) :
    L.blendBlocks f Out In n mem p = mem p := by
  refine forRange_inv (P := fun _ (now : Ram) => now p = mem p) (Nat.zero_le n) rfl ?_
  intro i now _ hi hnow
  have hplace := places_apart (s := L.size) hi
  rw [L.store_apart _ _ _ (by omega), hnow]

/-- The whole values of a buffer of `n` bytes blended, the bytes behind them through `g`. -/
def blendBuffer (f : β → β → β) (g : Byte → Byte) (Out In n : ℕ) (mem : Ram) : Ram :=
  let k := L.size * (n / L.size)
  ofByte.mapBlocks g (Out + k) (In + k) (n % L.size) (L.blendBlocks f Out In (n / L.size) mem)

variable {b b' : β → β → β}

theorem blendBuffer_block (h : Apart Out In n) {i : ℕ} (hi : i < n / L.size) :
    L.load (L.blendBuffer b g Out In n mem) (Out + L.size * i) =
      b (L.load mem (Out + L.size * i)) (L.load mem (In + L.size * i)) := by
  have hn := Nat.div_add_mod n L.size
  have hplace := places_apart (s := L.size) hi
  have hblocks : Apart Out In (L.size * (n / L.size)) := by
    unfold Apart at *
    omega
  rw [← L.blendBlocks_load b hblocks mem hi]
  exact L.load_congr fun j hj => ofByte.mapBlocks_apart _ _ _ _ _ (by omega)

theorem blendBuffer_rest (h : Apart Out In n) {i : ℕ} (hi : i < n % L.size) :
    L.blendBuffer b g Out In n mem (Out + L.size * (n / L.size) + i) = g (mem (In + L.size * (n / L.size) + i)) := by
  have hn := Nat.div_add_mod n L.size
  have hone : ofByte.size * i = i := Nat.one_mul i
  have hrest : SameOrApart (Out + L.size * (n / L.size)) (In + L.size * (n / L.size)) (1 * (n % L.size)) := by
    unfold Apart at h
    unfold SameOrApart
    omega
  have hload := ofByte.mapBlocks_load g hrest (L.blendBlocks b Out In (n / L.size) mem) hi
  rw [hone] at hload
  refine hload.trans (congrArg g (L.blendBlocks_apart _ _ _ _ _ ?_))
  unfold Apart at h
  omega

theorem blendBuffer_apart {p : ℕ} (hp : p < Out ∨ Out + n ≤ p) : L.blendBuffer b g Out In n mem p = mem p := by
  have hn := Nat.div_add_mod n L.size
  have hone : ofByte.size * (n % L.size) = n % L.size := Nat.one_mul _
  exact (ofByte.mapBlocks_apart _ _ _ _ _ (by omega)).trans (L.blendBlocks_apart _ _ _ _ _ (by omega))

/-- A blended buffer blended back over the same old values. -/
theorem blendBuffer_restore (hb : ∀ k x, b' k (b k x) = x) (hg : ∀ y, g' (g y) = y) (h : Apart Out In n)
    (h' : Apart Out' In' n) (hcopy : ∀ p < n, mem' (In' + p) = L.blendBuffer b g Out In n mem (Out + p))
    (hold : ∀ p < n, mem' (Out' + p) = mem (Out + p)) {p : ℕ} (hp : p < n) :
    L.blendBuffer b' g' Out' In' n mem' (Out' + p) = mem (In + p) := by
  have hn := Nat.div_add_mod n L.size
  by_cases hblock : p < L.size * (n / L.size)
  · refine L.byte_place hblock fun i hi => ?_
    have hplace := places_apart (s := L.size) hi
    have hcipher : L.load mem' (In' + L.size * i) = L.load (L.blendBuffer b g Out In n mem) (Out + L.size * i) := by
      refine L.load_eq_iff.2 fun j hj => ?_
      rw [Nat.add_assoc, Nat.add_assoc]
      exact hcopy _ (by omega)
    have hkey : L.load mem' (Out' + L.size * i) = L.load mem (Out + L.size * i) := by
      refine L.load_eq_iff.2 fun j hj => ?_
      rw [Nat.add_assoc, Nat.add_assoc]
      exact hold _ (by omega)
    rw [L.blendBuffer_block h' hi, hkey, hcipher, L.blendBuffer_block h hi, hb]
  · obtain ⟨i, rfl⟩ := Nat.exists_eq_add_of_le (Nat.le_of_not_lt hblock)
    have hi : i < n % L.size := by omega
    have hcell := hcopy _ hp
    rw [← Nat.add_assoc, ← Nat.add_assoc, L.blendBuffer_rest h hi] at hcell
    rw [← Nat.add_assoc, ← Nat.add_assoc, L.blendBuffer_rest h' hi, hcell, hg]

end Layout

end Foundations
