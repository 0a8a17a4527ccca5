import StarLib.Foundations.Accesses
import StarLib.Rc6.Cipher

/-! # The arrays of RC6 and their bounds

`S` is declared with `R24 - 1` words, the loops use `R24`: the last word of the schedule lies behind the array.
All other indices of the three functions are within the bounds.
-/

namespace StarLib.Rc6
open Foundations
set_option autoImplicit false
set_option maxHeartbeats 250000
set_option maxRecDepth 120000

/-! ## Accesses -/

inductive WordArray
  | S
  | L
  deriving DecidableEq

structure Access where
  array : WordArray
  index : ℕ
  deriving DecidableEq

/-- The words that are declared, `bytes` of the macros being 4. -/
def declared : WordArray → ℕ
  | .S => R24 - 1
  | .L => (32 + 4 - 1) / 4

def InBounds (a : Access) : Prop := a.index < declared a.array

instance (a : Access) : Decidable (InBounds a) := inferInstanceAs (Decidable (_ < _))

/-- The indices of `rc6_key_setup`, read or written. -/
def setupAccesses (S L : ℕ → DWord) (K : ℕ → Byte) (b : ℕ) : List Access :=
  let c := (b + 3) / 4
  let v := if R24 < c then c else R24
  ⟨.L, c - 1⟩ ::
    loopAccesses 0 b (fun n L =>
      let i := b - 1 - n
      Function.update L (i / 4) ((L (i / 4) <<< 8) + (K i).setWidth 32)) (fun n _ => [⟨.L, (b - 1 - n) / 4⟩])
      (Function.update L (c - 1) 0) ++
    ⟨.S, 0⟩ ::
    loopAccesses 1 (2 * r + 4) (fun i S => Function.update S i (S (i - 1) + Q32)) (fun i _ => [⟨.S, i - 1⟩, ⟨.S, i⟩])
      (Function.update S 0 P32) ++
    loopAccesses 0 (3 * v) (fun _ => mixTurn c) (fun _ s => [⟨.S, s.i⟩, ⟨.L, s.j⟩])
      ⟨0, 0, 0, 0, initialS S, keyWords L K b⟩

def encryptAccesses (S : ℕ → DWord) (q : Quad) : List Access :=
  [⟨.S, 0⟩, ⟨.S, 1⟩] ++
    loopAccesses 0 r (fun k => encryptTurn S (2 * k + 2)) (fun k _ => [⟨.S, 2 * k + 2⟩, ⟨.S, 2 * k + 2 + 1⟩])
      { q with B := q.B + S 0, D := q.D + S 1 } ++
    [⟨.S, 2 * r + 2⟩, ⟨.S, 2 * r + 3⟩]

def decryptAccesses (S : ℕ → DWord) (q : Quad) : List Access :=
  [⟨.S, 2 * r + 3⟩, ⟨.S, 2 * r + 2⟩] ++
    loopAccesses 0 r (fun k => decryptTurn S (2 * r - 2 * k)) (fun k _ => [⟨.S, 2 * r - 2 * k + 1⟩, ⟨.S, 2 * r - 2 * k⟩])
      { q with C := q.C - S (2 * r + 3), A := q.A - S (2 * r + 2) } ++
    [⟨.S, 1⟩, ⟨.S, 0⟩]

/-! ## The blocks read nothing else -/

/-- Two schedules agree on the words of `S` in a list. -/
def AgreeOn (accesses : List Access) (S S' : ℕ → DWord) : Prop := ∀ a ∈ accesses, a.array = .S → S a.index = S' a.index

theorem encryptWords_reads {S S' : ℕ → DWord} {q : Quad} (h : AgreeOn (encryptAccesses S q) S S') :
    encryptWords S q = encryptWords S' q := by
  have hword : ∀ i, ⟨.S, i⟩ ∈ encryptAccesses S q → S i = S' i := fun i hi => h _ hi rfl
  have hturns : ∀ q' : Quad, forRange 0 r (fun k => encryptTurn S (2 * k + 2)) q' =
      forRange 0 r (fun k => encryptTurn S' (2 * k + 2)) q' := by
    intro q'
    refine forRange_congr q' fun k s _ hk => ?_
    have hmem : ∀ a ∈ [(⟨.S, 2 * k + 2⟩ : Access), ⟨.S, 2 * k + 2 + 1⟩], a ∈ encryptAccesses S q := fun a ha =>
      List.mem_append_left _ (List.mem_append_right _ (mem_loopAccesses.2 ⟨k, Nat.zero_le k, hk, ha⟩))
    unfold encryptTurn
    rw [hword _ (hmem _ (by simp)), hword _ (hmem _ (by simp))]
  unfold encryptWords
  simp only [hturns]
  rw [hword 0 (by simp [encryptAccesses]), hword 1 (by simp [encryptAccesses]),
    hword (2 * r + 2) (by simp [encryptAccesses]), hword (2 * r + 3) (by simp [encryptAccesses])]

theorem decryptWords_reads {S S' : ℕ → DWord} {q : Quad} (h : AgreeOn (decryptAccesses S q) S S') :
    decryptWords S q = decryptWords S' q := by
  have hword : ∀ i, ⟨.S, i⟩ ∈ decryptAccesses S q → S i = S' i := fun i hi => h _ hi rfl
  have hturns : ∀ q' : Quad, forRange 0 r (fun k => decryptTurn S (2 * r - 2 * k)) q' =
      forRange 0 r (fun k => decryptTurn S' (2 * r - 2 * k)) q' := by
    intro q'
    refine forRange_congr q' fun k s _ hk => ?_
    have hmem : ∀ a ∈ [(⟨.S, 2 * r - 2 * k + 1⟩ : Access), ⟨.S, 2 * r - 2 * k⟩], a ∈ decryptAccesses S q := fun a ha =>
      List.mem_append_left _ (List.mem_append_right _ (mem_loopAccesses.2 ⟨k, Nat.zero_le k, hk, ha⟩))
    unfold decryptTurn
    rw [hword _ (hmem _ (by simp)), hword _ (hmem _ (by simp))]
  unfold decryptWords
  simp only [hturns]
  rw [hword 0 (by simp [decryptAccesses]), hword 1 (by simp [decryptAccesses]),
    hword (2 * r + 2) (by simp [decryptAccesses]), hword (2 * r + 3) (by simp [decryptAccesses])]

/-! ## Bounds -/

/-- At most the word behind `S` is out of bounds. -/
def NearBounds (a : Access) : Prop := InBounds a ∨ a = ⟨.S, R24 - 1⟩

theorem nearBounds_S {i : ℕ} (h : i ≤ 43) : NearBounds ⟨.S, i⟩ := by
  have hR24 : R24 = 44 := rfl
  unfold NearBounds InBounds declared
  simp only [Access.mk.injEq, true_and]
  omega

theorem nearBounds_pair {i j : ℕ} (hi : i ≤ 43) (hj : j ≤ 43) :
    ∀ a ∈ [(⟨.S, i⟩ : Access), ⟨.S, j⟩], NearBounds a := by
  simp only [List.forall_mem_cons]
  exact ⟨nearBounds_S hi, nearBounds_S hj, List.forall_mem_nil _⟩

theorem nearBounds_L {i : ℕ} (h : i < 8) : NearBounds ⟨.L, i⟩ := Or.inl h

theorem setupAccesses_near (S L : ℕ → DWord) (K : ℕ → Byte) {b : ℕ} (hb : 1 ≤ b) (hb' : b ≤ 32) :
    ∀ a ∈ setupAccesses S L K b, NearBounds a := by
  have hr : r = 20 := rfl
  have hR24 : R24 = 44 := rfl
  unfold setupAccesses
  simp only [List.forall_mem_append, List.forall_mem_cons]
  refine ⟨⟨⟨nearBounds_L (by omega), ?_⟩, nearBounds_S (by omega), ?_⟩, ?_⟩
  · -- the bytes of the key
    refine loopAccesses_forall (fun _ _ => True) trivial (fun _ _ _ _ _ => trivial) fun n _ _ hn _ => ?_
    simp only [List.forall_mem_cons]
    exact ⟨nearBounds_L (by omega), List.forall_mem_nil _⟩
  · -- the first values of `S`
    refine loopAccesses_forall (fun _ _ => True) trivial (fun _ _ _ _ _ => trivial) fun i _ _ hi _ => ?_
    exact nearBounds_pair (by omega) (by omega)
  · -- the mixing, whose indices are reduced in every turn
    refine loopAccesses_forall (fun _ (s : Mix) => s.i < R24 ∧ s.j < (b + 3) / 4) ?_ ?_ fun _ s _ _ hs => ?_
    · exact ⟨Nat.succ_pos _, show 0 < (b + 3) / 4 by omega⟩
    · exact fun _ s _ _ _ => ⟨Nat.mod_lt _ (by decide), Nat.mod_lt _ (by omega)⟩
    · simp only [List.forall_mem_cons]
      exact ⟨nearBounds_S (by omega), nearBounds_L (by omega), List.forall_mem_nil _⟩

theorem encryptAccesses_near (S : ℕ → DWord) (q : Quad) : ∀ a ∈ encryptAccesses S q, NearBounds a := by
  have hr : r = 20 := rfl
  unfold encryptAccesses
  simp only [List.forall_mem_append]
  refine ⟨⟨nearBounds_pair (by omega) (by omega), ?_⟩, nearBounds_pair (by omega) (by omega)⟩
  refine loopAccesses_forall (fun _ _ => True) trivial (fun _ _ _ _ _ => trivial) fun k _ _ hk _ => ?_
  exact nearBounds_pair (by omega) (by omega)

theorem decryptAccesses_near (S : ℕ → DWord) (q : Quad) : ∀ a ∈ decryptAccesses S q, NearBounds a := by
  have hr : r = 20 := rfl
  unfold decryptAccesses
  simp only [List.forall_mem_append]
  refine ⟨⟨nearBounds_pair (by omega) (by omega), ?_⟩, nearBounds_pair (by omega) (by omega)⟩
  refine loopAccesses_forall (fun _ _ => True) trivial (fun _ _ _ _ _ => trivial) fun k _ _ hk _ => ?_
  exact nearBounds_pair (by omega) (by omega)

theorem not_inBounds_last : ¬ InBounds ⟨.S, R24 - 1⟩ := Nat.lt_irrefl (R24 - 1)

theorem setupAccesses_last (S L : ℕ → DWord) (K : ℕ → Byte) (b : ℕ) : ⟨.S, R24 - 1⟩ ∈ setupAccesses S L K b := by
  refine List.mem_append_left _ (List.mem_append_right _ (List.mem_cons_of_mem _ ?_))
  exact mem_loopAccesses.2 ⟨R24 - 1, by decide, by decide, by simp⟩

theorem encryptAccesses_last (S : ℕ → DWord) (q : Quad) : ⟨.S, R24 - 1⟩ ∈ encryptAccesses S q :=
  List.mem_append_right _ (List.mem_cons_of_mem _ List.mem_cons_self)

theorem decryptAccesses_last (S : ℕ → DWord) (q : Quad) : ⟨.S, R24 - 1⟩ ∈ decryptAccesses S q :=
  List.mem_append_left _ (List.mem_append_left _ List.mem_cons_self)

/-- No index out of bounds: in the key setup, and then in any block. -/
def Rc6InBounds (S L : ℕ → DWord) (K : ℕ → Byte) (b : ℕ) : Prop :=
  (∀ a ∈ setupAccesses S L K b, InBounds a) ∧
    ∀ q, (∀ a ∈ encryptAccesses (rc6KeySetup S L K b) q, InBounds a) ∧
      ∀ a ∈ decryptAccesses (rc6KeySetup S L K b) q, InBounds a

/-- Every key setup and every block accesses the word behind `S`, and nothing else out of bounds. -/
theorem rc6_bounds (S L : ℕ → DWord) (K : ℕ → Byte) {b : ℕ} (hb : 1 ≤ b) (hb' : b ≤ 32) :
    ¬ Rc6InBounds S L K b ∧
      (∀ a ∈ setupAccesses S L K b, InBounds a ↔ a ≠ ⟨.S, R24 - 1⟩) ∧
      ∀ q, ⟨.S, R24 - 1⟩ ∈ encryptAccesses (rc6KeySetup S L K b) q ∧
        (∀ a ∈ encryptAccesses (rc6KeySetup S L K b) q, InBounds a ↔ a ≠ ⟨.S, R24 - 1⟩) ∧
        ⟨.S, R24 - 1⟩ ∈ decryptAccesses (rc6KeySetup S L K b) q ∧
        ∀ a ∈ decryptAccesses (rc6KeySetup S L K b) q, InBounds a ↔ a ≠ ⟨.S, R24 - 1⟩ := by
  have honly : ∀ a, NearBounds a → (InBounds a ↔ a ≠ ⟨.S, R24 - 1⟩) := by
    intro a hnear
    constructor
    · rintro hin rfl
      exact not_inBounds_last hin
    · exact fun hne => hnear.resolve_right hne
  refine ⟨fun h => not_inBounds_last (h.1 _ (setupAccesses_last S L K b)), ?_, fun q => ⟨?_, ?_, ?_, ?_⟩⟩
  · exact fun a ha => honly a (setupAccesses_near S L K hb hb' a ha)
  · exact encryptAccesses_last _ q
  · exact fun a ha => honly a (encryptAccesses_near _ q a ha)
  · exact decryptAccesses_last _ q
  · exact fun a ha => honly a (decryptAccesses_near _ q a ha)

/-- A key of 16 bytes. -/
theorem rc6_bounds_sample :
    ¬ Rc6InBounds (fun _ => 0) (fun _ => 0) (fun _ => 7) 16 ∧
      (∀ a ∈ setupAccesses (fun _ => 0) (fun _ => 0) (fun _ => 7) 16, InBounds a ↔ a ≠ ⟨.S, R24 - 1⟩) ∧
      ∀ q, ⟨.S, R24 - 1⟩ ∈ encryptAccesses (rc6KeySetup (fun _ => 0) (fun _ => 0) (fun _ => 7) 16) q ∧
        (∀ a ∈ encryptAccesses (rc6KeySetup (fun _ => 0) (fun _ => 0) (fun _ => 7) 16) q, InBounds a ↔ a ≠ ⟨.S, R24 - 1⟩) ∧
        ⟨.S, R24 - 1⟩ ∈ decryptAccesses (rc6KeySetup (fun _ => 0) (fun _ => 0) (fun _ => 7) 16) q ∧
        ∀ a ∈ decryptAccesses (rc6KeySetup (fun _ => 0) (fun _ => 0) (fun _ => 7) 16) q, InBounds a ↔ a ≠ ⟨.S, R24 - 1⟩ :=
  rc6_bounds (fun _ => 0) (fun _ => 0) (fun _ => 7) (by decide) (by decide)

theorem rc6_overrun : ¬ Rc6InBounds (fun _ => 0) (fun _ => 0) (fun _ => 7) 16 :=
  fun h => not_inBounds_last (h.1 _ (setupAccesses_last (fun _ => 0) (fun _ => 0) (fun _ => 7) 16))

/-- The word behind the array reaches the third word of every block. -/
theorem encryptWords_last (S : ℕ → DWord) (x : DWord) (q : Quad) :
    (encryptWords (Function.update S (R24 - 1) x) q).C = (encryptWords S q).C - S (R24 - 1) + x := by
  have hr : r = 20 := rfl
  have hother : ∀ i < R24 - 1, Function.update S (R24 - 1) x i = S i := fun i hi => Function.update_of_ne (by omega) ..
  have hR24 : R24 - 1 = 43 := rfl
  rw [hR24] at hother ⊢
  have hturns : ∀ q : Quad, forRange 0 r (fun k => encryptTurn (Function.update S 43 x) (2 * k + 2)) q =
      forRange 0 r (fun k => encryptTurn S (2 * k + 2)) q := by
    intro q
    refine forRange_congr q fun k s _ hk => ?_
    unfold encryptTurn
    rw [hother (2 * k + 2) (by omega), hother (2 * k + 2 + 1) (by omega)]
  have hlast : 2 * r + 3 = 43 := rfl
  unfold encryptWords
  simp only [hturns, hlast]
  rw [Function.update_self, hother 0 (by decide), hother 1 (by decide), BitVec.add_sub_cancel]

end StarLib.Rc6
