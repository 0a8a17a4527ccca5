import StarLib.Foundations.Loop
import StarLib.Foundations.Packed
import StarLib.Foundations.Words

/-! # The RC4 of LicenseLib

`rc4.c`. The position `x` of a context starts at 1 and moves on by one a byte.
-/

namespace StarLib.LicenseLib
open Foundations
set_option autoImplicit false
set_option maxHeartbeats 250000
set_option maxRecDepth 120000

structure AVRC4 where
  state : List Byte
  x : Byte
  y : Byte

/-- `FFSWAP(uint8_t, state[i], state[j])`. -/
def swapCells (state : List Byte) (i j : Byte) : List Byte :=
  (state.set j.toNat (state.getD i.toNat 0)).set i.toNat (state.getD j.toNat 0)

structure Rc4Setup where
  state : List Byte
  y : Byte

/-- A turn of the key loop; `j` is `i % keylen`. -/
def rc4KeyStep (key : List Byte) (keylen i : ℕ) (s : Rc4Setup) : Rc4Setup :=
  let j := i % keylen
  let y := s.y + (s.state.getD i 0 + key.getD j 0)
  ⟨swapCells s.state (BitVec.ofNat 8 i) y, y⟩

/-- `av_rc4_init`; nothing when the number of bits is not a multiple of 8. -/
def avRc4Init (key : List Byte) (keyBits : ℕ) : Option AVRC4 :=
  if keyBits % 8 ≠ 0 then none
  else
    let s := forRange 0 256 (rc4KeyStep key (keyBits / 8)) ⟨(List.range 256).map (BitVec.ofNat 8), 0⟩
    some ⟨s.state, 1, s.state.getD 1 0⟩

structure Rc4Run where
  r : AVRC4
  dst : List Byte

def rc4Step (b : Byte) (r : AVRC4) : AVRC4 × Byte :=
  let sum := r.state.getD r.x.toNat 0 + r.state.getD r.y.toNat 0
  let state := swapCells r.state r.x r.y
  let out := b ^^^ state.getD sum.toNat 0
  let x := r.x + 1
  (⟨state, x, r.y + state.getD x.toNat 0⟩, out)

/-- `av_rc4_crypt`: the context afterwards, and what it writes to `dst`. -/
def avRc4Crypt (r : AVRC4) (src : List Byte) (count : ℕ) : Rc4Run :=
  forRange 0 count (fun i s =>
    let p := rc4Step (src.getD i 0) s.r
    ⟨p.1, s.dst ++ [p.2]⟩) ⟨r, []⟩

theorem avRc4Crypt_x (r : AVRC4) (src : List Byte) (count : ℕ) :
    (avRc4Crypt r src count).r.x = r.x + BitVec.ofNat 8 count := by
  refine forRange_inv (P := fun n (s : Rc4Run) => s.r.x = r.x + BitVec.ofNat 8 n) (Nat.zero_le count) ?_ ?_
  · exact (BitVec.add_zero r.x).symm
  · intro n s _ _ hs
    show s.r.x + 1 = r.x + BitVec.ofNat 8 (n + 1)
    rw [hs, BitVec.ofNat_add, BitVec.add_assoc]
    rfl

theorem avRc4Crypt_length (r : AVRC4) (src : List Byte) (count : ℕ) :
    (avRc4Crypt r src count).dst.length = count := by
  refine forRange_inv (P := fun n (s : Rc4Run) => s.dst.length = n) (Nat.zero_le count) rfl ?_
  intro n s _ _ hs
  show (s.dst ++ [_]).length = n + 1
  rw [List.length_append, hs]
  rfl

/-! ## A run on packed states -/

structure PackedRc4 where
  state : BitVec (8 * 256)
  x : Byte
  y : Byte

def packedSwap (state : BitVec (8 * 256)) (i j : Byte) : BitVec (8 * 256) :=
  packedSet (packedSet state j.toNat (packedGet state i.toNat)) i.toNat (packedGet state j.toNat)

def packedKeyStep (key : List Byte) (keylen i : ℕ) (s : PackedRc4) : PackedRc4 :=
  let y := s.y + (packedGet s.state i + key.getD (i % keylen) 0)
  ⟨packedSwap s.state (BitVec.ofNat 8 i) y, s.x, y⟩

/-- Cell `i` holds `i`. -/
def packedIdentity : BitVec (8 * 256) :=
  forRange 0 256 (fun i s => packedSet s i (BitVec.ofNat 8 i)) 0

def packedStep (b : Byte) (s : PackedRc4) : PackedRc4 × Byte :=
  let sum := packedGet s.state s.x.toNat + packedGet s.state s.y.toNat
  let state := packedSwap s.state s.x s.y
  let x := s.x + 1
  (⟨state, x, s.y + packedGet state x.toNat⟩, b ^^^ packedGet state sum.toNat)

/-- The bytes one after the other, the context in a packed word. -/
def packedCrypt : List Byte → PackedRc4 → List Byte
  | [], _ => []
  | b :: src, s => (packedStep b s).2 :: packedCrypt src (packedStep b s).1

def packedRc4 (key : List Byte) (keylen : ℕ) (src : List Byte) : List Byte :=
  let s := forRange 0 256 (packedKeyStep key keylen) ⟨packedIdentity, 1, 0⟩
  packedCrypt src ⟨s.state, 1, packedGet s.state 1⟩

theorem packs_swap {s : BitVec (8 * 256)} {l : List Byte} (h : Packs s l) (i j : Byte) :
    Packs (packedSwap s i j) (swapCells l i j) := by
  unfold packedSwap swapCells
  rw [h.2 i.toNat i.isLt, h.2 j.toNat j.isLt]
  exact (h.set j.isLt _).set i.isLt _

theorem packs_identity : Packs packedIdentity ((List.range 256).map (BitVec.ofNat 8)) := by
  refine ⟨by simp, fun i hi => ?_⟩
  have hcells := forRange_inv (f := fun i (s : BitVec (8 * 256)) => packedSet s i (BitVec.ofNat 8 i)) (s := 0)
    (P := fun m s => ∀ i < m, packedGet s i = BitVec.ofNat 8 i) (Nat.zero_le 256)
    (fun i hi => absurd hi (Nat.not_lt_zero i)) ?_ i hi
  · rw [packedIdentity, hcells]
    simp [List.getD_eq_getElem?_getD, hi]
  · intro m s _ hm ih i hi
    by_cases him : i = m
    · rw [him, packedGet_set_self s hm]
    · rw [packedGet_set_ne s (Ne.symm him), ih i (by omega)]

/-- A context and its packed form. -/
structure PacksRc4 (s : PackedRc4) (r : AVRC4) : Prop where
  state : Packs s.state r.state
  x : s.x = r.x
  y : s.y = r.y

theorem packedStep_packs {s : PackedRc4} {r : AVRC4} (h : PacksRc4 s r) (b : Byte) :
    PacksRc4 (packedStep b s).1 (rc4Step b r).1 ∧ (packedStep b s).2 = (rc4Step b r).2 := by
  obtain ⟨hstate, hx, hy⟩ := h
  have hget := fun (i : Byte) => hstate.2 i.toNat i.isLt
  have hswap := packs_swap hstate r.x r.y
  have hget' := fun (i : Byte) => hswap.2 i.toNat i.isLt
  unfold packedStep rc4Step
  simp only [hx, hy, ← hget, ← hget']
  exact ⟨⟨hswap, rfl, rfl⟩, trivial⟩

/-- What is written so far, followed by a run on the rest of the source, is the whole run. -/
theorem packedCrypt_eq {s : PackedRc4} {r : AVRC4} (h : PacksRc4 s r) (src : List Byte) :
    (avRc4Crypt r src src.length).dst = packedCrypt src s := by
  have hrun := forRange_inv (f := fun i (t : Rc4Run) =>
      let p := rc4Step (src.getD i 0) t.r
      ⟨p.1, t.dst ++ [p.2]⟩) (s := ⟨r, []⟩)
    (P := fun m t => ∃ s', PacksRc4 s' t.r ∧ t.dst ++ packedCrypt (src.drop m) s' = packedCrypt src s)
    (Nat.zero_le src.length) ⟨s, h, rfl⟩ ?_
  · obtain ⟨s', -, hdst⟩ := hrun
    rw [List.drop_length] at hdst
    exact (List.append_nil _).symm.trans hdst
  · rintro m t _ hm ⟨s', hs', hdst⟩
    obtain ⟨hnext, hout⟩ := packedStep_packs hs' (src.getD m 0)
    refine ⟨_, hnext, ?_⟩
    rw [List.drop_eq_getElem_cons hm] at hdst
    rw [← hdst, ← List.getD_eq_getElem src 0 hm]
    show t.dst ++ [(rc4Step (src.getD m 0) t.r).2] ++ _ = _
    rw [← hout, List.append_assoc]
    rfl

/-- RC4 of a whole buffer, computed on packed states. -/
theorem avRc4_packed (key : List Byte) (keylen : ℕ) (src : List Byte) :
    ∃ r, avRc4Init key (keylen * 8) = some r ∧ (avRc4Crypt r src src.length).dst = packedRc4 key keylen src := by
  have hmod : ¬ keylen * 8 % 8 ≠ 0 := by omega
  have hdiv : keylen * 8 / 8 = keylen := by omega
  have hkey := forRange_rel (f := packedKeyStep key keylen) (g := rc4KeyStep key keylen)
    (s := ⟨packedIdentity, 1, 0⟩) (t := ⟨(List.range 256).map (BitVec.ofNat 8), 0⟩)
    (fun _ s t => Packs s.state t.state ∧ s.y = t.y) (Nat.zero_le 256) ⟨packs_identity, rfl⟩ ?_
  · unfold avRc4Init packedRc4
    rw [if_neg hmod, hdiv]
    simp only
    generalize forRange 0 256 (packedKeyStep key keylen) ⟨packedIdentity, 1, 0⟩ = s at hkey ⊢
    generalize forRange 0 256 (rc4KeyStep key keylen) ⟨(List.range 256).map (BitVec.ofNat 8), 0⟩ = t at hkey ⊢
    exact ⟨_, rfl, packedCrypt_eq ⟨hkey.1, rfl, (hkey.1.2 1 (by decide)).symm⟩ src⟩
  · rintro i s t _ hi ⟨hstate, hy⟩
    unfold packedKeyStep rc4KeyStep
    simp only [hy, hstate.2 i hi]
    exact ⟨packs_swap hstate _ _, trivial⟩

end StarLib.LicenseLib
