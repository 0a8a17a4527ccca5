import StarLib.Des.Mirror

/-! # `Des_Go` and `av_des_crypt` over whole buffers

A key of at most eight bytes, zero padded, and `n` blocks of eight bytes.
-/

namespace StarLib.Des
open Foundations LicenseLib DesAgreement
set_option autoImplicit false
set_option maxHeartbeats 250000
set_option maxRecDepth 120000

/-- `Des_Go` writes what `av_des_crypt` writes for the same key and the same blocks. -/
def Agrees (r : DesRun) (Out In n : ℕ) (Key : ℕ → Byte) (keylen : ℕ) : Prop :=
  (avDesInit ((List.range 8).map (deskeyOf Key keylen)) 64).map
      (fun d => avDesCrypt d ((List.range (8 * n)).map fun p => r.mem (In + p)) n false) =
    some ((List.range (8 * n)).map fun p => (desGo r Out In (BitVec.ofNat 32 (8 * n)) Key keylen ENCRYPT).2.mem (Out + p))

section Buffers
variable {Out In n keylen : ℕ} (hlen : keylen ≤ 8) (hOut : Out ≠ 0) (hIn : In ≠ 0) (hmax : 8 * n ≤ 2 ^ 31 - 8)
  (hplace : SameOrApart Out In n)

include hlen hOut hIn hmax hplace

/-- What `Des_Go` writes: bytes and key backwards, under the changed block function. -/
theorem desGo_mirrored (r : DesRun) (Key : ℕ → Byte) {i b : ℕ} (hi : i < n) (hb : b < 8) :
    (desGo r Out In (BitVec.ofNat 32 (8 * n)) Key keylen ENCRYPT).2.mem (Out + (8 * i + b)) =
      (LicenseLib.blockByte (mirroredEncdec (readBlock (mirrored (fun b => r.mem (In + (8 * i + b))) 8) 0)
        (genRoundkeys (readBlock (mirrored (deskeyOf Key keylen) 8) 0))) b).reverse := by
  have htoNat : (BitVec.ofNat 32 (8 * n)).toNat = 8 * n := Nat.mod_eq_of_lt (by omega)
  have hblocks : blocksOf (BitVec.ofNat 32 (8 * n)) = n := by
    unfold blocksOf
    omega
  have hsingle : ∀ M, goBlock Key keylen ENCRYPT M = desBits (keysOf (deskeyOf Key keylen)) ENCRYPT M := fun M => if_neg (by omega)
  have hmem : (desGo r Out In (BitVec.ofNat 32 (8 * n)) Key keylen ENCRYPT).2.mem =
      mapBlocks (goBlock Key keylen ENCRYPT) Out In (blocksOf (BitVec.ofNat 32 (8 * n))) r.mem :=
    desGo_mem r hOut hIn (by omega) (by omega) Key keylen ENCRYPT
  have hblock := mapBlocks_at (goBlock Key keylen ENCRYPT) hplace r.mem hi
  have hread : blockAt r.mem (In + 8 * i) = (readBlock (mirrored (fun b => r.mem (In + (8 * i + b))) 8) 0).reverse := by
    rw [readBlock_mirrored, BitVec.reverse_reverse_eq]
    exact blockOf_congr fun b _ => congrArg r.mem (Nat.add_assoc In (8 * i) b)
  have hbyte := blockByte_blockAt (mapBlocks (goBlock Key keylen ENCRYPT) Out In n r.mem) (Out + 8 * i) hb
  rw [hmem, hblocks, ← Nat.add_assoc, ← hbyte, hblock, hsingle, hread, desBits_mirrored, blockByte_reverse _ hb]

end Buffers

/-- Where the two agree, the bytes do. -/
theorem Agrees.byte {r : DesRun} {Out In n keylen : ℕ} {Key : ℕ → Byte} (h : Agrees r Out In n Key keylen) {i b : ℕ} (hi : i < n)
    (hb : b < 8) : (desGo r Out In (BitVec.ofNat 32 (8 * n)) Key keylen ENCRYPT).2.mem (Out + (8 * i + b)) =
      LicenseLib.blockByte (desEncdec (readBlock ((List.range (8 * n)).map fun p => r.mem (In + p)) (8 * i))
        (genRoundkeys (readBlock ((List.range 8).map (deskeyOf Key keylen)) 0)) false) b := by
  have hinit : ∀ key, avDesInit key 64 = some ⟨[genRoundkeys (readBlock key 0)], false⟩ := fun _ => rfl
  have hblock : ∀ (K : List QWord) (x : QWord), avDesBlock ⟨[K], false⟩ x false = desEncdec x K false := fun _ _ => rfl
  have hrange : 8 * i + b < 8 * n := by omega
  unfold Agrees at h
  rw [hinit, Option.map_some, Option.some.injEq] at h
  have hbyte := congrArg (List.getD · (8 * i + b) 0) h
  rw [avDesCrypt_getD _ _ _ hi hb, hblock, List.getD_eq_getElem?_getD, List.getElem?_map, List.getElem?_range hrange] at hbyte
  exact hbyte.symm

/-! ## A key and a block of zeros -/

theorem readBlock_zeros {l : List Byte} (off : ℕ) (h : ∀ x ∈ l, x = 0) : readBlock l off = 0 := by
  refine readBlock_eq fun i _ => ?_
  have hbyte : l.getD (off + i) 0 = 0 := by
    rw [List.getD_eq_getElem?_getD]
    cases hget : l[off + i]? with
    | none => rfl
    | some x => exact h x (List.mem_of_getElem? hget)
  rw [hbyte]
  apply BitVec.eq_of_getLsbD_eq
  intro t ht
  simp [LicenseLib.blockByte]

theorem zeros_map {l : List ℕ} {f : ℕ → Byte} (h : ∀ i, f i = 0) : ∀ x ∈ l.map f, x = 0 := by
  intro x hx
  obtain ⟨i, _, rfl⟩ := List.mem_map.1 hx
  exact h i

/-- The first bytes of the two ciphertexts. -/
theorem zeros_bytes : (LicenseLib.blockByte (mirroredEncdec 0 (genRoundkeys 0)) 0).reverse ≠
    LicenseLib.blockByte (desEncdec 0 (genRoundkeys 0) false) 0 := by
  decide

/-- Static objects and memory without a bit set. -/
def zeroRun : DesRun := ⟨blank, fun _ => 0⟩

theorem zeros_differ {Out In n keylen : ℕ} (hlen : keylen ≤ 8) (hOut : Out ≠ 0) (hIn : In ≠ 0) (hmax : 8 * n ≤ 2 ^ 31 - 8)
    (hplace : SameOrApart Out In n) (hn : 0 < n) : ¬ Agrees zeroRun Out In n (fun _ => 0) keylen := by
  intro h
  have hkey : ∀ i, deskeyOf (fun _ => 0) keylen i = 0 := fun i => ite_self 0
  have hreverse : (0 : Byte).reverse = 0 := by decide
  have hgo := desGo_mirrored hlen hOut hIn hmax hplace zeroRun (fun _ => 0) hn (show 0 < 8 by decide)
  have hinput : readBlock (mirrored (fun b => zeroRun.mem (In + (8 * 0 + b))) 8) 0 = 0 :=
    readBlock_zeros 0 (zeros_map fun _ => hreverse)
  have hmirrored : readBlock (mirrored (deskeyOf (fun _ => 0) keylen) 8) 0 = 0 :=
    readBlock_zeros 0 (zeros_map fun i => (congrArg BitVec.reverse (hkey i)).trans hreverse)
  rw [hinput, hmirrored] at hgo
  have hav := h.byte hn (show 0 < 8 by decide)
  have hsource : readBlock ((List.range (8 * n)).map fun p => zeroRun.mem (In + p)) (8 * 0) = 0 :=
    readBlock_zeros _ (zeros_map fun _ => rfl)
  rw [hgo, hsource, readBlock_zeros _ (zeros_map hkey)] at hav
  exact zeros_bytes hav

theorem agrees_empty (r : DesRun) (Out In : ℕ) (Key : ℕ → Byte) (keylen : ℕ) : Agrees r Out In 0 Key keylen := rfl

/-- The two agree for all keys and blocks when there is no block; and what `Des_Go` does write. -/
theorem agrees_iff {Out In n keylen : ℕ} (hlen : keylen ≤ 8) (hOut : Out ≠ 0) (hIn : In ≠ 0) (hmax : 8 * n ≤ 2 ^ 31 - 8)
    (hplace : SameOrApart Out In n) :
    ((∀ r Key, Agrees r Out In n Key keylen) ↔ n = 0) ∧
    ∀ (r : DesRun) (Key : ℕ → Byte), ∀ i < n, ∀ b < 8,
      (desGo r Out In (BitVec.ofNat 32 (8 * n)) Key keylen ENCRYPT).2.mem (Out + (8 * i + b)) =
        (LicenseLib.blockByte (mirroredEncdec (readBlock (mirrored (fun b => r.mem (In + (8 * i + b))) 8) 0)
          (genRoundkeys (readBlock (mirrored (deskeyOf Key keylen) 8) 0))) b).reverse := by
  refine ⟨⟨fun hall => ?_, ?_⟩, fun r Key i hi b hb => desGo_mirrored hlen hOut hIn hmax hplace r Key hi hb⟩
  · by_contra hn
    exact zeros_differ hlen hOut hIn hmax hplace (Nat.pos_of_ne_zero hn) (hall zeroRun fun _ => 0)
  · rintro rfl r Key
    exact agrees_empty r Out In Key keylen

/-- Two blocks encrypted in place with a key of three bytes. -/
theorem agrees_sample : ((∀ r Key, Agrees r 32 32 2 Key 3) ↔ 2 = 0) ∧
    (desGo zeroRun 32 32 (BitVec.ofNat 32 (8 * 2)) (fun _ => 0) 3 ENCRYPT).2.mem (32 + (8 * 1 + 5)) =
      (LicenseLib.blockByte (mirroredEncdec (readBlock (mirrored (fun b => zeroRun.mem (32 + (8 * 1 + b))) 8) 0)
        (genRoundkeys (readBlock (mirrored (deskeyOf (fun _ => 0) 3) 8) 0))) 5).reverse :=
  have hboth := @agrees_iff 32 32 2 3 (by decide) (by decide) (by decide) (by decide) (Or.inl rfl)
  ⟨hboth.1, hboth.2 zeroRun (fun _ => 0) 1 (by decide) 5 (by decide)⟩

theorem zeros_not_standard : ¬ Agrees zeroRun 32 64 1 (fun _ => 0) 8 :=
  zeros_differ (by decide) (by decide) (by decide) (by decide) (Or.inr (Or.inl (by decide))) (by decide)

end StarLib.Des
