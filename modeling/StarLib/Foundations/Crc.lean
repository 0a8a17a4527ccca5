import Mathlib.Data.Nat.Init
import Mathlib.Tactic.Common

/-! # Cyclic redundancy checks

The register is shifted bit by bit, with the polynomial added when a one falls out (`crcShift`). The
shift is linear over exclusive or, so eight of them split into the byte that falls out, which a table of
256 words can hold, and the rest, which only moves down (`crcByte_table`).
-/

namespace Foundations
set_option autoImplicit false
set_option maxHeartbeats 250000
set_option maxRecDepth 120000

variable {w : ℕ}

def crcShift (poly x : BitVec w) : BitVec w := if x.getLsbD 0 then (x >>> 1) ^^^ poly else x >>> 1

def crcShifts (poly : BitVec w) : ℕ → BitVec w → BitVec w
  | 0, x => x
  | n + 1, x => crcShifts poly n (crcShift poly x)

/-- The register after one more byte. -/
def crcByte (poly r : BitVec w) (b : BitVec 8) : BitVec w := crcShifts poly 8 (r ^^^ b.setWidth w)

/-- The register after some bytes, from zero. -/
def crc (poly : BitVec w) (bytes : List (BitVec 8)) : BitVec w := bytes.foldl (crcByte poly) 0

theorem crcShift_xor (poly x y : BitVec w) : crcShift poly (x ^^^ y) = crcShift poly x ^^^ crcShift poly y := by
  unfold crcShift
  rw [BitVec.getLsbD_xor, BitVec.ushiftRight_xor_distrib]
  cases x.getLsbD 0 with
  | false =>
    cases y.getLsbD 0 with
    | false => rfl
    | true => exact BitVec.xor_assoc ..
  | true =>
    cases y.getLsbD 0 with
    | false =>
      show (x >>> 1) ^^^ (y >>> 1) ^^^ poly = (x >>> 1) ^^^ poly ^^^ (y >>> 1)
      rw [BitVec.xor_assoc, BitVec.xor_comm (y >>> 1), ← BitVec.xor_assoc]
    | true =>
      show (x >>> 1) ^^^ (y >>> 1) = (x >>> 1) ^^^ poly ^^^ ((y >>> 1) ^^^ poly)
      rw [BitVec.xor_comm (y >>> 1) poly, BitVec.xor_assoc (x >>> 1), ← BitVec.xor_assoc poly, BitVec.xor_self,
        BitVec.zero_xor]

theorem crcShifts_xor (poly : BitVec w) (n : ℕ) (x y : BitVec w) :
    crcShifts poly n (x ^^^ y) = crcShifts poly n x ^^^ crcShifts poly n y := by
  induction n generalizing x y with
  | zero => rfl
  | succ n ih =>
    show crcShifts poly n (crcShift poly (x ^^^ y)) = _
    rw [crcShift_xor, ih]
    rfl

/-- As long as zeros fall out the register only moves down. -/
theorem crcShifts_of_low (poly : BitVec w) {n : ℕ} {x : BitVec w} (hlow : ∀ i < n, x.getLsbD i = false) :
    crcShifts poly n x = x >>> n := by
  induction n generalizing x with
  | zero => exact (BitVec.ushiftRight_zero x).symm
  | succ n ih =>
    have hshift : crcShift poly x = x >>> 1 := by
      unfold crcShift
      rw [hlow 0 (Nat.succ_pos n)]
      rfl
    show crcShifts poly n (crcShift poly x) = x >>> (n + 1)
    rw [hshift, ih, ← BitVec.shiftRight_add, Nat.add_comm]
    intro i hi
    rw [BitVec.getLsbD_ushiftRight]
    exact hlow (1 + i) (by omega)

theorem split_low_byte (x : BitVec w) : x = (x.setWidth 8).setWidth w ^^^ ((x >>> 8) <<< 8) := by
  apply BitVec.eq_of_getLsbD_eq
  intro i hi
  simp only [BitVec.getLsbD_xor, BitVec.getLsbD_setWidth, BitVec.getLsbD_shiftLeft, BitVec.getLsbD_ushiftRight, hi,
    decide_true, Bool.true_and]
  by_cases h8 : i < 8
  · simp [h8]
  · have hback : 8 + (i - 8) = i := by omega
    simp [h8, hback]

theorem high_shift_back (x : BitVec w) : ((x >>> 8) <<< 8) >>> 8 = x >>> 8 := by
  apply BitVec.eq_of_getLsbD_eq
  intro i hi
  simp only [BitVec.getLsbD_shiftLeft, BitVec.getLsbD_ushiftRight]
  by_cases hw : 8 + i < w
  · have hsub : 8 + i - 8 = i := by omega
    simp [hw, hsub]
  · have hout : x.getLsbD (8 + i) = false := BitVec.getLsbD_of_ge x _ (by omega)
    simp [hw, hout]

/-- Eight shifts by table: one look-up for the byte that falls out. -/
theorem crcByte_table (poly r : BitVec w) (hw : 8 ≤ w) (b : BitVec 8) (table : BitVec 8 → BitVec w)
    (htable : ∀ i, table i = crcShifts poly 8 (i.setWidth w)) :
    crcByte poly r b = table (r.setWidth 8 ^^^ b) ^^^ (r >>> 8) := by
  have hbyte : (r ^^^ b.setWidth w).setWidth 8 = r.setWidth 8 ^^^ b := by
    rw [BitVec.setWidth_xor, BitVec.setWidth_setWidth_of_le b hw, BitVec.setWidth_eq]
  have hrest : (r ^^^ b.setWidth w) >>> 8 = r >>> 8 := by
    apply BitVec.eq_of_getLsbD_eq
    intro i hi
    simp
  have hlow : ∀ i < 8, ((r >>> 8) <<< 8).getLsbD i = false := by
    intro i hi
    simp [hi]
  unfold crcByte
  rw [split_low_byte (r ^^^ b.setWidth w), crcShifts_xor, hbyte, hrest, htable, crcShifts_of_low poly hlow,
    high_shift_back]

theorem crc_concat (poly : BitVec w) (bytes : List (BitVec 8)) (b : BitVec 8) :
    crc poly (bytes ++ [b]) = crcByte poly (crc poly bytes) b := by
  unfold crc
  rw [List.foldl_append]
  rfl

end Foundations
