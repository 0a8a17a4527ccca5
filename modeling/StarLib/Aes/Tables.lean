import StarLib.Foundations.Loop
import StarLib.Foundations.Packed
import StarLib.Rijndael.TableFacts
import Mathlib.Data.List.Rotate

/-! # The tables that `gentables` computes

`AES.cpp` keeps no literal tables: powers and logarithms of the generator `3`, the substitution box
and its inverse, the round constants and the two round tables are filled by loops. The loops are
embedded as they stand; what later modules use of the result is the short list of facts at the end.
-/

namespace StarLib.Aes
open Foundations StarLib.Rijndael
set_option autoImplicit false
set_option maxHeartbeats 250000
set_option maxRecDepth 120000

/-- The static tables of `AES.cpp`. -/
structure Tables where
  fbsub : List Byte
  rbsub : List Byte
  ptab : List Byte
  ltab : List Byte
  ftable : List DWord
  rtable : List DWord
  rco : List DWord

def inCo : List Byte := [0xB, 0xD, 0x9, 0xE]

def rotlByte (x : Byte) : Byte := (x >>> 7) ||| (x <<< 1)

def xtime (a : Byte) : Byte :=
  let b : Byte := if a &&& 0x80 ≠ 0 then 0x1B else 0
  (a <<< 1) ^^^ b

def pack (b0 b1 b2 b3 : Byte) : DWord :=
  (b3.setWidth 32 <<< 24) ||| (b2.setWidth 32 <<< 16) ||| (b1.setWidth 32 <<< 8) ||| b0.setWidth 32

def unpack (a : DWord) : List Byte :=
  [a.setWidth 8, (a >>> 8).setWidth 8, (a >>> 16).setWidth 8, (a >>> 24).setWidth 8]

/-- `bmul`: antilogarithm of the sum of the logarithms. -/
def bmul (ptab ltab : List Byte) (x y : Byte) : Byte :=
  if x ≠ 0 ∧ y ≠ 0 then ptab.getD (((entry ltab x).toNat + (entry ltab y).toNat) % 255) 0 else 0

/-- `ByteSub`: multiplicative inverse, then the affine map. -/
def byteSub (ptab ltab : List Byte) (x : Byte) : Byte :=
  let y := ptab.getD (255 - (entry ltab x).toNat) 0
  let x := rotlByte y
  let y := y ^^^ x
  let x := rotlByte x
  let y := y ^^^ x
  let x := rotlByte x
  let y := y ^^^ x
  let x := rotlByte x
  let y := y ^^^ x
  y ^^^ 0x63

/-! ## The loops of `gentables` -/

def powLogBody (i : ℕ) (s : List Byte × List Byte) : List Byte × List Byte :=
  let p := s.1.getD (i - 1) 0
  let v := p ^^^ xtime p
  (s.1.set i v, s.2.set v.toNat (BitVec.ofNat 8 i))

def powLog : List Byte × List Byte :=
  let ltab := (List.replicate 256 (0 : Byte)).set 0 0
  let ptab := (List.replicate 256 (0 : Byte)).set 0 1
  let ltab := ltab.set 1 0
  let ptab := ptab.set 1 3
  let ltab := ltab.set 3 1
  forRange 2 256 powLogBody (ptab, ltab)

def subBody (ptab ltab : List Byte) (i : ℕ) (s : List Byte × List Byte) : List Byte × List Byte :=
  let y := byteSub ptab ltab (BitVec.ofNat 8 i)
  (s.1.set i y, s.2.set y.toNat (BitVec.ofNat 8 i))

def subBoxes (ptab ltab : List Byte) : List Byte × List Byte :=
  let fbsub := (List.replicate 256 (0 : Byte)).set 0 0x63
  let rbsub := (List.replicate 256 (0 : Byte)).set 0x63 0
  forRange 1 256 (subBody ptab ltab) (fbsub, rbsub)

def rcoBody (i : ℕ) (s : List DWord × Byte) : List DWord × Byte :=
  (s.1.set i (s.2.setWidth 32), xtime s.2)

def rcoTable : List DWord := (forRange 0 30 rcoBody (List.replicate 30 0, 1)).1

def ftableEntry (y : Byte) : DWord := pack (xtime y) y y (y ^^^ xtime y)

def rtableEntry (ptab ltab : List Byte) (y : Byte) : DWord :=
  pack (bmul ptab ltab (inCo.getD 3 0) y) (bmul ptab ltab (inCo.getD 2 0) y)
    (bmul ptab ltab (inCo.getD 1 0) y) (bmul ptab ltab (inCo.getD 0 0) y)

def roundTableBody (ptab ltab fbsub rbsub : List Byte) (i : ℕ) (s : List DWord × List DWord) :
    List DWord × List DWord :=
  (s.1.set i (ftableEntry (fbsub.getD i 0)), s.2.set i (rtableEntry ptab ltab (rbsub.getD i 0)))

def roundTables (ptab ltab fbsub rbsub : List Byte) : List DWord × List DWord :=
  forRange 0 256 (roundTableBody ptab ltab fbsub rbsub) (List.replicate 256 0, List.replicate 256 0)

def gentables : Tables :=
  let pl := powLog
  let sub := subBoxes pl.1 pl.2
  let rounds := roundTables pl.1 pl.2 sub.1 sub.2
  { fbsub := sub.1, rbsub := sub.2, ptab := pl.1, ltab := pl.2, ftable := rounds.1,
    rtable := rounds.2, rco := rcoTable }

/-! ## What the loops compute -/

def powers : List Byte :=
  [
    0x01, 0x03, 0x05, 0x0f, 0x11, 0x33, 0x55, 0xff, 0x1a, 0x2e, 0x72, 0x96, 0xa1, 0xf8, 0x13, 0x35,
    0x5f, 0xe1, 0x38, 0x48, 0xd8, 0x73, 0x95, 0xa4, 0xf7, 0x02, 0x06, 0x0a, 0x1e, 0x22, 0x66, 0xaa,
    0xe5, 0x34, 0x5c, 0xe4, 0x37, 0x59, 0xeb, 0x26, 0x6a, 0xbe, 0xd9, 0x70, 0x90, 0xab, 0xe6, 0x31,
    0x53, 0xf5, 0x04, 0x0c, 0x14, 0x3c, 0x44, 0xcc, 0x4f, 0xd1, 0x68, 0xb8, 0xd3, 0x6e, 0xb2, 0xcd,
    0x4c, 0xd4, 0x67, 0xa9, 0xe0, 0x3b, 0x4d, 0xd7, 0x62, 0xa6, 0xf1, 0x08, 0x18, 0x28, 0x78, 0x88,
    0x83, 0x9e, 0xb9, 0xd0, 0x6b, 0xbd, 0xdc, 0x7f, 0x81, 0x98, 0xb3, 0xce, 0x49, 0xdb, 0x76, 0x9a,
    0xb5, 0xc4, 0x57, 0xf9, 0x10, 0x30, 0x50, 0xf0, 0x0b, 0x1d, 0x27, 0x69, 0xbb, 0xd6, 0x61, 0xa3,
    0xfe, 0x19, 0x2b, 0x7d, 0x87, 0x92, 0xad, 0xec, 0x2f, 0x71, 0x93, 0xae, 0xe9, 0x20, 0x60, 0xa0,
    0xfb, 0x16, 0x3a, 0x4e, 0xd2, 0x6d, 0xb7, 0xc2, 0x5d, 0xe7, 0x32, 0x56, 0xfa, 0x15, 0x3f, 0x41,
    0xc3, 0x5e, 0xe2, 0x3d, 0x47, 0xc9, 0x40, 0xc0, 0x5b, 0xed, 0x2c, 0x74, 0x9c, 0xbf, 0xda, 0x75,
    0x9f, 0xba, 0xd5, 0x64, 0xac, 0xef, 0x2a, 0x7e, 0x82, 0x9d, 0xbc, 0xdf, 0x7a, 0x8e, 0x89, 0x80,
    0x9b, 0xb6, 0xc1, 0x58, 0xe8, 0x23, 0x65, 0xaf, 0xea, 0x25, 0x6f, 0xb1, 0xc8, 0x43, 0xc5, 0x54,
    0xfc, 0x1f, 0x21, 0x63, 0xa5, 0xf4, 0x07, 0x09, 0x1b, 0x2d, 0x77, 0x99, 0xb0, 0xcb, 0x46, 0xca,
    0x45, 0xcf, 0x4a, 0xde, 0x79, 0x8b, 0x86, 0x91, 0xa8, 0xe3, 0x3e, 0x42, 0xc6, 0x51, 0xf3, 0x0e,
    0x12, 0x36, 0x5a, 0xee, 0x29, 0x7b, 0x8d, 0x8c, 0x8f, 0x8a, 0x85, 0x94, 0xa7, 0xf2, 0x0d, 0x17,
    0x39, 0x4b, 0xdd, 0x7c, 0x84, 0x97, 0xa2, 0xfd, 0x1c, 0x24, 0x6c, 0xb4, 0xc7, 0x52, 0xf6, 0x01]

/-- The logarithms to the base `3`; the loop leaves `255` at `1`, since `3^255 = 1`. -/
def logs : List Byte :=
  [
    0x00, 0xff, 0x19, 0x01, 0x32, 0x02, 0x1a, 0xc6, 0x4b, 0xc7, 0x1b, 0x68, 0x33, 0xee, 0xdf, 0x03,
    0x64, 0x04, 0xe0, 0x0e, 0x34, 0x8d, 0x81, 0xef, 0x4c, 0x71, 0x08, 0xc8, 0xf8, 0x69, 0x1c, 0xc1,
    0x7d, 0xc2, 0x1d, 0xb5, 0xf9, 0xb9, 0x27, 0x6a, 0x4d, 0xe4, 0xa6, 0x72, 0x9a, 0xc9, 0x09, 0x78,
    0x65, 0x2f, 0x8a, 0x05, 0x21, 0x0f, 0xe1, 0x24, 0x12, 0xf0, 0x82, 0x45, 0x35, 0x93, 0xda, 0x8e,
    0x96, 0x8f, 0xdb, 0xbd, 0x36, 0xd0, 0xce, 0x94, 0x13, 0x5c, 0xd2, 0xf1, 0x40, 0x46, 0x83, 0x38,
    0x66, 0xdd, 0xfd, 0x30, 0xbf, 0x06, 0x8b, 0x62, 0xb3, 0x25, 0xe2, 0x98, 0x22, 0x88, 0x91, 0x10,
    0x7e, 0x6e, 0x48, 0xc3, 0xa3, 0xb6, 0x1e, 0x42, 0x3a, 0x6b, 0x28, 0x54, 0xfa, 0x85, 0x3d, 0xba,
    0x2b, 0x79, 0x0a, 0x15, 0x9b, 0x9f, 0x5e, 0xca, 0x4e, 0xd4, 0xac, 0xe5, 0xf3, 0x73, 0xa7, 0x57,
    0xaf, 0x58, 0xa8, 0x50, 0xf4, 0xea, 0xd6, 0x74, 0x4f, 0xae, 0xe9, 0xd5, 0xe7, 0xe6, 0xad, 0xe8,
    0x2c, 0xd7, 0x75, 0x7a, 0xeb, 0x16, 0x0b, 0xf5, 0x59, 0xcb, 0x5f, 0xb0, 0x9c, 0xa9, 0x51, 0xa0,
    0x7f, 0x0c, 0xf6, 0x6f, 0x17, 0xc4, 0x49, 0xec, 0xd8, 0x43, 0x1f, 0x2d, 0xa4, 0x76, 0x7b, 0xb7,
    0xcc, 0xbb, 0x3e, 0x5a, 0xfb, 0x60, 0xb1, 0x86, 0x3b, 0x52, 0xa1, 0x6c, 0xaa, 0x55, 0x29, 0x9d,
    0x97, 0xb2, 0x87, 0x90, 0x61, 0xbe, 0xdc, 0xfc, 0xbc, 0x95, 0xcf, 0xcd, 0x37, 0x3f, 0x5b, 0xd1,
    0x53, 0x39, 0x84, 0x3c, 0x41, 0xa2, 0x6d, 0x47, 0x14, 0x2a, 0x9e, 0x5d, 0x56, 0xf2, 0xd3, 0xab,
    0x44, 0x11, 0x92, 0xd9, 0x23, 0x20, 0x2e, 0x89, 0xb4, 0x7c, 0xb8, 0x26, 0x77, 0x99, 0xe3, 0xa5,
    0x67, 0x4a, 0xed, 0xde, 0xc5, 0x31, 0xfe, 0x18, 0x0d, 0x63, 0x8c, 0x80, 0xc0, 0xf7, 0x70, 0x07]

/-! ### The two loops on packed tables -/

theorem powers_packs : Packs (packList 256 powers) powers := packs_packList rfl

theorem logs_packs : Packs (packList 256 logs) logs := packs_packList rfl

def packedPowLogBody (i : ℕ) (s : BitVec (8 * 256) × BitVec (8 * 256)) : BitVec (8 * 256) × BitVec (8 * 256) :=
  let v := packedGet s.1 (i - 1) ^^^ xtime (packedGet s.1 (i - 1))
  (packedSet s.1 i v, packedSet s.2 v.toNat (BitVec.ofNat 8 i))

/-- The two tables before the loop. -/
def powLogStart : List Byte × List Byte :=
  (((List.replicate 256 0).set 0 1).set 1 3, (((List.replicate 256 0).set 0 0).set 1 0).set 3 1)

theorem powLog_eq : powLog = (powers, logs) := by
  have hrun := forRange_rel (f := packedPowLogBody) (g := powLogBody)
    (s := (packList 256 powLogStart.1, packList 256 powLogStart.2)) (t := powLogStart)
    (fun _ s t => Packs s.1 t.1 ∧ Packs s.2 t.2) (by decide : 2 ≤ 256)
    ⟨packs_packList (by decide), packs_packList (by decide)⟩ ?_
  · have hword : forRange 2 256 packedPowLogBody (packList 256 powLogStart.1, packList 256 powLogStart.2) =
        (packList 256 powers, packList 256 logs) := by decide +kernel
    rw [hword] at hrun
    exact Prod.ext (hrun.1.unique powers_packs) (hrun.2.unique logs_packs)
  · rintro i s t hi hi' ⟨h1, h2⟩
    unfold packedPowLogBody powLogBody
    rw [h1.2 (i - 1) (by omega)]
    exact ⟨h1.set hi' _, h2.set (BitVec.isLt _) _⟩

/-- The affine map of `ByteSub`. -/
def affine (y : Byte) : Byte :=
  y ^^^ rotlByte y ^^^ rotlByte (rotlByte y) ^^^ rotlByte (rotlByte (rotlByte y)) ^^^
    rotlByte (rotlByte (rotlByte (rotlByte y))) ^^^ 0x63

def packedSubBody (i : ℕ) (s : BitVec (8 * 256) × BitVec (8 * 256)) : BitVec (8 * 256) × BitVec (8 * 256) :=
  let y := affine (packedGet (packList 256 powers) (255 - (packedGet (packList 256 logs) i).toNat))
  (packedSet s.1 i y, packedSet s.2 y.toNat (BitVec.ofNat 8 i))

theorem byteSub_packed {i : ℕ} (hi : i < 256) : byteSub powers logs (BitVec.ofNat 8 i) =
    affine (packedGet (packList 256 powers) (255 - (packedGet (packList 256 logs) i).toNat)) := by
  have hlog : entry logs (BitVec.ofNat 8 i) = packedGet (packList 256 logs) i := by
    rw [entry, BitVec.toNat_ofNat, Nat.mod_eq_of_lt (show i < 2 ^ 8 from hi), logs_packs.2 i hi]
  unfold byteSub
  rw [hlog, powers_packs.2 _ (by omega)]
  rfl

/-- The two boxes before the loop. -/
def subBoxesStart : List Byte × List Byte :=
  ((List.replicate 256 0).set 0 0x63, (List.replicate 256 0).set 0x63 0)

theorem subBoxes_eq : subBoxes powers logs = (smS, smSi) := by
  have hrun := forRange_rel (f := packedSubBody) (g := subBody powers logs)
    (s := (packList 256 subBoxesStart.1, packList 256 subBoxesStart.2)) (t := subBoxesStart)
    (fun _ s t => Packs s.1 t.1 ∧ Packs s.2 t.2) (by decide : 1 ≤ 256)
    ⟨packs_packList (by decide), packs_packList (by decide)⟩ ?_
  · have hword : forRange 1 256 packedSubBody (packList 256 subBoxesStart.1, packList 256 subBoxesStart.2) =
        (packList 256 smS, packList 256 smSi) := by decide +kernel
    rw [hword] at hrun
    exact Prod.ext (hrun.1.unique (packs_packList smS_length)) (hrun.2.unique (packs_packList smSi_length))
  · rintro i s t - hi ⟨h1, h2⟩
    unfold packedSubBody subBody
    rw [byteSub_packed hi]
    exact ⟨h1.set hi _, h2.set (BitVec.isLt _) _⟩

theorem rcoTable_eq : rcoTable = smRcon.map fun y => y.setWidth 32 := by decide

theorem powers_logs {y : Byte} (hy : y ≠ 0) : powers.getD ((entry logs y).toNat % 255) 0 = y := by
  have hpacked : ∀ y : Byte, y ≠ 0 →
      packedGet (packList 256 powers) ((packedGet (packList 256 logs) y.toNat).toNat % 255) = y := by
    decide +kernel
  have hlt : (packedGet (packList 256 logs) y.toNat).toNat % 255 < 256 := by omega
  rw [entry, logs_packs.2 _ y.isLt, powers_packs.2 _ hlt, hpacked y hy]

/-- `bmul` by `c` is the map that moves the powers of `3` on by the logarithm of `c`. -/
theorem bmul_of_rotate {c : Byte} {f : Byte → Byte} (hc : c ≠ 0) (hzero : f 0 = 0)
    (hrot : (powers.take 255).map f = (powers.take 255).rotate (entry logs c).toNat) (y : Byte) :
    bmul powers logs c y = f y := by
  by_cases hy : y = 0
  · subst hy
    rw [hzero]
    simp [bmul]
  · have hlen : (powers.take 255).length = 255 := rfl
    have hj : (entry logs y).toNat % 255 < 255 := Nat.mod_lt _ (by omega)
    have hk : ((entry logs y).toNat % 255 + (entry logs c).toNat) % 255 < 255 := Nat.mod_lt _ (by omega)
    have hget := congrArg (fun l => l[(entry logs y).toNat % 255]?.getD 0) hrot
    have hj' : (entry logs y).toNat % 255 < (powers.take 255).length := by rw [hlen]; exact hj
    rw [List.getElem?_map, List.getElem?_rotate hj', hlen, List.getElem?_take_of_lt hj,
      List.getElem?_take_of_lt hk] at hget
    have hpow := powers_logs hy
    have hfull : powers.length = 256 := rfl
    have hsome : powers[(entry logs y).toNat % 255]? = some y := by
      rw [List.getD_eq_getElem _ _ (by omega)] at hpow
      rw [List.getElem?_eq_getElem (by omega), hpow]
    rw [hsome, Option.map_some, Option.getD_some] at hget
    have hmod : ((entry logs c).toNat + (entry logs y).toNat) % 255 =
        ((entry logs y).toNat % 255 + (entry logs c).toNat) % 255 := by omega
    simp only [bmul, hc, hy, ne_eq, not_false_eq_true, and_self, if_true, hmod,
      List.getD_eq_getElem?_getD, hget]

/-- The four coefficients of `InCo`, as rotations of the powers. -/
theorem inCo_rotations :
    (powers.take 255).map (Column.mul14 double) = (powers.take 255).rotate (entry logs 0xE).toNat ∧
      (powers.take 255).map (Column.mul9 double) = (powers.take 255).rotate (entry logs 0x9).toNat ∧
      (powers.take 255).map (Column.mul13 double) = (powers.take 255).rotate (entry logs 0xD).toNat ∧
      (powers.take 255).map (Column.mul11 double) = (powers.take 255).rotate (entry logs 0xB).toNat := by
  decide

theorem bmul_fourteen : ∀ y, bmul powers logs 0xE y = Column.mul14 double y :=
  bmul_of_rotate (by decide) (by decide) inCo_rotations.1

theorem bmul_nine : ∀ y, bmul powers logs 0x9 y = Column.mul9 double y :=
  bmul_of_rotate (by decide) (by decide) inCo_rotations.2.1

theorem bmul_thirteen : ∀ y, bmul powers logs 0xD y = Column.mul13 double y :=
  bmul_of_rotate (by decide) (by decide) inCo_rotations.2.2.1

theorem bmul_eleven : ∀ y, bmul powers logs 0xB y = Column.mul11 double y :=
  bmul_of_rotate (by decide) (by decide) inCo_rotations.2.2.2

theorem xtime_eq_double (a : Byte) : xtime a = double a := by
  have hmsb : (a &&& 0x80 ≠ 0) = (a.msb = true) := by
    revert a; decide
  simp only [xtime, double, hmsb]

theorem pack_eq_ofBytes (b0 b1 b2 b3 : Byte) : pack b0 b1 b2 b3 = ofBytes b0 b1 b2 b3 :=
  pack_or b0 b1 b2 b3

theorem roundTables_eq (ptab ltab fbsub rbsub : List Byte) :
    roundTables ptab ltab fbsub rbsub =
      ((List.range 256).map fun i => ftableEntry (fbsub.getD i 0),
        (List.range 256).map fun i => rtableEntry ptab ltab (rbsub.getD i 0)) := by
  have h := forRange_prod 0 256
    (fun i (s : List DWord) => s.set i (ftableEntry (fbsub.getD i 0)))
    (fun i (s : List DWord) => s.set i (rtableEntry ptab ltab (rbsub.getD i 0)))
    (List.replicate 256 0) (List.replicate 256 0)
  unfold roundTables roundTableBody
  rw [h, forRange_set _ 256 _ (by simp), forRange_set _ 256 _ (by simp)]
  simp

theorem entry_range_map {w : ℕ} (f : ℕ → BitVec w) (x : Byte) :
    entry ((List.range 256).map f) x = f x.toNat := by
  have hx : x.toNat < 256 := x.isLt
  simp [entry, List.getD_eq_getElem?_getD, hx]

/-! ## The tables after `gentables` -/

theorem gentables_fbsub : gentables.fbsub = smS := by
  simp only [gentables, powLog_eq, subBoxes_eq]

theorem gentables_rbsub : gentables.rbsub = smSi := by
  simp only [gentables, powLog_eq, subBoxes_eq]

theorem gentables_rco : gentables.rco = smRcon.map fun y => y.setWidth 32 := rcoTable_eq

theorem gentables_ftable (x : Byte) : entry gentables.ftable x =
    ofBytes (double (sBox x)) (sBox x) (sBox x) (sBox x ^^^ double (sBox x)) := by
  simp only [gentables, powLog_eq, subBoxes_eq, roundTables_eq, entry_range_map, ftableEntry,
    pack_eq_ofBytes, xtime_eq_double]
  rfl

theorem gentables_rtable (x : Byte) : entry gentables.rtable x =
    ofBytes (Column.mul14 double (invSBox x)) (Column.mul9 double (invSBox x))
      (Column.mul13 double (invSBox x)) (Column.mul11 double (invSBox x)) := by
  rw [← bmul_fourteen, ← bmul_nine, ← bmul_thirteen, ← bmul_eleven, ← pack_eq_ofBytes]
  simp only [gentables, powLog_eq, subBoxes_eq, roundTables_eq, entry_range_map]
  rfl

end StarLib.Aes
