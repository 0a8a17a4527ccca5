import StarLib.Foundations.Packed
import StarLib.Rijndael.Tables
import StarLib.Rijndael.Cipher

/-! # What the literal tables hold

The kernel compares every table, entry by entry, with the column it stands for: `sm_T1 … sm_T4` are
the columns of MixColumn applied to a substituted byte, `sm_T5 … sm_T8` those of its inverse applied
to an inversely substituted byte, and `sm_U1 … sm_U4` those of the inverse applied to the byte itself.
The words hold the first row in their most significant byte.
-/

namespace StarLib.Rijndael
open Foundations
set_option autoImplicit false
set_option maxHeartbeats 250000
set_option maxRecDepth 120000

def entry {w : ℕ} (l : List (BitVec w)) (x : Byte) : BitVec w := l.getD x.toNat 0

theorem entry_map {v w : ℕ} (l : List (BitVec v)) (f : BitVec v → BitVec w) (x : Byte)
    (hl : l.length = 256) : entry (l.map f) x = f (entry l x) := by
  have hx : x.toNat < l.length := by rw [hl]; exact x.isLt
  simp [entry, List.getD_eq_getElem?_getD, hx]

def allBytes : List Byte := (List.range 256).map (BitVec.ofNat 8)

theorem entry_allBytes (x : Byte) : entry allBytes x = x := by
  have hx : x.toNat < 256 := x.isLt
  simp [entry, allBytes, List.getD_eq_getElem?_getD, hx]

/-! ## The substitution box -/

def sBox (x : Byte) : Byte := entry smS x

def invSBox (x : Byte) : Byte := entry smSi x

theorem smS_length : smS.length = 256 := rfl

theorem smSi_length : smSi.length = 256 := rfl

theorem smS_map_smSi : smS.map (entry smSi) = allBytes := by
  have hpacked : smS.map (fun y => packedGet (packList 256 smSi) y.toNat) = allBytes := by decide +kernel
  rw [← hpacked]
  exact List.map_congr_left fun y _ => (packs_packList smSi_length).2 y.toNat y.isLt

theorem invSBox_sBox (x : Byte) : invSBox (sBox x) = x := by
  have h := congrArg (fun l => entry l x) smS_map_smSi
  simp only [entry_map _ _ _ smS_length, entry_allBytes] at h
  exact h

def roundConstant (k : ℕ) : Byte := smRcon.getD k 0

def keyColumn (nk : ℕ) (key : List Byte) (t : ℕ) : Column Byte := expandedKey sBox roundConstant nk key t

theorem keyColumn_ge {nk : ℕ} (key : List Byte) {t : ℕ} (h0 : 0 < nk) (h : nk ≤ t) : keyColumn nk key t =
    (keyColumn nk key (t - nk)).xor (feed sBox roundConstant nk t (keyColumn nk key (t - 1))) :=
  expandedKey_ge h0 h

/-! ## The round tables -/

def beWord (c : Column Byte) : DWord := ofBytes c.b3 c.b2 c.b1 c.b0

def mixEntry (y : Byte) : Column Byte := ⟨double y, y, y, double y ^^^ y⟩

def invMixEntry (y : Byte) : Column Byte :=
  ⟨Column.mul14 double y, Column.mul9 double y, Column.mul13 double y, Column.mul11 double y⟩

/-- A column moved down by one row, around the end. -/
def rollDown (c : Column Byte) : Column Byte := ⟨c.b3, c.b0, c.b1, c.b2⟩

/-- `l` and the three tables after it hold the entries `f y`, moved down by nothing, one, two and three rows. -/
structure RolledTables (ys : List Byte) (f : Byte → Column Byte) (l₁ l₂ l₃ l₄ : List DWord) : Prop where
  first : l₁ = ys.map fun y => beWord (f y)
  second : l₂ = ys.map fun y => beWord (rollDown (f y))
  third : l₃ = ys.map fun y => beWord (rollDown (rollDown (f y)))
  fourth : l₄ = ys.map fun y => beWord (rollDown (rollDown (rollDown (f y))))

theorem RolledTables.entry_sum {ys : List Byte} {f : Byte → Column Byte} {l₁ l₂ l₃ l₄ : List DWord}
    (h : RolledTables ys f l₁ l₂ l₃ l₄) (hlen : ys.length = 256) (a b c d : Byte) :
    entry l₁ a ^^^ entry l₂ b ^^^ entry l₃ c ^^^ entry l₄ d =
      beWord (f (entry ys a)) ^^^ beWord (rollDown (f (entry ys b))) ^^^ beWord (rollDown (rollDown (f (entry ys c)))) ^^^
        beWord (rollDown (rollDown (rollDown (f (entry ys d))))) := by
  rw [h.first, h.second, h.third, h.fourth, entry_map _ _ _ hlen, entry_map _ _ _ hlen, entry_map _ _ _ hlen,
    entry_map _ _ _ hlen]

theorem rolledTables_of_all {ys : List Byte} {f : Byte → Column Byte} {l₁ l₂ l₃ l₄ : List DWord}
    (h : l₁ = (ys.map fun y => beWord (f y)) ∧ l₂ = (ys.map fun y => beWord (rollDown (f y))) ∧
      l₃ = (ys.map fun y => beWord (rollDown (rollDown (f y)))) ∧
      l₄ = ys.map fun y => beWord (rollDown (rollDown (rollDown (f y))))) : RolledTables ys f l₁ l₂ l₃ l₄ :=
  ⟨h.1, h.2.1, h.2.2.1, h.2.2.2⟩

theorem encryption_rolled : RolledTables smS mixEntry smT1 smT2 smT3 smT4 :=
  rolledTables_of_all (by decide)

theorem decryption_rolled : RolledTables smSi invMixEntry smT5 smT6 smT7 smT8 :=
  rolledTables_of_all (by decide)

theorem unmix_rolled : RolledTables allBytes invMixEntry smU1 smU2 smU3 smU4 :=
  rolledTables_of_all (by decide)

theorem beWord_xor (c d : Column Byte) : beWord c ^^^ beWord d = beWord (c.xor d) :=
  ofBytes_xor ..

theorem mixEntry_sum (a b c d : Byte) :
    beWord (mixEntry a) ^^^ beWord (rollDown (mixEntry b)) ^^^ beWord (rollDown (rollDown (mixEntry c))) ^^^
      beWord (rollDown (rollDown (rollDown (mixEntry d)))) = beWord (Column.mix double ⟨a, b, c, d⟩) := by
  simp only [beWord_xor, Column.xor, rollDown, mixEntry, Column.mix]

theorem invMixEntry_sum (a b c d : Byte) :
    beWord (invMixEntry a) ^^^ beWord (rollDown (invMixEntry b)) ^^^
      beWord (rollDown (rollDown (invMixEntry c))) ^^^ beWord (rollDown (rollDown (rollDown (invMixEntry d)))) =
      beWord (Column.invMix double ⟨a, b, c, d⟩) := by
  simp only [beWord_xor, Column.xor, rollDown, invMixEntry, Column.invMix]

/-- One column of an encryption round. -/
theorem encryption_tables (a b c d : Byte) :
    entry smT1 a ^^^ entry smT2 b ^^^ entry smT3 c ^^^ entry smT4 d =
      beWord (Column.mix double ⟨sBox a, sBox b, sBox c, sBox d⟩) := by
  rw [encryption_rolled.entry_sum smS_length]
  exact mixEntry_sum ..

theorem decryption_tables (a b c d : Byte) :
    entry smT5 a ^^^ entry smT6 b ^^^ entry smT7 c ^^^ entry smT8 d =
      beWord (Column.invMix double ⟨invSBox a, invSBox b, invSBox c, invSBox d⟩) := by
  rw [decryption_rolled.entry_sum smSi_length]
  exact invMixEntry_sum ..

theorem unmix_tables (a b c d : Byte) :
    entry smU1 a ^^^ entry smU2 b ^^^ entry smU3 c ^^^ entry smU4 d =
      beWord (Column.invMix double ⟨a, b, c, d⟩) := by
  rw [unmix_rolled.entry_sum (by simp [allBytes]), entry_allBytes, entry_allBytes, entry_allBytes, entry_allBytes]
  exact invMixEntry_sum ..

end StarLib.Rijndael
