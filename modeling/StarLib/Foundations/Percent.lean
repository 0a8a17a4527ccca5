import StarLib.Foundations.Words
import Mathlib.Data.List.Basic

/-! # Percent-coding

A byte is written as itself or as `%` and two hexadecimal digits. An encoder that never writes `%` as
itself is undone by the decoder, whichever bytes it writes as themselves.
-/

namespace Foundations.Percent
open Foundations
set_option autoImplicit false
set_option maxHeartbeats 250000
set_option maxRecDepth 120000

def percentSign : Byte := 0x25

def IsUpperHex (b : Byte) : Prop := (48 ≤ b.toNat ∧ b.toNat ≤ 57) ∨ (65 ≤ b.toNat ∧ b.toNat ≤ 70)

/-- The digit of a number below 16. -/
def upperHex (d : ℕ) : Byte := BitVec.ofNat 8 (if d < 10 then 48 + d else 55 + d)

def hexValue (b : Byte) : Option ℕ :=
  if 48 ≤ b.toNat ∧ b.toNat ≤ 57 then some (b.toNat - 48)
  else if 65 ≤ b.toNat ∧ b.toNat ≤ 70 then some (b.toNat - 55)
  else if 97 ≤ b.toNat ∧ b.toNat ≤ 102 then some (b.toNat - 87)
  else none

def triple (b : Byte) : List Byte := [percentSign, upperHex (b.toNat / 16), upperHex (b.toNat % 16)]

/-- A `%` that no two digits follow stays. -/
def decode : List Byte → List Byte
  | b :: h :: l :: rest =>
    if b = percentSign then
      match hexValue h, hexValue l with
      | some x, some y => BitVec.ofNat 8 (16 * x + y) :: decode rest
      | _, _ => b :: decode (h :: l :: rest)
    else b :: decode (h :: l :: rest)
  | short => short

/-- Bytes that are `safe`, and triples. -/
inductive Encoded (safe : Byte → Prop) : List Byte → Prop
  | nil : Encoded safe []
  | plain {b : Byte} {rest : List Byte} : safe b → Encoded safe rest → Encoded safe (b :: rest)
  | triple {h l : Byte} {rest : List Byte} : IsUpperHex h → IsUpperHex l → Encoded safe rest →
      Encoded safe (percentSign :: h :: l :: rest)

/-! ## Digits -/

theorem upperHex_toNat {d : ℕ} (hd : d < 16) : (upperHex d).toNat = if d < 10 then 48 + d else 55 + d := by
  unfold upperHex
  rw [BitVec.toNat_ofNat, Nat.mod_eq_of_lt]
  split <;> omega

theorem upperHex_isUpperHex {d : ℕ} (hd : d < 16) : IsUpperHex (upperHex d) := by
  unfold IsUpperHex
  rw [upperHex_toNat hd]
  split <;> omega

theorem hexValue_upperHex {d : ℕ} (hd : d < 16) : hexValue (upperHex d) = some d := by
  unfold hexValue
  rw [upperHex_toNat hd]
  by_cases hten : d < 10
  · rw [if_pos hten, if_pos (by omega), Nat.add_sub_cancel_left]
  · rw [if_neg hten, if_neg (by omega), if_pos (by omega), Nat.add_sub_cancel_left]

/-! ## Decoding -/

theorem decode_plain {b : Byte} (hb : b ≠ percentSign) (rest : List Byte) : decode (b :: rest) = b :: decode rest := by
  cases rest with
  | nil => rfl
  | cons h rest =>
    cases rest with
    | nil => rfl
    | cons l rest =>
      rw [decode, if_neg hb]

theorem decode_triple (b : Byte) (rest : List Byte) : decode (triple b ++ rest) = b :: decode rest := by
  have hlt : b.toNat < 256 := b.isLt
  have hback : 16 * (b.toNat / 16) + b.toNat % 16 = b.toNat := Nat.div_add_mod b.toNat 16
  show decode (percentSign :: upperHex (b.toNat / 16) :: upperHex (b.toNat % 16) :: rest) = _
  rw [decode, if_pos rfl, hexValue_upperHex (by omega), hexValue_upperHex (by omega)]
  show BitVec.ofNat 8 (16 * (b.toNat / 16) + b.toNat % 16) :: decode rest = _
  rw [hback, BitVec.ofNat_toNat, BitVec.setWidth_eq]

/-! ## Encoders -/

section Encoder
variable {safe : Byte → Prop} {encode : Byte → List Byte}

theorem encoded_flatMap (hencode : ∀ b, (safe b ∧ encode b = [b]) ∨ encode b = triple b) (s : List Byte) :
    Encoded safe (s.flatMap encode) := by
  induction s with
  | nil => exact .nil
  | cons b s ih =>
    have hlt : b.toNat < 256 := b.isLt
    rw [List.flatMap_cons]
    rcases hencode b with ⟨hsafe, hb⟩ | hb
    · rw [hb]
      exact .plain hsafe ih
    · rw [hb]
      exact .triple (upperHex_isUpperHex (by omega)) (upperHex_isUpperHex (by omega)) ih

theorem decode_flatMap (hencode : ∀ b, (safe b ∧ encode b = [b]) ∨ encode b = triple b) (hpercent : ¬ safe percentSign)
    (s : List Byte) : decode (s.flatMap encode) = s := by
  induction s with
  | nil => rfl
  | cons b s ih =>
    rw [List.flatMap_cons]
    rcases hencode b with ⟨hsafe, hb⟩ | hb
    · have hplain : b ≠ percentSign := by
        intro h
        rw [h] at hsafe
        exact hpercent hsafe
      rw [hb, List.singleton_append, decode_plain hplain, ih]
    · rw [hb, decode_triple, ih]

end Encoder

end Foundations.Percent
