import StarLib.Foundations.Columns
import StarLib.Foundations.KeyAlternating
import Mathlib.Algebra.Group.Fin.Basic

/-! # Rijndael on columns

What the two implementations of the library compute, stated once: a state of `n` columns of four
bytes, a substitution box with its inverse, row offsets `c1 c2 c3` and a round key for every round.
Nothing here mentions words, tables or byte orders. `decryptState_encryptState` is the block cipher
inverse, for every number of columns and rounds and for every round keys; `expandedKey` says which
columns the key expansion produces.
-/

namespace StarLib.Rijndael
open Foundations
set_option autoImplicit false
set_option maxHeartbeats 250000
set_option maxRecDepth 120000

/-! ## Doubling in GF(2^8) -/

def double (a : Byte) : Byte := (a <<< 1) ^^^ (if a.msb then 0x1b else 0)

theorem double_xor (a b : Byte) : double (a ^^^ b) = double a ^^^ double b := by
  unfold double
  rw [BitVec.shiftLeft_xor_distrib, BitVec.msb_xor]
  cases a.msb <;> cases b.msb <;> simp [BitVec.xor_assoc, BitVec.xor_comm, Column.xor_left_comm]

/-! ## States -/

abbrev State (n : ℕ) := Fin n → Column Byte

variable {n : ℕ}

def addState (s k : State n) : State n := fun i => (s i).xor (k i)

def mixState (s : State n) : State n := fun i => Column.mix double (s i)

def invMixState (s : State n) : State n := fun i => Column.invMix double (s i)

/-- Substitute every byte through `box` and read row `r` from the column `c_r` places further on. -/
def subShift (box : Byte → Byte) (c1 c2 c3 : Fin n) (s : State n) : State n := fun i =>
  ⟨box (s i).b0, box (s (i + c1)).b1, box (s (i + c2)).b2, box (s (i + c3)).b3⟩

theorem addState_cancel (s k : State n) : addState (addState s k) k = s := by
  funext i
  exact Column.xor_cancel_right (s i) (k i)

theorem invMixState_mixState (s : State n) : invMixState (mixState s) = s := by
  funext i
  exact Column.invMix_mix double_xor (s i)

theorem invMixState_addState (s k : State n) :
    invMixState (addState s k) = addState (invMixState s) (invMixState k) := by
  funext i
  exact Column.invMix_xor double_xor (s i) (k i)

theorem subShift_subShift [NeZero n] {box ibox : Byte → Byte} (hbox : ∀ x, ibox (box x) = x)
    (c1 c2 c3 : Fin n) (s : State n) :
    subShift ibox (-c1) (-c2) (-c3) (subShift box c1 c2 c3 s) = s := by
  funext i
  ext1 <;> simp [subShift, hbox]

/-! ## The cipher and its inverse -/

section Cipher
variable (box ibox : Byte → Byte) (c1 c2 c3 : Fin n) (K K' : ℕ → State n) (R : ℕ)

def encryptState (s : State n) : State n :=
  KeyAlternating.cipher addState (subShift box c1 c2 c3) mixState K R s

/-- The equivalent inverse cipher, with its own round keys. -/
def decryptState [NeZero n] (s : State n) : State n :=
  KeyAlternating.cipher addState (subShift ibox (-c1) (-c2) (-c3)) invMixState K' R s

/-- The round keys of the equivalent inverse cipher: reversed, the inner ones unmixed. -/
def invKeys (r : ℕ) : State n := if r = 0 ∨ r = R then K (R - r) else invMixState (K (R - r))

end Cipher

/-- Decryption inverts encryption. -/
theorem decryptState_encryptState [NeZero n] {box ibox : Byte → Byte} (hbox : ∀ x, ibox (box x) = x)
    (c1 c2 c3 : Fin n) (K : ℕ → State n) {R : ℕ} (hR : 0 < R) (s : State n) :
    decryptState ibox c1 c2 c3 (invKeys K R) R (encryptState box c1 c2 c3 K R s) = s := by
  apply KeyAlternating.cipher_inverse addState_cancel (subShift_subShift hbox c1 c2 c3)
    invMixState_mixState invMixState_addState
  · intro r h0 hr
    have h : ¬ (r = 0 ∨ r = R) := by omega
    simp [invKeys, h]
  · exact hR
  · simp [invKeys]
  · simp [invKeys]

/-! ## States and byte strings -/

def columnBytes (c : Column Byte) : List Byte := [c.b0, c.b1, c.b2, c.b3]

def columnAt (l : List Byte) (i : ℕ) : Column Byte :=
  ⟨l.getD (4 * i) 0, l.getD (4 * i + 1) 0, l.getD (4 * i + 2) 0, l.getD (4 * i + 3) 0⟩

def toState (n : ℕ) (l : List Byte) : State n := fun i => columnAt l i

def bytesOf (m : ℕ) (s : ℕ → Column Byte) : List Byte := (List.range m).flatMap fun i => columnBytes (s i)

theorem bytesOf_length (m : ℕ) (s : ℕ → Column Byte) : (bytesOf m s).length = 4 * m := by
  induction m with
  | zero => rfl
  | succ m ih =>
    have h : (bytesOf (m + 1) s).length = (bytesOf m s).length + 4 := by
      simp [bytesOf, List.range_succ, columnBytes]
    omega

theorem bytesOf_succ (m : ℕ) (s : ℕ → Column Byte) :
    bytesOf (m + 1) s = bytesOf m s ++ columnBytes (s m) := by
  simp [bytesOf, List.range_succ]

theorem bytesOf_congr {m : ℕ} {s t : ℕ → Column Byte} (h : ∀ i < m, s i = t i) :
    bytesOf m s = bytesOf m t := by
  induction m with
  | zero => rfl
  | succ m ih => rw [bytesOf_succ, bytesOf_succ, ih fun i hi => h i (by omega), h m (Nat.lt_succ_self m)]

theorem columnAt_append_left (l r : List Byte) {i : ℕ} (h : 4 * i + 4 ≤ l.length) :
    columnAt (l ++ r) i = columnAt l i := by
  unfold columnAt
  rw [List.getD_append _ _ _ _ (by omega), List.getD_append _ _ _ _ (by omega),
    List.getD_append _ _ _ _ (by omega), List.getD_append _ _ _ _ (by omega)]

theorem columnAt_bytesOf {m i : ℕ} (s : ℕ → Column Byte) (hi : i < m) :
    columnAt (bytesOf m s) i = s i := by
  induction m with
  | zero => omega
  | succ m ih =>
    have hlen := bytesOf_length m s
    rw [bytesOf_succ]
    by_cases him : i < m
    · rw [columnAt_append_left _ _ (by omega), ih him]
    · have hi' : i = m := by omega
      subst hi'
      unfold columnAt
      rw [List.getD_append_right _ _ _ _ (by omega), List.getD_append_right _ _ _ _ (by omega),
        List.getD_append_right _ _ _ _ (by omega), List.getD_append_right _ _ _ _ (by omega), hlen,
        Nat.sub_self, Nat.add_sub_cancel_left, Nat.add_sub_cancel_left, Nat.add_sub_cancel_left]
      rfl

theorem bytesOf_columnAt {m : ℕ} {l : List Byte} (h : l.length = 4 * m) : bytesOf m (columnAt l) = l := by
  induction m generalizing l with
  | zero =>
    have hl : l = [] := List.eq_nil_of_length_eq_zero (by omega)
    subst hl
    rfl
  | succ m ih =>
    obtain ⟨p, q, rfl, hp, hq⟩ : ∃ p q, l = p ++ q ∧ p.length = 4 * m ∧ q.length = 4 :=
      ⟨l.take (4 * m), l.drop (4 * m), by simp, by simp [h], by simp [h]; omega⟩
    obtain ⟨a, b, c, d, rfl⟩ : ∃ a b c d, q = [a, b, c, d] := by
      match q, hq with
      | [a, b, c, d], _ => exact ⟨a, b, c, d, rfl⟩
    have hfront : bytesOf m (columnAt (p ++ [a, b, c, d])) = p := by
      rw [bytesOf_congr fun i hi => columnAt_append_left p _ (by omega), ih hp]
    rw [bytesOf_succ, hfront]
    unfold columnAt columnBytes
    simp [hp]

theorem eq_of_toState_eq {n : ℕ} {a b : List Byte} (ha : a.length = 4 * n) (hb : b.length = 4 * n)
    (h : toState n a = toState n b) : a = b := by
  rw [← bytesOf_columnAt ha, ← bytesOf_columnAt hb]
  exact bytesOf_congr fun i hi => congrFun h ⟨i, hi⟩

/-! ## Row offsets -/

/-- The shift of row 2 in a state of `n` columns; row 1 always shifts by one. -/
def offset2 (n : ℕ) : ℕ := if n < 8 then 2 else 3

def offset3 (n : ℕ) : ℕ := if n < 8 then 3 else 4

/-! ## The expanded key -/

section ExpandedKey
variable (box : Byte → Byte) (rcon : ℕ → Byte) (nk : ℕ) (key : List Byte)

/-- What column `t` of the expanded key takes from its predecessor `c`. -/
def feed (t : ℕ) (c : Column Byte) : Column Byte :=
  if t % nk = 0 then ⟨box c.b1 ^^^ rcon (t / nk - 1), box c.b2, box c.b3, box c.b0⟩
  else if nk = 8 ∧ t % nk = 4 then ⟨box c.b0, box c.b1, box c.b2, box c.b3⟩
  else c

/-- Column `t` of the expansion of a key of `nk` columns. -/
def expandedKey (t : ℕ) : Column Byte :=
  if t < nk ∨ nk = 0 then columnAt key t
  else (expandedKey (t - nk)).xor (feed box rcon nk t (expandedKey (t - 1)))
termination_by t
decreasing_by all_goals omega

variable {box rcon nk key}

theorem expandedKey_lt {t : ℕ} (h : t < nk) : expandedKey box rcon nk key t = columnAt key t := by
  rw [expandedKey, if_pos (Or.inl h)]

theorem expandedKey_ge {t : ℕ} (h0 : 0 < nk) (h : nk ≤ t) :
    expandedKey box rcon nk key t =
      (expandedKey box rcon nk key (t - nk)).xor
        (feed box rcon nk t (expandedKey box rcon nk key (t - 1))) := by
  have hno : ¬ (t < nk ∨ nk = 0) := by omega
  rw [expandedKey, if_neg hno]

theorem feed_inner {t i k : ℕ} (ht : t = nk * k + i) (h0 : 0 < i) (hi : i < nk) (h4 : nk = 8 → i ≠ 4)
    (c : Column Byte) : feed box rcon nk t c = c := by
  have hmod : t % nk = i := by
    rw [ht, Nat.mul_add_mod, Nat.mod_eq_of_lt hi]
  have hno : ¬ (nk = 8 ∧ t % nk = 4) := by
    rintro ⟨h8, h⟩
    exact h4 h8 (hmod.symm.trans h)
  unfold feed
  rw [if_neg hno, hmod, if_neg (by omega)]

theorem feed_first {t k : ℕ} (ht : t = nk * (k + 1)) (h0 : 0 < nk) (c : Column Byte) :
    feed box rcon nk t c = ⟨box c.b1 ^^^ rcon k, box c.b2, box c.b3, box c.b0⟩ := by
  have hmod : t % nk = 0 := by rw [ht, Nat.mul_mod_right]
  have hdiv : t / nk - 1 = k := by rw [ht, Nat.mul_div_cancel_left _ h0, Nat.add_sub_cancel]
  unfold feed
  rw [if_pos hmod, hdiv]

theorem feed_fifth {t k : ℕ} (h8 : nk = 8) (ht : t = nk * k + 4) (c : Column Byte) :
    feed box rcon nk t c = ⟨box c.b0, box c.b1, box c.b2, box c.b3⟩ := by
  subst h8
  have hmod : t % 8 = 4 := by omega
  simp [feed, hmod]

end ExpandedKey

end StarLib.Rijndael
