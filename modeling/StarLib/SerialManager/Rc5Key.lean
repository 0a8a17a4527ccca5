import StarLib.SerialManager.Rc5

/-! # The user key of `rc5_key`

RC5 packs four key bytes into a word. `cp` is declared as a word pointer here: byte `i` fills word `i` of
`pk`, and a key of two bytes or more writes behind the words that were cleared for it.
-/

namespace StarLib.SerialManager
open Foundations
set_option autoImplicit false
set_option maxHeartbeats 250000
set_option maxRecDepth 120000

/-! ## The local array -/

/-- `pk_len`. -/
def rc5PkLen (key : List Byte) : ℕ := if key.length % 4 ≠ 0 then key.length / 4 + 1 else key.length / 4

/-- `pk` before the mixing. -/
def rc5Pack (pk : ℕ → DWord) (key : List Byte) : ℕ → DWord :=
  fill key.length (fun i => (key.getD i 0).setWidth 32) (fill (rc5PkLen key) (fun _ => 0) pk)

def rc5Mixed (pk : ℕ → DWord) (c : Rc5Ctx) (key : List Byte) : Rc5Mix :=
  let xkLen := c.nr * 2 + 2
  let xk := Function.update c.xk 0 0xb7e15163
  let xk := forRange 1 xkLen (fun i xk => Function.update xk i (xk (i - 1) + 0x9e3779b9)) xk
  let numSteps := if xkLen < rc5PkLen key then 3 * rc5PkLen key else 3 * xkLen
  forRange 0 numSteps (rc5MixStep xkLen (rc5PkLen key)) ⟨0, 0, xk, rc5Pack pk key⟩

/-- `pk` when `rc5_key` returns. -/
def rc5Local (pk : ℕ → DWord) (c : Rc5Ctx) (key : List Byte) : ℕ → DWord :=
  fill (rc5PkLen key) (fun _ => 0) (rc5Mixed pk c key).pk

theorem rc5Key_eq (pk : ℕ → DWord) (c : Rc5Ctx) (key : List Byte) :
    rc5Key pk c key = { c with xk := (rc5Mixed pk c key).xk } := rfl

theorem rc5PkLen_eq (key : List Byte) : rc5PkLen key = (key.length + 3) / 4 := by
  unfold rc5PkLen
  split <;> omega

theorem rc5PkLen_le (key : List Byte) : rc5PkLen key ≤ key.length := by
  rw [rc5PkLen_eq]
  omega

theorem rc5Pack_apply (pk : ℕ → DWord) (key : List Byte) (p : ℕ) :
    rc5Pack pk key p = if p < key.length then (key.getD p 0).setWidth 32 else pk p := by
  have hle := rc5PkLen_le key
  unfold rc5Pack
  rw [fill_apply, fill_apply]
  by_cases hp : p < key.length
  · rw [if_pos hp, if_pos hp]
  · have hclear : ¬ p < rc5PkLen key := by omega
    rw [if_neg hp, if_neg hp, if_neg hclear]

/-- The mixing and the clearing stay within the words of the key. -/
theorem rc5Local_above (pk : ℕ → DWord) (c : Rc5Ctx) {key : List Byte} (hkey : 0 < key.length) {p : ℕ}
    (hp : rc5PkLen key ≤ p) : rc5Local pk c key p = rc5Pack pk key p := by
  have hpos : 0 < rc5PkLen key := by
    rw [rc5PkLen_eq]
    omega
  have hclear : ¬ p < rc5PkLen key := by omega
  unfold rc5Local
  rw [fill_apply, if_neg hclear]
  refine forRange_inv (P := fun _ (s : Rc5Mix) => s.pk p = rc5Pack pk key p) (Nat.zero_le _) rfl ?_
  intro i s _ _ ih
  have hmod : i % rc5PkLen key < rc5PkLen key := Nat.mod_lt _ hpos
  have hne : p ≠ i % rc5PkLen key := by omega
  unfold rc5MixStep
  simp only
  rw [Function.update_of_ne hne, ih]

/-! ## What the expanded key depends on -/

structure SameRc5Mix (xkLen pkLen : ℕ) (s t : Rc5Mix) : Prop where
  A : s.A = t.A
  B : s.B = t.B
  xk : AgreeBelow xkLen s.xk t.xk
  pk : AgreeBelow pkLen s.pk t.pk

theorem SameRc5Mix.step {xkLen pkLen : ℕ} (hxk : 0 < xkLen) (hpk : 0 < pkLen) {s t : Rc5Mix}
    (h : SameRc5Mix xkLen pkLen s t) (i : ℕ) :
    SameRc5Mix xkLen pkLen (rc5MixStep xkLen pkLen i s) (rc5MixStep xkLen pkLen i t) := by
  have hx := h.xk (i % xkLen) (Nat.mod_lt _ hxk)
  have hp := h.pk (i % pkLen) (Nat.mod_lt _ hpk)
  unfold rc5MixStep
  rw [← h.A, ← h.B, ← hx, ← hp]
  exact ⟨rfl, rfl, h.xk.update _ _, h.pk.update _ _⟩

/-- The packed words decide the expanded key, whatever `malloc` and the stack held. -/
theorem rc5Key_packed (c c' : Rc5Ctx) (hnr : c.nr = c'.nr) (pk pk' : ℕ → DWord) {key key' : List Byte}
    (hkey : 0 < key.length) (hlen : rc5PkLen key = rc5PkLen key')
    (h : AgreeBelow (rc5PkLen key) (rc5Pack pk key) (rc5Pack pk' key')) :
    AgreeBelow (c.nr * 2 + 2) (rc5Key pk c key).xk (rc5Key pk' c' key').xk := by
  have hpos : 0 < rc5PkLen key := by
    rw [rc5PkLen_eq]
    omega
  have hxk : AgreeBelow (c.nr * 2 + 2)
      (forRange 1 (c.nr * 2 + 2) (fun i xk => Function.update xk i (xk (i - 1) + 0x9e3779b9))
        (Function.update c.xk 0 0xb7e15163))
      (forRange 1 (c.nr * 2 + 2) (fun i xk => Function.update xk i (xk (i - 1) + 0x9e3779b9))
        (Function.update c'.xk 0 0xb7e15163)) := by
    refine AgreeBelow.forRange_push ((AgreeBelow.zero c.xk c'.xk).push 0xb7e15163) (by omega) ?_
    intro i a b h1 _ hab
    rw [hab (i - 1) (by omega)]
  rw [rc5Key_eq, rc5Key_eq]
  unfold rc5Mixed
  rw [← hlen, ← hnr]
  refine (forRange_rel (fun _ => SameRc5Mix (c.nr * 2 + 2) (rc5PkLen key)) (Nat.zero_le _) ?_ ?_).xk
  · exact ⟨rfl, rfl, hxk, h⟩
  · exact fun i s t _ _ hst => hst.step (Nat.succ_pos _) hpos i

def keyBytes (key : List Byte) (p : ℕ) : Byte := key.getD p 0

/-- The expanded key is a function of the words that RC5 makes of the key. -/
def Rc5DependsOnWords (c : Rc5Ctx) (key : List Byte) : Prop :=
  ∀ (xk : ℕ → DWord) (pk pk' : ℕ → DWord) (key' : List Byte), (key'.length + 3) / 4 = (key.length + 3) / 4 →
    AgreeBelow ((key.length + 3) / 4) (wordAt (keyBytes key)) (wordAt (keyBytes key')) →
      AgreeBelow (c.nr * 2 + 2) (rc5Key pk c key).xk (rc5Key pk' ⟨xk, c.nr⟩ key').xk

theorem rc5Key_depends (c : Rc5Ctx) {key : List Byte} (hkey : 0 < key.length) : Rc5DependsOnWords c key := by
  intro xk pk pk' key' hlen hwords
  refine rc5Key_packed c ⟨xk, c.nr⟩ rfl pk pk' hkey (by rw [rc5PkLen_eq, rc5PkLen_eq, hlen]) ?_
  intro p hp
  rw [rc5PkLen_eq] at hp
  have hsplit : 4 * (p / 4) + p % 4 = p := Nat.div_add_mod p 4
  have hbyte := wordAt_inj (hwords (p / 4) (by omega)) (Nat.mod_lt p (by decide : 0 < 4))
  rw [hsplit] at hbyte
  rw [rc5Pack_apply, rc5Pack_apply, if_pos (by omega), if_pos (by omega)]
  unfold keyBytes at hbyte
  rw [hbyte]

/-! ## The packing of RC5 -/

/-- What RC5 prescribes: the words of the key, nothing written behind them, and nothing else of the key used. -/
structure Rc5Prescribed (c : Rc5Ctx) (key : List Byte) : Prop where
  words : ∀ pk, AgreeBelow ((key.length + 3) / 4) (rc5Pack pk key) (wordAt (keyBytes key))
  writes : ∀ pk p, (key.length + 3) / 4 ≤ p → rc5Local pk c key p = pk p
  depends : Rc5DependsOnWords c key

/-- The last byte of a longer key lands behind the words. -/
theorem rc5Local_last (c : Rc5Ctx) {key : List Byte} (hkey : 1 < key.length) (pk : ℕ → DWord) :
    rc5Local pk c key (key.length - 1) = (key.getD (key.length - 1) 0).setWidth 32 := by
  rw [rc5Local_above pk c (by omega) (by rw [rc5PkLen_eq]; omega), rc5Pack_apply, if_pos (by omega)]

theorem rc5Overrun (c : Rc5Ctx) {key : List Byte} (hkey : 1 < key.length) : ¬ Rc5Prescribed c key := by
  intro h
  have hwritten := h.writes (fun _ => 0x100) (key.length - 1) (by omega)
  rw [rc5Local_last c hkey] at hwritten
  have htop := congrArg (byteAt · 1) hwritten
  rw [setWidth_shiftLeft_zero] at htop
  simp only [byteAt_ofBytes_one] at htop
  exact absurd htop (by decide)

theorem rc5Key_prescribed_iff (c : Rc5Ctx) (key : List Byte) (hkey : 1 ≤ key.length) :
    Rc5Prescribed c key ↔ key.length = 1 := by
  constructor
  · intro h
    by_contra hlong
    exact rc5Overrun c (by omega) h
  · intro hone
    obtain ⟨b, rfl⟩ := List.length_eq_one_iff.1 hone
    refine ⟨?_, ?_, rc5Key_depends c hkey⟩
    · intro pk p hp
      have hp0 : p = 0 := by simpa using hp
      subst hp0
      rw [rc5Pack_apply, if_pos (by simp), setWidth_shiftLeft_zero]
      simp [wordAt, keyBytes]
    · intro pk p hp
      have hp1 : 1 ≤ p := by simpa using hp
      rw [rc5Local_above pk c hkey (by rw [rc5PkLen_eq]; simpa using hp), rc5Pack_apply, if_neg (by simp; omega)]

theorem rc5Key_prescribed_sample : Rc5Prescribed ⟨fun _ => 0, 15⟩ [0x2b] ↔ [(0x2b : Byte)].length = 1 :=
  rc5Key_prescribed_iff ⟨fun _ => 0, 15⟩ [0x2b] (by decide)

/-- The key of two bytes 1 and 2, for 15 rounds. -/
theorem rc5Key_overruns : ¬ Rc5Prescribed ⟨fun _ => 0, 15⟩ [1, 2] := rc5Overrun _ (by decide)

end StarLib.SerialManager
