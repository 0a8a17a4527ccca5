import StarLib.Foundations.Sha
import StarLib.SerialManager.Seal

/-! # The hash of SEAL against the SHA compression function

`seal_g` is the compression function on a block with the index in its first word, but for one assignment: the third of
the four loops has no `e=d`. All steps agree when every one of these 20 steps finds `d = e`. That takes an index of 0
and one of two keys.
-/

namespace StarLib.SerialManager
open Foundations
set_option autoImplicit false
set_option maxHeartbeats 250000
set_option maxRecDepth 120000

/-! ## One loop of 80 steps -/

/-- Step `n` of the four loops. -/
def sealGTurn (w : ℕ → DWord) (n : ℕ) : Five → Five :=
  if n < 20 then sealGStep F1 0x5a827999 true w n
  else if n < 40 then sealGStep F2 0x6ed9eba1 true w n
  else if n < 60 then sealGStep F3 0x8f1bbcdc false w n
  else sealGStep F4 0xca62c1d6 true w n

def keyFive (key : List Byte) : Five :=
  ⟨keyWORD key 0, keyWORD key 4, keyWORD key 8, keyWORD key 12, keyWORD key 16⟩

theorem sealGTurn_loops (w : ℕ → DWord) (s : Five) : forRange 0 80 (sealGTurn w) s =
    forRange 60 80 (sealGStep F4 0xca62c1d6 true w) (forRange 40 60 (sealGStep F3 0x8f1bbcdc false w)
      (forRange 20 40 (sealGStep F2 0x6ed9eba1 true w) (forRange 0 20 (sealGStep F1 0x5a827999 true w) s))) := by
  have hloop : ∀ (lo hi : ℕ) (g : ℕ → Five → Five) (s : Five), (∀ n, lo ≤ n → n < hi → sealGTurn w n = g n) →
      forRange lo hi (sealGTurn w) s = forRange lo hi g s := fun lo hi g s h =>
    forRange_congr s fun n s h1 h2 => congrFun (h n h1 h2) s
  rw [forRange_append (by decide : 0 ≤ 60) (by decide : 60 ≤ 80), forRange_append (by decide : 0 ≤ 40) (by decide : 40 ≤ 60),
    forRange_append (by decide : 0 ≤ 20) (by decide : 20 ≤ 40)]
  rw [hloop 0 20 (sealGStep F1 0x5a827999 true w) s, hloop 20 40 (sealGStep F2 0x6ed9eba1 true w),
    hloop 40 60 (sealGStep F3 0x8f1bbcdc false w), hloop 60 80 (sealGStep F4 0xca62c1d6 true w)]
  · intro n h1 _
    rw [sealGTurn, if_neg (by omega), if_neg (by omega), if_neg (by omega)]
  · intro n h1 h2
    rw [sealGTurn, if_neg (by omega), if_neg (by omega), if_pos h2]
  · intro n h1 h2
    rw [sealGTurn, if_neg (by omega), if_pos h2]
  · intro n _ h2
    rw [sealGTurn, if_pos h2]

theorem sealG_turns (w : ℕ → DWord) (key : List Byte) (i : ℕ) : sealG w key i =
    let s := forRange 0 80 (sealGTurn (sealGWords i w)) (keyFive key)
    [(keyFive key).a + s.a, (keyFive key).b + s.b, (keyFive key).c + s.c, (keyFive key).d + s.d, (keyFive key).e + s.e] := by
  unfold sealG
  simp only [sealGTurn_loops]
  rfl

/-- The block of the hash: the index and zeros. -/
def indexBlock (i n : ℕ) : DWord := if n = 0 then BitVec.ofNat 32 i else 0

theorem sealGWords_schedule (i : ℕ) (w : ℕ → DWord) : AgreeBelow 80 (sealGWords i w) (Sha.schedule (indexBlock i)) := by
  have hblock : AgreeBelow 16 (forRange 1 16 (fun i w => Function.update w i 0) (Function.update w 0 (BitVec.ofNat 32 i)))
      (Sha.schedule (indexBlock i)) := by
    intro n hn
    rw [forRange_update_apply (by decide), Sha.schedule_first _ hn, indexBlock]
    by_cases h0 : n = 0
    · rw [h0, if_neg (by decide), Function.update_self, if_pos rfl]
    · rw [if_pos ⟨by omega, hn⟩, if_neg h0]
  refine forRange_inv (P := fun n (w : ℕ → DWord) => AgreeBelow n w (Sha.schedule (indexBlock i))) (by decide) hblock ?_
  intro n w h1 _ ih m hm
  by_cases hlast : m = n
  · rw [hlast, Function.update_self, Sha.schedule_next _ h1, ih (n - 3) (by omega), ih (n - 8) (by omega),
      ih (n - 14) (by omega), ih (n - 16) (by omega)]
  · rw [Function.update_of_ne hlast, ih m (by omega)]

def Five.registers (s : Five) : Sha.Registers := ⟨s.a, s.b, s.c, s.d, s.e⟩

/-- The registers of the code after `n` steps. -/
def codeRegisters (w : ℕ → DWord) (key : List Byte) (i n : ℕ) : Sha.Registers :=
  (forRange 0 n (sealGTurn (sealGWords i w)) (keyFive key)).registers

def shaRegisters (key : List Byte) (i n : ℕ) : Sha.Registers := Sha.registers (indexBlock i) (keyFive key).registers n

theorem rotr_rotl (x : DWord) {i j : ℕ} (hij : i + j = 32) : rotr x i = rotl x j := by
  have hi : 32 - i = j := by omega
  have hj : 32 - j = i := by omega
  rw [rotr, rotl, hi, hj, BitVec.or_comm]

/-- A step of the code is a step of the function, but for `e` in the third loop. -/
theorem sealGTurn_registers (w : ℕ → DWord) (n : ℕ) (s : Five) : (sealGTurn w n s).registers =
    if 40 ≤ n ∧ n < 60 then { Sha.step n (w n) s.registers with e := s.e } else Sha.step n (w n) s.registers := by
  have h27 : rotr s.a 27 = rotl s.a 5 := rotr_rotl s.a rfl
  have h2 : rotr s.b 2 = rotl s.b 30 := rotr_rotl s.b rfl
  unfold sealGTurn Sha.step Sha.f Sha.k
  by_cases h20 : n < 20
  · have hout : ¬ (40 ≤ n ∧ n < 60) := by omega
    simp only [if_neg hout, if_pos h20, sealGStep, Five.registers, h27, h2]
    rfl
  · by_cases h40 : n < 40
    · have hout : ¬ (40 ≤ n ∧ n < 60) := by omega
      simp only [if_neg hout, if_neg h20, if_pos h40, sealGStep, Five.registers, h27, h2]
      rfl
    · by_cases h60 : n < 60
      · have hin : 40 ≤ n ∧ n < 60 := by omega
        simp only [if_pos hin, if_neg h20, if_neg h40, if_pos h60, sealGStep, Five.registers, h27, h2]
        rfl
      · have hout : ¬ (40 ≤ n ∧ n < 60) := by omega
        simp only [if_neg hout, if_neg h20, if_neg h40, if_neg h60, sealGStep, Five.registers, h27, h2]
        rfl

theorem codeRegisters_succ (w : ℕ → DWord) (key : List Byte) (i : ℕ) {n : ℕ} (hn : n < 80) :
    codeRegisters w key i (n + 1) =
      if 40 ≤ n ∧ n < 60 then
        { Sha.step n (Sha.schedule (indexBlock i) n) (codeRegisters w key i n) with e := (codeRegisters w key i n).e }
      else Sha.step n (Sha.schedule (indexBlock i) n) (codeRegisters w key i n) := by
  unfold codeRegisters
  rw [forRange_succ (Nat.zero_le n), sealGTurn_registers, sealGWords_schedule i w n hn]
  rfl

theorem shaRegisters_succ (key : List Byte) (i n : ℕ) :
    shaRegisters key i (n + 1) = Sha.step n (Sha.schedule (indexBlock i) n) (shaRegisters key i n) :=
  Sha.registers_succ _ _ n

theorem sealG_registers (w : ℕ → DWord) (key : List Byte) (i : ℕ) : sealG w key i =
    [(keyFive key).a + (codeRegisters w key i 80).a, (keyFive key).b + (codeRegisters w key i 80).b,
      (keyFive key).c + (codeRegisters w key i 80).c, (keyFive key).d + (codeRegisters w key i 80).d,
      (keyFive key).e + (codeRegisters w key i 80).e] := by
  rw [sealG_turns]
  rfl

/-! ## Where the steps agree -/

/-- The five words are the compression function's if and only if the registers are after all 80 steps. -/
theorem sealG_words_iff (w : ℕ → DWord) (key : List Byte) (i : ℕ) :
    sealG w key i = Sha.compress (indexBlock i) (keyFive key).registers ↔ codeRegisters w key i 80 = shaRegisters key i 80 := by
  rw [sealG_registers]
  unfold Sha.compress
  constructor
  · intro h
    simp only [List.cons.injEq, and_true] at h
    obtain ⟨ha, hb, hc, hd, he⟩ := h
    have hcancel : ∀ {k x y : DWord}, k + x = k + y → x = y := fun h => by simpa using h
    exact Sha.Registers.ext (hcancel ha) (hcancel hb) (hcancel hc) (hcancel hd) (hcancel he)
  · intro h
    rw [h]
    rfl

/-- After the third loop a difference stays to the end. -/
theorem codeRegisters_last_iff (w : ℕ → DWord) (key : List Byte) (i : ℕ) :
    codeRegisters w key i 80 = shaRegisters key i 80 ↔ codeRegisters w key i 60 = shaRegisters key i 60 := by
  have hturn : ∀ n, 60 ≤ n → n < 80 →
      (codeRegisters w key i (n + 1) = shaRegisters key i (n + 1) ↔ codeRegisters w key i n = shaRegisters key i n) := by
    intro n h1 h2
    have hout : ¬ (40 ≤ n ∧ n < 60) := by omega
    rw [codeRegisters_succ w key i h2, if_neg hout, shaRegisters_succ]
    exact ⟨Sha.step_inj, fun h => by rw [h]⟩
  have hall : ∀ n, 60 ≤ n → n ≤ 80 →
      (codeRegisters w key i n = shaRegisters key i n ↔ codeRegisters w key i 60 = shaRegisters key i 60) := by
    intro n h1
    induction n, h1 using Nat.le_induction with
    | base => exact fun _ => Iff.rfl
    | succ n h1 ih => exact fun h2 => (hturn n h1 h2).trans (ih (by omega))
  exact hall 80 (by decide) le_rfl

/-- The third loop may leave out `e = d` where `e` and `d` are equal anyhow. -/
theorem codeRegisters_agree_iff (w : ℕ → DWord) (key : List Byte) (i : ℕ) :
    (∀ n, n ≤ 80 → codeRegisters w key i n = shaRegisters key i n) ↔
      ∀ n, 40 ≤ n → n < 60 → (shaRegisters key i n).d = (shaRegisters key i n).e := by
  constructor
  · intro h n h1 h2
    have hnext := h (n + 1) (by omega)
    rw [codeRegisters_succ w key i (by omega), if_pos ⟨h1, h2⟩, h n (by omega), shaRegisters_succ] at hnext
    exact (congrArg Sha.Registers.e hnext).symm
  · intro h n
    induction n with
    | zero => exact fun _ => rfl
    | succ n ih =>
      intro hn
      rw [codeRegisters_succ w key i (by omega), ih (by omega), shaRegisters_succ]
      by_cases hin : 40 ≤ n ∧ n < 60
      · rw [if_pos hin, ← h n hin.1 hin.2]
        rfl
      · rw [if_neg hin]

/-! ## The index and the keys -/

/-- `A` for which the registers `A`, `A` and three times `A` rotated stay as they are. -/
def Steady (A : DWord) : Prop := rotl A 5 + rotl A 30 + rotl A 30 + 0x8f1bbcdc = A

/-- The only number with the five high bits `t` and the two low bits `u` that may be steady: 63 times a steady number
is known modulo `2 ^ 33` from these bits. -/
def steadyNat (t u : ℕ) : ℕ := 7499149247 * (2 ^ 35 + (2 ^ 32 + 1) * u - 2 * t - 2 * 0x8f1bbcdc) % 2 ^ 33

theorem Steady.toNat {A : DWord} (h : Steady A) : A.toNat = steadyNat (A.toNat / 2 ^ 27) (A.toNat % 4) := by
  have hsum := congrArg BitVec.toNat h
  rw [BitVec.toNat_add, BitVec.toNat_add, BitVec.toNat_add, rotl_toNat A (by decide : 5 + 27 = 32),
    rotl_toNat A (by decide : 30 + 2 = 32)] at hsum
  have hk : (0x8f1bbcdc : DWord).toNat = 0x8f1bbcdc := rfl
  rw [hk] at hsum
  unfold steadyNat
  omega

theorem Steady.eq_or {A : DWord} (h : Steady A) : A = 0x54da8c4a ∨ A = 0xaa2fe19f := by
  have hfew : ∀ t < 32, ∀ u < 4, steadyNat t u / 2 ^ 27 = t → steadyNat t u % 4 = u →
      steadyNat t u = 0x54da8c4a ∨ steadyNat t u = 0xaa2fe19f := by
    decide
  have hA := h.toNat
  have h5 : A.toNat / 2 ^ 27 < 32 := by omega
  rcases hfew _ h5 _ (Nat.mod_lt A.toNat (by decide : 4 > 0)) (by rw [← hA]) (by rw [← hA]) with h1 | h1
  · left
    exact BitVec.eq_of_toNat_eq (hA.trans h1)
  · right
    exact BitVec.eq_of_toNat_eq (hA.trans h1)

def still (A : DWord) : Sha.Registers := ⟨A, A, rotl A 30, rotl A 30, rotl A 30⟩

/-- When all 20 steps find `d = e`, the registers stand still for 16 of them. -/
theorem shaRegisters_still {key : List Byte} {i : ℕ}
    (h : ∀ n, 40 ≤ n → n < 60 → (shaRegisters key i n).d = (shaRegisters key i n).e) {n : ℕ} (h1 : 40 ≤ n) (h2 : n < 57) :
    shaRegisters key i n = still (shaRegisters key i n).a := by
  have hnext : ∀ n, (shaRegisters key i (n + 1)).b = (shaRegisters key i n).a ∧
      (shaRegisters key i (n + 1)).c = rotl (shaRegisters key i n).b 30 ∧
      (shaRegisters key i (n + 1)).d = (shaRegisters key i n).c ∧ (shaRegisters key i (n + 1)).e = (shaRegisters key i n).d := by
    intro n
    rw [shaRegisters_succ]
    exact ⟨rfl, rfl, rfl, rfl⟩
  have hcd : ∀ n, 40 ≤ n → n < 59 → (shaRegisters key i n).c = (shaRegisters key i n).d := by
    intro n h1 h2
    have heq := h (n + 1) (by omega) (by omega)
    rwa [(hnext n).2.2.1, (hnext n).2.2.2] at heq
  have hbc : ∀ n, 40 ≤ n → n < 58 → rotl (shaRegisters key i n).b 30 = (shaRegisters key i n).c := by
    intro n h1 h2
    have heq := hcd (n + 1) (by omega) (by omega)
    rwa [(hnext n).2.1, (hnext n).2.2.1] at heq
  have hab : (shaRegisters key i n).a = (shaRegisters key i n).b := by
    have heq := hbc (n + 1) (by omega) (by omega)
    rw [(hnext n).1, (hnext n).2.1] at heq
    exact Sha.rotl_thirty_inj heq
  have hc : (shaRegisters key i n).c = rotl (shaRegisters key i n).a 30 := by
    rw [← hbc n h1 (by omega), hab]
  have hd : (shaRegisters key i n).d = rotl (shaRegisters key i n).a 30 := by
    rw [← hcd n h1 (by omega), hc]
  have he : (shaRegisters key i n).e = rotl (shaRegisters key i n).a 30 := by
    rw [← h n h1 (by omega), hd]
  exact Sha.Registers.ext rfl hab.symm hc hd he

theorem step_still {n : ℕ} (h1 : 40 ≤ n) (h2 : n < 60) (w A : DWord) : Sha.step n w (still A) =
    ⟨rotl A 5 + rotl A 30 + rotl A 30 + w + 0x8f1bbcdc, A, rotl A 30, rotl A 30, rotl A 30⟩ := by
  have hmaj : Sha.maj A (rotl A 30) (rotl A 30) = rotl A 30 := by
    unfold Sha.maj
    grind
  have hf : Sha.f n = Sha.maj := by
    rw [Sha.f, if_neg (by omega), if_neg (by omega), if_pos h2]
  have hk : Sha.k n = 0x8f1bbcdc := by
    rw [Sha.k, if_neg (by omega), if_neg (by omega), if_pos h2]
  unfold Sha.step
  rw [hf, hk]
  simp only [still, hmaj]

def indexPlaces : BitVec 80 := 0x5a10b7d7186c93490001

theorem schedule_index (i : ℕ) {n : ℕ} (hn : n < 80) :
    Sha.schedule (indexBlock i) n = if indexPlaces.getLsbD n then BitVec.ofNat 32 i else 0 := by
  refine Sha.schedule_places (m := indexPlaces.getLsbD) ?_ ?_ hn
  · intro n hn
    interval_cases n <;> rfl
  · intro n h1 h2
    have hall : ∀ n < 80, 16 ≤ n → indexPlaces.getLsbD n =
        (indexPlaces.getLsbD (n - 3) ^^ indexPlaces.getLsbD (n - 8) ^^ indexPlaces.getLsbD (n - 14) ^^ indexPlaces.getLsbD (n - 16)) := by
      decide
    exact hall n h2 h1

/-- Step 40 finds a 0 in the schedule and step 43 the index. -/
theorem steady_of_agree {key : List Byte} {i : ℕ}
    (h : ∀ n, 40 ≤ n → n < 60 → (shaRegisters key i n).d = (shaRegisters key i n).e) :
    BitVec.ofNat 32 i = 0 ∧ ∃ A, Steady A ∧ shaRegisters key i 40 = still A := by
  have hsum : ∀ n, 40 ≤ n → n < 56 → (shaRegisters key i (n + 1)).a = (shaRegisters key i n).a ∧
      rotl (shaRegisters key i n).a 5 + rotl (shaRegisters key i n).a 30 + rotl (shaRegisters key i n).a 30 +
        Sha.schedule (indexBlock i) n + 0x8f1bbcdc = (shaRegisters key i n).a := by
    intro n h1 h2
    have hstep := shaRegisters_succ key i n
    rw [shaRegisters_still h h1 (by omega), step_still h1 (by omega),
      shaRegisters_still h (by omega : 40 ≤ n + 1) (by omega)] at hstep
    obtain ⟨ha, hb, -⟩ := Sha.Registers.mk.inj hstep
    exact ⟨hb, ha.symm.trans hb⟩
  have hsame : (shaRegisters key i 43).a = (shaRegisters key i 40).a := by
    rw [(hsum 42 (by decide) (by decide)).1, (hsum 41 (by decide) (by decide)).1, (hsum 40 (by decide) (by decide)).1]
  have h40 := (hsum 40 (by decide) (by decide)).2
  have h43 := (hsum 43 (by decide) (by decide)).2
  have hw40 : Sha.schedule (indexBlock i) 40 = 0#32 := by
    rw [schedule_index i (by decide)]
    rfl
  have hw43 : Sha.schedule (indexBlock i) 43 = BitVec.ofNat 32 i := by
    rw [schedule_index i (by decide)]
    rfl
  rw [hw40, BitVec.add_zero] at h40
  rw [hw43, hsame] at h43
  refine ⟨?_, _, h40, shaRegisters_still h le_rfl (by decide)⟩
  have hadd := h43.trans h40.symm
  simpa using hadd

def firstKey : Sha.Registers := ⟨0x32e2486c, 0xfc7c0627, 0xf6b7137f, 0xbb15e890, 0xb30853b8⟩

def secondKey : Sha.Registers := ⟨0x64f199a5, 0x418cbe4e, 0x7e3c408e, 0x175aa716, 0xf2777f4b⟩

/-- The words of a key that 40 steps on zeros take to registers that stand still. -/
def steadyKeys : List Sha.Registers := [firstKey, secondKey]

theorem schedule_zeros {i : ℕ} (hi : BitVec.ofNat 32 i = 0) {n : ℕ} (hn : n < 80) : Sha.schedule (indexBlock i) n = 0 := by
  rw [schedule_index i hn, hi, ite_self]

theorem registers_zeros {i : ℕ} (hi : BitVec.ofNat 32 i = 0) (s : Sha.Registers) {n : ℕ} (hn : n ≤ 80) :
    Sha.registers (indexBlock i) s n = forRange 0 n (fun n => Sha.step n 0) s := by
  refine forRange_congr s fun m s _ hm => ?_
  rw [schedule_zeros hi (by omega)]

theorem codeRegisters_zeros (w : ℕ → DWord) (key : List Byte) {i : ℕ} (hi : BitVec.ofNat 32 i = 0) {n : ℕ} (hn : n ≤ 80) :
    codeRegisters w key i n = (forRange 0 n (sealGTurn fun _ => 0) (keyFive key)).registers := by
  unfold codeRegisters
  refine congrArg Five.registers (forRange_congr _ fun m s _ hm => ?_)
  have hword : sealGWords i w m = 0 := by
    rw [sealGWords_schedule i w m (by omega), schedule_zeros hi (by omega)]
  unfold sealGTurn sealGStep
  rw [hword]

theorem registers_steady {A : DWord} (hA : Steady A) {key : List Byte} {i : ℕ} (hi : BitVec.ofNat 32 i = 0)
    (h40 : shaRegisters key i 40 = still A) {n : ℕ} (h1 : 40 ≤ n) (h2 : n < 60) : shaRegisters key i n = still A := by
  induction n, h1 using Nat.le_induction with
  | base => exact h40
  | succ n h1 ih =>
    rw [shaRegisters_succ, ih (by omega), schedule_zeros hi (by omega), step_still h1 (by omega), BitVec.ofNat_eq_ofNat,
      BitVec.add_zero]
    unfold Steady at hA
    rw [hA]
    rfl

theorem firstKey_still : forRange 0 40 (fun n => Sha.step n 0) firstKey = still 0x54da8c4a := by
  decide

theorem secondKey_still : forRange 0 40 (fun n => Sha.step n 0) secondKey = still 0xaa2fe19f := by
  decide

theorem agree_iff (key : List Byte) (i : ℕ) :
    (∀ n, 40 ≤ n → n < 60 → (shaRegisters key i n).d = (shaRegisters key i n).e) ↔
      BitVec.ofNat 32 i = 0 ∧ (keyFive key).registers ∈ steadyKeys := by
  constructor
  · intro h
    obtain ⟨hi, A, hA, h40⟩ := steady_of_agree h
    refine ⟨hi, ?_⟩
    rcases hA.eq_or with rfl | rfl
    · rw [← firstKey_still, ← registers_zeros hi _ (by decide)] at h40
      rw [Sha.registers_inj h40]
      exact List.mem_cons_self
    · rw [← secondKey_still, ← registers_zeros hi _ (by decide)] at h40
      rw [Sha.registers_inj h40]
      exact List.mem_cons_of_mem _ List.mem_cons_self
  · rintro ⟨hi, hkey⟩
    have hstill : ∃ A, Steady A ∧ shaRegisters key i 40 = still A := by
      unfold shaRegisters
      rw [registers_zeros hi _ (by decide)]
      rcases List.mem_cons.mp hkey with hkey | hkey
      · exact ⟨0x54da8c4a, by unfold Steady; decide, by rw [hkey, firstKey_still]⟩
      · rw [List.mem_singleton] at hkey
        exact ⟨0xaa2fe19f, by unfold Steady; decide, by rw [hkey, secondKey_still]⟩
    obtain ⟨A, hA, h40⟩ := hstill
    intro n h1 h2
    rw [registers_steady hA hi h40 h1 h2]
    rfl

/-- The compression function: its 80 steps, and the sum of what they leave and the key. -/
structure SealPrescribed (key : List Byte) (i : ℕ) : Prop where
  steps : ∀ w n, n ≤ 80 → codeRegisters w key i n = shaRegisters key i n
  words : ∀ w, sealG w key i = Sha.compress (indexBlock i) (keyFive key).registers

theorem sealG_prescribed_iff (key : List Byte) (i : ℕ) :
    SealPrescribed key i ↔ BitVec.ofNat 32 i = 0 ∧ (keyFive key).registers ∈ steadyKeys := by
  rw [← agree_iff]
  constructor
  · intro h
    exact (codeRegisters_agree_iff (fun _ => 0) key i).mp (h.steps _)
  · intro h
    have hsteps := fun w => (codeRegisters_agree_iff w key i).mpr h
    exact ⟨hsteps, fun w => (sealG_words_iff w key i).mpr (hsteps w 80 le_rfl)⟩

/-- A key of zeros. -/
theorem sealG_differs : sealG (fun _ => 0) (List.replicate 20 0) 0 ≠
    Sha.compress (indexBlock 0) (keyFive (List.replicate 20 0)).registers := by
  intro h
  rw [sealG_words_iff, codeRegisters_last_iff, codeRegisters_zeros _ _ rfl (by decide)] at h
  unfold shaRegisters at h
  rw [registers_zeros rfl _ (by decide)] at h
  revert h
  decide

end StarLib.SerialManager
