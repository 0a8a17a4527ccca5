import StarLib.Foundations.Arrays
import StarLib.SerialManager.Tables

/-! # The DES variant of `CSerialManager`

Key schedule and block function as the source has them, deviations included: `des_cookey` steps through
the raw keys by one where two belong to a round, and the sixth table has a digit out of place. The key
schedule works on local arrays and on the static `KnL`; `desKey_ek` says that the schedule it leaves in
the context is a function of the key.
-/

namespace StarLib.SerialManager
open Foundations
set_option autoImplicit false
set_option maxHeartbeats 250000
set_option maxRecDepth 120000

def ENO : ℕ := 0

def DE1 : ℕ := 1

structure DesCtx where
  ek : ℕ → DWord
  dk : ℕ → DWord

/-- The memory that the key schedule finds: three local arrays, `dough` and the static `KnL`. -/
structure DesMemory where
  pclm : ℕ → Byte
  pcr : ℕ → Byte
  kn : ℕ → DWord
  dough : ℕ → DWord
  KnL : ℕ → DWord

/-! ## The key schedule -/

/-- `(key[l >> 3] & bytebit[m]) ? 1 : 0` for `l = pc1[j]`. -/
def keyBit (key : List Byte) (j : ℕ) : Byte :=
  let l := pc1.getD j 0
  let m := l % 8
  if key.getD (l / 8) 0 &&& bytebit.getD m 0 ≠ 0 then 1 else 0

def rotateHalves (rot : ℕ) (pclm pcr : ℕ → Byte) : ℕ → Byte :=
  let pcr := forRange 0 28 (fun j pcr =>
    let l := j + rot
    Function.update pcr j (if l < 28 then pclm l else pclm (l - 28))) pcr
  forRange 28 56 (fun j pcr =>
    let l := j + rot
    Function.update pcr j (if l < 56 then pclm l else pclm (l - 28))) pcr

/-- `kn[m] |= bigbyte[j]` if bit `pc2[j + off]` of the rotated key is set. -/
def orBit (pcr : ℕ → Byte) (m off j : ℕ) (kn : ℕ → DWord) : ℕ → DWord :=
  if pcr (pc2.getD (j + off) 0) ≠ 0 then Function.update kn m (kn m ||| bigbyte.getD j 0) else kn

structure KeyWork where
  pcr : ℕ → Byte
  kn : ℕ → DWord

def deskeyRound (edf : ℕ) (pclm : ℕ → Byte) (i : ℕ) (s : KeyWork) : KeyWork :=
  let m := if edf = DE1 then 2 * (15 - i) else 2 * i
  let n := m + 1
  let kn := Function.update (Function.update s.kn n 0) m 0
  let pcr := rotateHalves (totrot.getD i 0) pclm s.pcr
  ⟨pcr, forRange 0 24 (fun j kn => orBit pcr n 24 j (orBit pcr m 0 j kn)) kn⟩

def cook0 (raw0 raw1 : DWord) : DWord :=
  ((raw0 &&& 0x00fc0000) <<< 6) ||| ((raw0 &&& 0x00000fc0) <<< 10) ||| ((raw1 &&& 0x00fc0000) >>> 10) |||
    ((raw1 &&& 0x00000fc0) >>> 6)

def cook1 (raw0 raw1 : DWord) : DWord :=
  ((raw0 &&& 0x0003f000) <<< 12) ||| ((raw0 &&& 0x0000003f) <<< 16) ||| ((raw1 &&& 0x0003f000) >>> 4) |||
    (raw1 &&& 0x0000003f)

/-- `des_cookey`. `raw1` moves on by one word a turn, so neighbouring turns share a word. -/
def desCookey (raw dough : ℕ → DWord) : ℕ → DWord :=
  fillPairs 16 (fun i => cook0 (raw i) (raw (i + 1))) (fun i => cook1 (raw i) (raw (i + 1))) dough

def desUsekey (source KnL : ℕ → DWord) : ℕ → DWord := fill 32 source KnL

def desCpkey (KnL into : ℕ → DWord) : ℕ → DWord := fill 32 KnL into

/-- `des_deskey`, with the `KnL` that it leaves. -/
def desDeskey (mem : DesMemory) (key : List Byte) (edf : ℕ) : ℕ → DWord :=
  let pclm := forRange 0 56 (fun j pclm => Function.update pclm j (keyBit key j)) mem.pclm
  let s := forRange 0 16 (deskeyRound edf pclm) ⟨mem.pcr, mem.kn⟩
  desUsekey (desCookey s.kn mem.dough) mem.KnL

/-- `des_key`; the schedule for decryption is commented out in the source. -/
def desKey (mem : DesMemory) (dc : DesCtx) (key : List Byte) : DesCtx :=
  let KnL := desDeskey mem key ENO
  { dc with ek := desCpkey KnL dc.ek }

/-! ## Blocks -/

def entrySP (table : List DWord) (x : DWord) : DWord := table.getD (x &&& 0x3f).toNat 0

/-- The eight table lookups of a half round, from the two keyed words. -/
def fval (work work' : DWord) : DWord :=
  entrySP SP7 work ||| entrySP SP5 (work >>> 8) ||| entrySP SP3 (work >>> 16) ||| entrySP SP1 (work >>> 24) |||
    entrySP SP8 work' ||| entrySP SP6 (work' >>> 8) ||| entrySP SP4 (work' >>> 16) |||
    entrySP SP2 (work' >>> 24)

/-- One of the eight double rounds, on the halves `leftt` and `right`. -/
def desRound (keys : ℕ → DWord) (round : ℕ) (s : DWord × DWord) : DWord × DWord :=
  let leftt := s.1
  let right := s.2
  let leftt := leftt ^^^ fval (((right <<< 28) ||| (right >>> 4)) ^^^ keys (4 * round))
    (right ^^^ keys (4 * round + 1))
  let right := right ^^^ fval (((leftt <<< 28) ||| (leftt >>> 4)) ^^^ keys (4 * round + 2))
    (leftt ^^^ keys (4 * round + 3))
  (leftt, right)

/-- The exchange of bits selected by `mask` between `a >> n` and `b`; the results for `a` and `b`. -/
def exchange (n : ℕ) (mask a b : DWord) : DWord × DWord :=
  let work := ((a >>> n) ^^^ b) &&& mask
  (a ^^^ (work <<< n), b ^^^ work)

/-- `des_desfunc`, on `block[0]` and `block[1]`. -/
def desDesfunc (block : DWord × DWord) (keys : ℕ → DWord) : DWord × DWord :=
  let (leftt, right) := exchange 4 0x0f0f0f0f block.1 block.2
  let (leftt, right) := exchange 16 0x0000ffff leftt right
  let (right, leftt) := exchange 2 0x33333333 right leftt
  let (right, leftt) := exchange 8 0x00ff00ff right leftt
  let right := (right <<< 1) ||| ((right >>> 31) &&& 1)
  let (leftt, right) := exchange 0 0xaaaaaaaa leftt right
  let leftt := (leftt <<< 1) ||| ((leftt >>> 31) &&& 1)
  let (leftt, right) := forRange 0 8 (desRound keys) (leftt, right)
  let right := (right <<< 31) ||| (right >>> 1)
  let (leftt, right) := exchange 0 0xaaaaaaaa leftt right
  let leftt := (leftt <<< 31) ||| (leftt >>> 1)
  let (leftt, right) := exchange 8 0x00ff00ff leftt right
  let (leftt, right) := exchange 2 0x33333333 leftt right
  let (right, leftt) := exchange 16 0x0000ffff right leftt
  let (right, leftt) := exchange 4 0x0f0f0f0f right leftt
  (right, leftt)

/-- `des_scrunch`, on the eight bytes at `off`. -/
def desScrunch (outof : ℕ → Byte) (off : ℕ) : DWord × DWord :=
  let word := fun k => ((outof (off + k)).setWidth 32 <<< 24) ||| ((outof (off + k + 1)).setWidth 32 <<< 16) |||
    ((outof (off + k + 2)).setWidth 32 <<< 8) ||| (outof (off + k + 3)).setWidth 32
  (word 0, word 4)

/-- `des_unscrun`: byte `k` of the two words, the first one on top. -/
def desUnscrun (outof : DWord × DWord) (k : ℕ) : Byte :=
  if k < 4 then (outof.1 >>> (24 - 8 * k)).setWidth 8 else (outof.2 >>> (24 - 8 * (k - 4))).setWidth 8

/-- `des_enc`. -/
def desEnc (dc : DesCtx) (blocks : ℕ) (data : ℕ → Byte) : ℕ → Byte :=
  forRange 0 blocks (fun i data =>
    fillAt (8 * i) 8 (desUnscrun (desDesfunc (desScrunch data (8 * i)) dc.ek)) data) data

/-- `DesEnc`, on a context allocated before the call. -/
def desEncrypt (mem : DesMemory) (dc : DesCtx) (key : List Byte) (blocks : ℕ) (data : ℕ → Byte) : ℕ → Byte :=
  desEnc (desKey mem dc key) blocks data

/-! ## The schedule in closed form -/

/-- Where round `i` finds bit `j` of its rotated key. -/
def rotatedBit (i j : ℕ) : ℕ :=
  let l := j + totrot.getD i 0
  if j < 28 then (if l < 28 then l else l - 28) else (if l < 56 then l else l - 28)

/-- A raw key word: the bits `pc2[off], …, pc2[off+23]` of the rotated key of round `i`. -/
def rawWord (key : List Byte) (i off : ℕ) : DWord :=
  forRange 0 24 (fun j k =>
    if keyBit key (rotatedBit i (pc2.getD (j + off) 0)) ≠ 0 then k ||| bigbyte.getD j 0 else k) 0

def rawKey (key : List Byte) (m : ℕ) : DWord :=
  if m % 2 = 0 then rawWord key (m / 2) 0 else rawWord key (m / 2) 24

/-- Word `m` of the encryption schedule of `key`. -/
def scheduleWord (key : List Byte) (m : ℕ) : DWord :=
  if m % 2 = 0 then cook0 (rawKey key (m / 2)) (rawKey key (m / 2 + 1))
  else cook1 (rawKey key (m / 2)) (rawKey key (m / 2 + 1))

theorem pc2_lt (j : ℕ) : pc2.getD j 0 < 56 := by
  by_cases hj : j < pc2.length
  · have hall : ∀ x ∈ pc2, x < 56 := by decide
    rw [List.getD_eq_getElem pc2 0 hj]
    exact hall _ (List.getElem_mem hj)
  · rw [List.getD_eq_default pc2 0 (by omega)]
    omega

theorem rotateHalves_apply (i : ℕ) {j : ℕ} (hi : i < 16) (hj : j < 56) (key : List Byte) (pclm pcr : ℕ → Byte)
    (hpclm : ∀ j < 56, pclm j = keyBit key j) :
    rotateHalves (totrot.getD i 0) pclm pcr j = keyBit key (rotatedBit i j) := by
  have hrot : totrot.getD i 0 ≤ 28 := by
    interval_cases i <;> decide
  unfold rotateHalves rotatedBit
  simp only
  generalize totrot.getD i 0 = rot at hrot ⊢
  rw [forRange_update_apply (by omega), forRange_update_apply (by omega)]
  by_cases hhalf : j < 28
  · have hno : ¬ (28 ≤ j ∧ j < 56) := by omega
    rw [if_neg hno, if_pos ⟨Nat.zero_le j, hhalf⟩, if_pos hhalf]
    split
    · exact hpclm _ (by omega)
    · exact hpclm _ (by omega)
  · rw [if_pos ⟨by omega, hj⟩, if_neg hhalf]
    split
    · exact hpclm _ (by omega)
    · exact hpclm _ (by omega)

/-- The two key words of a round, bit by bit; the other words stay. -/
theorem orBits_apply (key : List Byte) (i m : ℕ) (pcr : ℕ → Byte) (kn : ℕ → DWord)
    (hpcr : ∀ j < 56, pcr j = keyBit key (rotatedBit i j)) (h0 : kn m = 0) (h1 : kn (m + 1) = 0) :
    let kn' := forRange 0 24 (fun j kn => orBit pcr (m + 1) 24 j (orBit pcr m 0 j kn)) kn
    kn' m = rawWord key i 0 ∧ kn' (m + 1) = rawWord key i 24 ∧
      ∀ p, p ≠ m → p ≠ m + 1 → kn' p = kn p := by
  have hor : ∀ off m j (kn : ℕ → DWord), orBit pcr m off j kn = Function.update kn m
      (if keyBit key (rotatedBit i (pc2.getD (j + off) 0)) ≠ 0 then kn m ||| bigbyte.getD j 0 else kn m) := by
    intro off m j kn
    unfold orBit
    rw [hpcr _ (pc2_lt _)]
    split
    · rfl
    · exact (Function.update_eq_self m kn).symm
  have hne : m ≠ m + 1 := Nat.ne_of_lt (Nat.lt_succ_self m)
  refine forRange_inv (P := fun n (kn' : ℕ → DWord) =>
    kn' m = forRange 0 n (fun j k =>
      if keyBit key (rotatedBit i (pc2.getD (j + 0) 0)) ≠ 0 then k ||| bigbyte.getD j 0 else k) 0 ∧
    kn' (m + 1) = forRange 0 n (fun j k =>
      if keyBit key (rotatedBit i (pc2.getD (j + 24) 0)) ≠ 0 then k ||| bigbyte.getD j 0 else k) 0 ∧
    ∀ p, p ≠ m → p ≠ m + 1 → kn' p = kn p) (Nat.zero_le 24) ?_ ?_
  · exact ⟨h0, h1, fun p _ _ => rfl⟩
  · rintro j kn' _ _ ⟨ih0, ih1, ih⟩
    rw [hor, hor, forRange_succ (Nat.zero_le j), forRange_succ (Nat.zero_le j), ← ih0, ← ih1]
    refine ⟨?_, ?_, ?_⟩
    · rw [Function.update_of_ne hne, Function.update_self]
    · rw [Function.update_self, Function.update_of_ne hne.symm]
    · intro p hp0 hp1
      rw [Function.update_of_ne hp1, Function.update_of_ne hp0, ih p hp0 hp1]

theorem deskeyRounds_kn (key : List Byte) (pclm : ℕ → Byte) (hpclm : ∀ j < 56, pclm j = keyBit key j)
    (s : KeyWork) {m : ℕ} (hm : m < 32) :
    (forRange 0 16 (deskeyRound ENO pclm) s).kn m = rawKey key m := by
  refine forRange_inv (P := fun i (s : KeyWork) => ∀ m < 2 * i, s.kn m = rawKey key m) (Nat.zero_le 16)
    ?_ ?_ m hm
  · intro m hm
    omega
  · intro i s _ hi ih m hm
    have hENO : (if ENO = DE1 then 2 * (15 - i) else 2 * i) = 2 * i := rfl
    unfold deskeyRound
    simp only [hENO]
    obtain ⟨h0, h1, hother⟩ := orBits_apply key i (2 * i) (rotateHalves (totrot.getD i 0) pclm s.pcr)
      (Function.update (Function.update s.kn (2 * i + 1) 0) (2 * i) 0)
      (fun j hj => rotateHalves_apply i hi hj key pclm s.pcr hpclm) (by simp) (by simp)
    by_cases heven : m = 2 * i
    · have hmod : m % 2 = 0 := by omega
      have hdiv : m / 2 = i := by omega
      rw [rawKey, if_pos hmod, hdiv, heven, h0]
    · by_cases hodd : m = 2 * i + 1
      · have hmod : ¬ m % 2 = 0 := by omega
        have hdiv : m / 2 = i := by omega
        rw [rawKey, if_neg hmod, hdiv, hodd, h1]
      · rw [hother m heven hodd, Function.update_of_ne heven, Function.update_of_ne hodd, ih m (by omega)]

/-- Whatever the arrays and the context held before, `des_key` leaves the schedule of the key. -/
theorem desKey_ek (mem : DesMemory) (dc : DesCtx) (key : List Byte) {m : ℕ} (hm : m < 32) :
    (desKey mem dc key).ek m = scheduleWord key m := by
  have hpclm : ∀ j < 56, forRange 0 56 (fun j pclm => Function.update pclm j (keyBit key j)) mem.pclm j =
      keyBit key j := by
    intro j hj
    rw [forRange_update_apply (by omega), if_pos ⟨Nat.zero_le j, hj⟩]
  have hkn := fun m (hm : m < 32) => deskeyRounds_kn key _ hpclm ⟨mem.pcr, mem.kn⟩ hm
  unfold desKey desDeskey desCpkey desUsekey desCookey
  simp only
  rw [fill_apply_of_lt hm, fill_apply_of_lt hm, fillPairs_apply _ _ _ (by omega : m < 2 * 16)]
  unfold scheduleWord
  rw [hkn (m / 2) (by omega), hkn (m / 2 + 1) (by omega)]

/-! ## What the block function reads -/

theorem desDesfunc_congr {keys keys' : ℕ → DWord} (h : AgreeBelow 32 keys keys') (block : DWord × DWord) :
    desDesfunc block keys = desDesfunc block keys' := by
  have hround : ∀ s : DWord × DWord, forRange 0 8 (desRound keys) s = forRange 0 8 (desRound keys') s := by
    intro s
    refine forRange_congr s fun i s _ hi => ?_
    unfold desRound
    rw [h (4 * i) (by omega), h (4 * i + 1) (by omega), h (4 * i + 2) (by omega), h (4 * i + 3) (by omega)]
  unfold desDesfunc
  simp only [hround]

theorem desScrunch_congr {n off : ℕ} {a b : ℕ → Byte} (h : AgreeBelow n a b) (hoff : off + 8 ≤ n) :
    desScrunch a off = desScrunch b off := by
  unfold desScrunch
  simp only [Nat.add_zero]
  rw [h off (by omega), h (off + 1) (by omega), h (off + 2) (by omega), h (off + 3) (by omega),
    h (off + 4) (by omega), h (off + 4 + 1) (by omega), h (off + 4 + 2) (by omega), h (off + 4 + 3) (by omega)]

/-- The blocks are enciphered one by one: a turn reads only bytes that no turn before it wrote. -/
theorem desEnc_apply (dc : DesCtx) {blocks p : ℕ} (hp : p < 8 * blocks) (data : ℕ → Byte) :
    desEnc dc blocks data p = desUnscrun (desDesfunc (desScrunch data (8 * (p / 8))) dc.ek) (p % 8) := by
  have hall := forRange_inv (f := fun i data =>
      fillAt (8 * i) 8 (desUnscrun (desDesfunc (desScrunch data (8 * i)) dc.ek)) data) (s := data)
    (P := fun i (d : ℕ → Byte) => ∀ p, d p = if p < 8 * i then
      desUnscrun (desDesfunc (desScrunch data (8 * (p / 8))) dc.ek) (p % 8) else data p) (Nat.zero_le blocks)
    (fun p => rfl) ?_ p
  · rw [if_pos hp] at hall
    exact hall
  · intro i d _ _ ih p
    have hread : desScrunch d (8 * i) = desScrunch data (8 * i) := by
      have hcell : ∀ k, 8 * i ≤ k → d k = data k := by
        intro k hk
        rw [ih k, if_neg (by omega)]
      unfold desScrunch
      simp only [hcell (8 * i + _) (Nat.le_add_right _ _), Nat.add_assoc]
    rw [hread, fillAt_apply, ih p]
    by_cases hin : 8 * i ≤ p ∧ p < 8 * i + 8
    · have hdiv : p / 8 = i := by omega
      have hmod : p - 8 * i = p % 8 := by omega
      rw [if_pos hin, if_pos (by omega), hdiv, hmod]
    · rw [if_neg hin]
      by_cases hbelow : p < 8 * i
      · rw [if_pos hbelow, if_pos (by omega)]
      · rw [if_neg hbelow, if_neg (by omega)]

/-- Encrypting equal data gives equal data, whatever the key schedule found in memory. -/
theorem desEncrypt_agree (mem mem' : DesMemory) (dc dc' : DesCtx) (key : List Byte) (blocks : ℕ)
    {a b : ℕ → Byte} (h : AgreeBelow (8 * blocks) a b) :
    AgreeBelow (8 * blocks) (desEncrypt mem dc key blocks a) (desEncrypt mem' dc' key blocks b) := by
  have hek : AgreeBelow 32 (desKey mem dc key).ek (desKey mem' dc' key).ek := by
    intro m hm
    rw [desKey_ek mem dc key hm, desKey_ek mem' dc' key hm]
  refine forRange_rel (fun _ a b => AgreeBelow (8 * blocks) a b) (Nat.zero_le blocks) h ?_
  intro i a b _ hi hab
  rw [desScrunch_congr hab (by omega), desDesfunc_congr hek]
  exact hab.fillAt _ _ fun _ _ => rfl

end StarLib.SerialManager
