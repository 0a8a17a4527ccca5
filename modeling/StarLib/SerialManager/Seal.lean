import StarLib.Foundations.Arrays
import StarLib.Foundations.Words

/-! # The SEAL variant of `CSerialManager`

The hash `seal_g` fills the three tables of a context, `seal` makes 1024 words of key stream from them,
and `seal_encrypt` reads the stream. A fresh context has its position at 1024, where the buffer ends and
the position itself is stored: the first word read is the number 1024 (`ksWord`), and only then the
buffer is filled.
-/

namespace StarLib.SerialManager
open Foundations
set_option autoImplicit false
set_option maxHeartbeats 250000
set_option maxRecDepth 120000

def WORDS_PER_SEAL_CALL : ℕ := 1024

structure SealCtx where
  t : ℕ → DWord
  s : ℕ → DWord
  r : ℕ → DWord
  counter : DWord
  ksBuf : ℕ → DWord
  ksPos : ℕ

/-- `ROT2`, `ROT8`, … of the header: to the right by `n`. -/
def rotr (x : DWord) (n : ℕ) : DWord := (x >>> n) ||| (x <<< (32 - n))

/-! ## The hash -/

def F1 (x y z : DWord) : DWord := (x &&& y) ||| (~~~x &&& z)

def F2 (x y z : DWord) : DWord := x ^^^ y ^^^ z

def F3 (x y z : DWord) : DWord := (x &&& y) ||| (x &&& z) ||| (y &&& z)

def F4 (x y z : DWord) : DWord := x ^^^ y ^^^ z

/-- `WORD(kp)`. -/
def keyWORD (key : List Byte) (off : ℕ) : DWord :=
  ((key.getD off 0).setWidth 32 <<< 24) ||| ((key.getD (off + 1) 0).setWidth 32 <<< 16) |||
    ((key.getD (off + 2) 0).setWidth 32 <<< 8) ||| (key.getD (off + 3) 0).setWidth 32

structure Five where
  a : DWord
  b : DWord
  c : DWord
  d : DWord
  e : DWord

/-- A step of the hash. The third group of steps lacks the assignment `e = d`. -/
def sealGStep (F : DWord → DWord → DWord → DWord) (k : DWord) (shiftE : Bool) (w : ℕ → DWord) (i : ℕ) (s : Five) :
    Five :=
  let temp := rotr s.a 27 + F s.b s.c s.d + s.e + w i + k
  ⟨temp, s.a, rotr s.b 2, s.c, if shiftE then s.d else s.e⟩

def sealGWords (i : ℕ) (w : ℕ → DWord) : ℕ → DWord :=
  let w := Function.update w 0 (BitVec.ofNat 32 i)
  let w := forRange 1 16 (fun i w => Function.update w i 0) w
  forRange 16 80 (fun i w => Function.update w i (w (i - 3) ^^^ w (i - 8) ^^^ w (i - 14) ^^^ w (i - 16))) w

/-- `seal_g`: the five words it stores. `w` is the local array before the call. -/
def sealG (w : ℕ → DWord) (key : List Byte) (i : ℕ) : List DWord :=
  let h0 := keyWORD key 0
  let h1 := keyWORD key 4
  let h2 := keyWORD key 8
  let h3 := keyWORD key 12
  let h4 := keyWORD key 16
  let w := sealGWords i w
  let s : Five := ⟨h0, h1, h2, h3, h4⟩
  let s := forRange 0 20 (sealGStep F1 0x5a827999 true w) s
  let s := forRange 20 40 (sealGStep F2 0x6ed9eba1 true w) s
  let s := forRange 40 60 (sealGStep F3 0x8f1bbcdc false w) s
  let s := forRange 60 80 (sealGStep F4 0xca62c1d6 true w) s
  [h0 + s.a, h1 + s.b, h2 + s.c, h3 + s.d, h4 + s.e]

/-- `seal_init`. The calls of `seal_g` have different numbers; `w n` is what call `n` finds on the
stack. -/
def sealInit (w : ℕ → ℕ → DWord) (c : SealCtx) (key : List Byte) : SealCtx :=
  let g := fun n => sealG (w n) key n
  let t := forRange 0 102 (fun k t => fillAt (5 * k) 5 (fun j => (g (5 * k / 5)).getD j 0) t) c.t
  let t := fillAt 510 2 (fun j => (g (510 / 5)).getD j 0) t
  let s := fillAt 0 4 (fun j => (g ((0x1000 - 1) / 5)).getD (j + 1) 0) c.s
  let s := forRange 0 50 (fun k s =>
    fillAt (4 + 5 * k) 5 (fun j => (g ((4 + 5 * k + 0x1000) / 5)).getD j 0) s) s
  let s := fillAt 254 2 (fun j => (g ((254 + 0x1000) / 5)).getD j 0) s
  let r := fillAt 0 3 (fun j => (g ((0x2000 - 2) / 5)).getD (j + 2) 0) c.r
  let r := forRange 0 2 (fun k r =>
    fillAt (3 + 5 * k) 5 (fun j => (g ((3 + 5 * k + 0x2000) / 5)).getD j 0) r) r
  let r := fillAt 13 3 (fun j => (g ((13 + 0x2000) / 5)).getD j 0) r
  { c with t := t, s := s, r := r }

/-! ## The key stream -/

structure SealQuad where
  a : DWord
  b : DWord
  c : DWord
  d : DWord

/-- `t[p/4]` for `p` masked by `0x7fc`. -/
def look (t : ℕ → DWord) (p : DWord) : DWord := t (p.toNat / 4)

def sealMix (t : ℕ → DWord) (s : SealQuad) : SealQuad :=
  let b := s.b + look t (s.a &&& 0x7fc)
  let a := rotr s.a 9
  let c := s.c + look t (b &&& 0x7fc)
  let b := rotr b 9
  let d := s.d + look t (c &&& 0x7fc)
  let c := rotr c 9
  let a := a + look t (d &&& 0x7fc)
  let d := rotr d 9
  ⟨a, b, c, d⟩

/-- The inner loop body up to the output. The last assignment to `q` is never read. -/
def sealStir (t : ℕ → DWord) (s : SealQuad) : SealQuad :=
  let p := s.a &&& 0x7fc
  let b := s.b + look t p
  let a := rotr s.a 9
  let b := b ^^^ a
  let q := b &&& 0x7fc
  let c := s.c ^^^ look t q
  let b := rotr b 9
  let c := c + b
  let p := (p + c) &&& 0x7fc
  let d := s.d + look t p
  let c := rotr c 9
  let d := d ^^^ c
  let q := (q + d) &&& 0x7fc
  let a := a ^^^ look t q
  let d := rotr d 9
  let a := a + d
  let p := (p + a) &&& 0x7fc
  let b := b ^^^ look t p
  let a := rotr a 9
  let q := (q + b) &&& 0x7fc
  let c := c + look t p
  let b := rotr b 9
  let p := (p + c) &&& 0x7fc
  let d := d ^^^ look t q
  let c := rotr c 9
  let a := a + look t p
  let d := rotr d 9
  ⟨a, b, c, d⟩

structure SealWork where
  q : SealQuad
  out : ℕ → DWord

/-- A turn of the inner loop, with the saved words `n1 … n4` as `n`. -/
def sealTurn (key : SealCtx) (n : SealQuad) (l i : ℕ) (s : SealWork) : SealWork :=
  let q := sealStir key.t s.q
  let out := fillAt (256 * l + 4 * i) 4 (fun k =>
    [q.b + key.s (4 * i), q.c ^^^ key.s (4 * i + 1), q.d + key.s (4 * i + 2), q.a ^^^ key.s (4 * i + 3)].getD k 0)
    s.out
  if i % 2 = 1 then ⟨{ q with a := q.a + n.c, c := q.c + n.d }, out⟩
  else ⟨{ q with a := q.a + n.a, c := q.c + n.b }, out⟩

/-- `seal`, with the buffer that it fills. -/
def sealStream (key : SealCtx) (inp : DWord) (out : ℕ → DWord) : ℕ → DWord :=
  forRange 0 4 (fun l out =>
    let q : SealQuad := ⟨inp ^^^ key.r (4 * l), rotr inp 8 ^^^ key.r (4 * l + 1), rotr inp 16 ^^^ key.r (4 * l + 2),
      rotr inp 24 ^^^ key.r (4 * l + 3)⟩
    let q := sealMix key.t (sealMix key.t q)
    let n : SealQuad := ⟨q.d, q.b, q.a, q.c⟩
    let q := sealMix key.t q
    (forRange 0 64 (sealTurn key n l) ⟨q, out⟩).out) out

def sealRefillBuffer (c : SealCtx) : SealCtx :=
  { c with ksBuf := sealStream c c.counter c.ksBuf, counter := c.counter + 1, ksPos := 0 }

def sealKey (w : ℕ → ℕ → DWord) (c : SealCtx) (key : List Byte) : SealCtx :=
  { sealInit w c key with counter := 0, ksPos := WORDS_PER_SEAL_CALL }

/-- `c->ks_buf[c->ks_pos]`: one word past the buffer the structure holds `ks_pos`. -/
def ksWord (c : SealCtx) : DWord :=
  if c.ksPos = WORDS_PER_SEAL_CALL then BitVec.ofNat 32 c.ksPos else c.ksBuf c.ksPos

/-- The context with which a word is read. -/
def sealReady (c : SealCtx) : SealCtx := if WORDS_PER_SEAL_CALL < c.ksPos then sealRefillBuffer c else c

structure SealRun where
  c : SealCtx
  data : ℕ → DWord

/-- `seal_encrypt`. -/
def sealEncrypt (c : SealCtx) (data : ℕ → DWord) (w : ℕ) : SealRun :=
  forRange 0 w (fun i s =>
    let c := sealReady s.c
    ⟨{ c with ksPos := c.ksPos + 1 }, Function.update s.data i (s.data i ^^^ ksWord c)⟩) ⟨c, data⟩

/-- `SealEnc`. -/
def sealEnc (w : ℕ → ℕ → DWord) (c : SealCtx) (key : List Byte) (data : ℕ → DWord) (blocks : ℕ) : ℕ → DWord :=
  (sealEncrypt (sealKey w c key) data blocks).data

/-! ## Two runs -/

theorem sealGWords_agree (i : ℕ) (w w' : ℕ → DWord) :
    AgreeBelow 80 (sealGWords i w) (sealGWords i w') := by
  have h1 := (AgreeBelow.zero w w').push (BitVec.ofNat 32 i)
  have h16 := h1.forRange_push (f := fun _ _ => 0) (g := fun _ _ => 0) (by omega : 0 + 1 ≤ 16)
    fun _ _ _ _ _ _ => rfl
  refine h16.forRange_push (by omega) fun i a b h1 _ hab => ?_
  rw [hab (i - 3) (by omega), hab (i - 8) (by omega), hab (i - 14) (by omega), hab (i - 16) (by omega)]

theorem sealG_same (w w' : ℕ → DWord) (key : List Byte) (i : ℕ) : sealG w key i = sealG w' key i := by
  have hw := sealGWords_agree i w w'
  have hloop : ∀ F k shiftE lo hi (s : Five), hi ≤ 80 →
      forRange lo hi (sealGStep F k shiftE (sealGWords i w)) s =
        forRange lo hi (sealGStep F k shiftE (sealGWords i w')) s := by
    intro F k shiftE lo hi s hhi
    refine forRange_congr s fun j s _ hj => ?_
    unfold sealGStep
    rw [hw j (by omega)]
  unfold sealG
  simp only
  rw [hloop _ _ _ _ _ _ (by omega), hloop _ _ _ _ _ _ (by omega), hloop _ _ _ _ _ _ (by omega),
    hloop _ _ _ _ _ _ (by omega)]

/-- What two contexts share once the key is in. -/
structure SealAgree (c c' : SealCtx) : Prop where
  t : AgreeBelow 512 c.t c'.t
  s : AgreeBelow 256 c.s c'.s
  r : AgreeBelow 16 c.r c'.r
  counter : c.counter = c'.counter
  ksPos : c.ksPos = c'.ksPos
  ksBuf : WORDS_PER_SEAL_CALL ≤ c.ksPos ∨ AgreeBelow 1024 c.ksBuf c'.ksBuf

/-- The five words of the call for cell `off + 5 * k`, stored from that cell on, for the first `m` values of `k`. -/
theorem fives_agree {off : ℕ} {a b : ℕ → DWord} (hab : AgreeBelow off a b) (m : ℕ) (f : ℕ → ℕ → DWord) :
    AgreeBelow (off + 5 * m) (forRange 0 m (fun k a => fillAt (off + 5 * k) 5 (f k) a) a)
      (forRange 0 m (fun k a => fillAt (off + 5 * k) 5 (f k) a) b) := by
  refine forRange_rel (fun k a b => AgreeBelow (off + 5 * k) a b) (Nat.zero_le m) hab ?_
  intro k a b _ _ hab
  exact hab.fillAt_next 5 fun _ _ => rfl

theorem sealKey_agree (w w' : ℕ → ℕ → DWord) (c c' : SealCtx) (key : List Byte) :
    SealAgree (sealKey w c key) (sealKey w' c' key) := by
  have hg : ∀ n, sealG (w' n) key n = sealG (w n) key n := fun n => sealG_same ..
  refine ⟨?_, ?_, ?_, rfl, rfl, Or.inl (le_refl _)⟩
  · show AgreeBelow 512 (sealInit w c key).t (sealInit w' c' key).t
    simp only [sealInit, hg]
    have h := fives_agree (AgreeBelow.zero c.t c'.t) 102
      fun k j => (sealG (w (5 * k / 5)) key (5 * k / 5)).getD j 0
    simp only [Nat.zero_add] at h
    exact h.fillAt_next 2 fun _ _ => rfl
  · show AgreeBelow 256 (sealInit w c key).s (sealInit w' c' key).s
    simp only [sealInit, hg]
    have h := (AgreeBelow.zero c.s c'.s).fillAt_next 4 (f := fun j => (sealG (w ((0x1000 - 1) / 5)) key ((0x1000 - 1) / 5)).getD (j + 1) 0) fun _ _ => rfl
    exact (fives_agree h 50 _).fillAt_next 2 fun _ _ => rfl
  · show AgreeBelow 16 (sealInit w c key).r (sealInit w' c' key).r
    simp only [sealInit, hg]
    have h := (AgreeBelow.zero c.r c'.r).fillAt_next 3 (f := fun j => (sealG (w ((0x2000 - 2) / 5)) key ((0x2000 - 2) / 5)).getD (j + 2) 0) fun _ _ => rfl
    exact (fives_agree h 2 _).fillAt_next 3 fun _ _ => rfl

/-! ### The key stream -/

theorem look_congr {t t' : ℕ → DWord} (h : AgreeBelow 512 t t') (x : DWord) :
    look t (x &&& 0x7fc) = look t' (x &&& 0x7fc) := by
  have hle : (x &&& 0x7fc).toNat ≤ 0x7fc := by
    rw [BitVec.toNat_and]
    exact Nat.and_le_right
  unfold look
  exact h _ (by omega)

theorem sealMix_congr {t t' : ℕ → DWord} (h : AgreeBelow 512 t t') (s : SealQuad) :
    sealMix t s = sealMix t' s := by
  simp only [sealMix, look_congr h]

theorem sealStir_congr {t t' : ℕ → DWord} (h : AgreeBelow 512 t t') (s : SealQuad) :
    sealStir t s = sealStir t' s := by
  simp only [sealStir, look_congr h]

/-- A turn of the inner loop writes the next four words of the output. -/
theorem sealTurn_agree {c c' : SealCtx} (h : SealAgree c c') (n : SealQuad) {l i : ℕ} (hi : i < 64) {x y : SealWork}
    (hq : x.q = y.q) (hout : AgreeBelow (256 * l + 4 * i) x.out y.out) :
    (sealTurn c n l i x).q = (sealTurn c' n l i y).q ∧
      AgreeBelow (256 * l + 4 * (i + 1)) (sealTurn c n l i x).out (sealTurn c' n l i y).out := by
  have hs : ∀ k < 4, c.s (4 * i + k) = c'.s (4 * i + k) := fun k hk => h.s _ (by omega)
  have hidx : 256 * l + 4 * (i + 1) = 256 * l + 4 * i + 4 := by omega
  rw [hidx]
  unfold sealTurn
  simp only [hq, sealStir_congr h.t, hs 1 (by omega), hs 2 (by omega), hs 3 (by omega), h.s (4 * i) (by omega)]
  split
  · refine ⟨rfl, ?_⟩
    dsimp only
    exact hout.fillAt_next 4 fun _ _ => rfl
  · refine ⟨rfl, ?_⟩
    dsimp only
    exact hout.fillAt_next 4 fun _ _ => rfl

theorem sealStream_agree {c c' : SealCtx} (h : SealAgree c c') (inp : DWord) (a b : ℕ → DWord) :
    AgreeBelow 1024 (sealStream c inp a) (sealStream c' inp b) := by
  unfold sealStream
  refine forRange_rel (fun l a b => AgreeBelow (256 * l) a b) (Nat.zero_le 4) (AgreeBelow.zero a b) ?_
  intro l a b _ hl hab
  have hr : ∀ k < 4, c.r (4 * l + k) = c'.r (4 * l + k) := fun k hk => h.r _ (by omega)
  simp only [sealMix_congr h.t, h.r (4 * l) (by omega), hr 1 (by omega), hr 2 (by omega), hr 3 (by omega)]
  have hturns := fun (q n : SealQuad) => forRange_rel
    (fun i (x y : SealWork) => x.q = y.q ∧ AgreeBelow (256 * l + 4 * i) x.out y.out) (Nat.zero_le 64)
    (⟨rfl, hab⟩ : (SealWork.mk q a).q = (SealWork.mk q b).q ∧ AgreeBelow (256 * l + 4 * 0) a b)
    fun i x y _ hi hxy => sealTurn_agree h n hi hxy.1 hxy.2
  exact (hturns _ _).2

theorem sealRefillBuffer_agree {c c' : SealCtx} (h : SealAgree c c') :
    SealAgree (sealRefillBuffer c) (sealRefillBuffer c') := by
  refine ⟨h.t, h.s, h.r, ?_, rfl, Or.inr ?_⟩
  · show c.counter + 1 = c'.counter + 1
    rw [h.counter]
  · show AgreeBelow 1024 (sealStream c c.counter c.ksBuf) (sealStream c' c'.counter c'.ksBuf)
    rw [h.counter]
    exact sealStream_agree h _ _ _

theorem ksWord_congr {c c' : SealCtx} (h : SealAgree c c') (hpos : c.ksPos ≤ WORDS_PER_SEAL_CALL) :
    ksWord c = ksWord c' := by
  unfold ksWord
  rw [← h.ksPos]
  by_cases hend : c.ksPos = WORDS_PER_SEAL_CALL
  · rw [if_pos hend, if_pos hend]
  · rw [if_neg hend, if_neg hend]
    cases h.ksBuf with
    | inl hge => omega
    | inr hbuf =>
      have hlt : c.ksPos < 1024 := lt_of_le_of_ne hpos hend
      exact hbuf _ hlt

theorem sealReady_agree {c c' : SealCtx} (h : SealAgree c c') :
    SealAgree (sealReady c) (sealReady c') ∧ (sealReady c).ksPos ≤ WORDS_PER_SEAL_CALL := by
  unfold sealReady
  rw [← h.ksPos]
  by_cases hpast : WORDS_PER_SEAL_CALL < c.ksPos
  · rw [if_pos hpast, if_pos hpast]
    exact ⟨sealRefillBuffer_agree h, Nat.zero_le _⟩
  · rw [if_neg hpast, if_neg hpast]
    exact ⟨h, Nat.le_of_not_lt hpast⟩

theorem SealAgree.next {c c' : SealCtx} (h : SealAgree c c') :
    SealAgree { c with ksPos := c.ksPos + 1 } { c' with ksPos := c'.ksPos + 1 } := by
  refine ⟨h.t, h.s, h.r, h.counter, ?_, ?_⟩
  · show c.ksPos + 1 = c'.ksPos + 1
    rw [h.ksPos]
  · cases h.ksBuf with
    | inl hge => exact Or.inl (Nat.le_succ_of_le hge)
    | inr hbuf => exact Or.inr hbuf

theorem sealEnc_agree (w w' : ℕ → ℕ → DWord) (c c' : SealCtx) (key : List Byte) {data data' : ℕ → DWord}
    {blocks : ℕ} (hdata : AgreeBelow blocks data data') :
    AgreeBelow blocks (sealEnc w c key data blocks) (sealEnc w' c' key data' blocks) := by
  unfold sealEnc sealEncrypt
  refine (forRange_rel (fun _ (x y : SealRun) => SealAgree x.c y.c ∧ AgreeBelow blocks x.data y.data)
    (Nat.zero_le blocks) ⟨sealKey_agree w w' c c' key, hdata⟩ ?_).2
  intro i x y _ hi hxy
  obtain ⟨hc, hd⟩ := hxy
  obtain ⟨hready, hpos⟩ := sealReady_agree hc
  have hword := ksWord_congr hready hpos
  refine ⟨hready.next, ?_⟩
  show AgreeBelow blocks (Function.update x.data i (x.data i ^^^ ksWord (sealReady x.c)))
    (Function.update y.data i (y.data i ^^^ ksWord (sealReady y.c)))
  rw [hword, hd i hi]
  exact hd.update i _

/-- The first word is xored with the stored position, for the buffer is still empty. -/
theorem sealEnc_first (w : ℕ → ℕ → DWord) (c : SealCtx) (key : List Byte) (data : ℕ → DWord) {blocks : ℕ}
    (hblocks : 0 < blocks) : sealEnc w c key data blocks 0 = data 0 ^^^ 1024 := by
  unfold sealEnc sealEncrypt
  rw [forRange_cons hblocks]
  refine forRange_inv (P := fun _ (s : SealRun) => s.data 0 = data 0 ^^^ 1024) hblocks ?_ ?_
  · show Function.update data 0 (data 0 ^^^ ksWord (sealReady (sealKey w c key))) 0 = data 0 ^^^ 1024
    rw [Function.update_self]
    rfl
  · intro i s hi _ hs
    have hne : (0 : ℕ) ≠ i := by omega
    show Function.update s.data i (s.data i ^^^ ksWord (sealReady s.c)) 0 = data 0 ^^^ 1024
    rw [Function.update_of_ne hne, hs]

end StarLib.SerialManager
