import Mathlib.Algebra.Order.Floor.Semifield
import StarLib.ImageProcessors.Flip
import StarLib.ImageProcessors.Shrink

/-! # `CImageBlurrer`

Each pixel of the destination is a weighted average of the pixels around it. A run keeps whether all of its divisions
are defined; the sums are far from the end of an `int`.
-/

namespace StarLib.ImageProcessors
open Foundations
set_option autoImplicit false
set_option maxHeartbeats 250000
set_option maxRecDepth 120000

/-- `(char)n`. -/
def toChar (n : ℤ) : ℤ := (BitVec.ofInt 8 n).toInt

/-- `nPeak`. -/
def blurPeak (m_nAmount : ℤ) : ℤ := toChar (truncInt (1 / 2 * (110 - m_nAmount)))

def cMask (nPeak : ℤ) : List ℤ :=
  [1, 1, 1,
   1, nPeak, 1,
   1, 1, 1]

structure BlurSums where
  nRed : ℤ
  nGreen : ℤ
  nBlue : ℤ
  nSubCount : ℕ
  nDivisor : ℤ

def BlurSums.add (s : BlurSums) (rgb : RGBX) (nMask : ℤ) : BlurSums where
  nRed := s.nRed + rgb.btRed.toNat * nMask
  nGreen := s.nGreen + rgb.btGreen.toNat * nMask
  nBlue := s.nBlue + rgb.btBlue.toNat * nMask
  nSubCount := s.nSubCount
  nDivisor := s.nDivisor + nMask

/-- One turn of the inner loops. `nSubCount` advances for the skipped pixels as well. -/
def blurSub (nPeak : ℤ) (sizeSrc : Size) (nSubX nSubY : ℤ) (s : Buffer × BlurSums) : Buffer × BlurSums :=
  let s :=
    if 0 ≤ nSubX ∧ nSubX < sizeSrc.cx ∧ 0 ≤ nSubY ∧ nSubY < sizeSrc.cy then
      let i := (nSubY * sizeSrc.cx + nSubX).toNat
      (s.1.touch i 1, s.2.add (s.1.px i) ((cMask nPeak).getD s.2.nSubCount 0))
    else s
  (s.1, { s.2 with nSubCount := s.2.nSubCount + 1 })

def blurSums (nPeak : ℤ) (sizeSrc : Size) (nX nY : ℕ) (src : Buffer) : Buffer × BlurSums :=
  raster 3 3 (fun i j s => blurSub nPeak sizeSrc (nX - 1 + i) (nY - 1 + j) s) (src, ⟨0, 0, 0, 0, 0⟩)

structure BlurRun where
  bufs : Buffers
  defined : Bool

/-- `(BYTE)min(255, nSum / nDivisor)`. -/
def blurByte (nSum nDivisor : ℤ) : Byte := BitVec.ofInt 8 (min 255 (nSum.tdiv nDivisor))

/-- One pixel of the destination. The fourth byte stays. -/
def blurPixel (nPeak : ℤ) (sizeSrc sizeDest : Size) (nX nY : ℕ) (s : BlurRun) : BlurRun :=
  let r := blurSums nPeak sizeSrc nX nY s.bufs.src
  let i := nY * sizeDest.cx + nX
  let rgb : RGBX :=
    { s.bufs.dest.px i with
      btRed := blurByte r.2.nRed r.2.nDivisor
      btGreen := blurByte r.2.nGreen r.2.nDivisor
      btBlue := blurByte r.2.nBlue r.2.nDivisor }
  ⟨⟨r.1, s.bufs.dest.store i rgb⟩, s.defined && decide (r.2.nDivisor ≠ 0)⟩

/-- `CImageBlurrer(nAmount)` and `ProcessPixels`. -/
def blurrer (nAmount : ℤ) (sizeSrc sizeDest : Size) (b : Buffers) : BlurRun :=
  let m_nAmount := max 0 (min 100 nAmount)
  if m_nAmount = 0 then ⟨baseProcessPixels sizeDest b, true⟩
  else raster sizeSrc.cx sizeSrc.cy (blurPixel (blurPeak m_nAmount) sizeSrc sizeDest) ⟨b, true⟩

/-! ## What a run should leave -/

/-- The pixel at `x` and `y` is in the picture and next to the one at `nX` and `nY`, or it is that one. -/
def Near (size : Size) (nX nY x y : ℕ) : Prop :=
  x < size.cx ∧ y < size.cy ∧ nX ≤ x + 1 ∧ x ≤ nX + 1 ∧ nY ≤ y + 1 ∧ y ≤ nY + 1

/-- No access outside, no division by zero, and each channel between two values near it; one colour stays that
colour. -/
structure Blurred (size : Size) (b : Buffers) (r : BlurRun) : Prop where
  inRange : r.bufs.src.inRange = b.src.inRange ∧ r.bufs.dest.inRange = b.dest.inRange
  defined : r.defined = true
  channel : ∀ nX < size.cx, ∀ nY < size.cy, ∀ c ∈ channels,
    let value := fun px i => (c (px i)).toNat
    (∃ x y, Near size nX nY x y ∧ value b.src.px (y * size.cx + x) ≤ value r.bufs.dest.px (nY * size.cx + nX)) ∧
      ∃ x y, Near size nX nY x y ∧ value r.bufs.dest.px (nY * size.cx + nX) ≤ value b.src.px (y * size.cx + x)
  constant : ∀ rgb, (∀ i < size.pixels, (b.src.px i).same rgb = true) →
    ∀ i < size.pixels, (r.bufs.dest.px i).same rgb = true

theorem near_self {size : Size} {nX nY : ℕ} (hX : nX < size.cx) (hY : nY < size.cy) : Near size nX nY nX nY := by
  unfold Near
  omega

/-! ## The weights -/

theorem blurPeak_pos {m_nAmount : ℤ} (h1 : 1 ≤ m_nAmount) (h2 : m_nAmount ≤ 100) : 1 ≤ blurPeak m_nAmount := by
  obtain ⟨n, hn⟩ : ∃ n : ℕ, 110 - m_nAmount = n := ⟨_, (Int.toNat_of_nonneg (by omega)).symm⟩
  have hhalf : (1 / 2 * (110 - m_nAmount) : ℚ) = n / 2 := by
    rw [show (110 - m_nAmount : ℚ) = n by exact_mod_cast congrArg (Int.cast (R := ℚ)) hn]
    ring
  have hfloor : ⌊(n / 2 : ℚ)⌋₊ = n / 2 := Nat.floor_div_eq_div n 2
  have hbyte : n / 2 < 128 := by omega
  unfold blurPeak toChar
  rw [hhalf, truncInt_of_nonneg (by positivity), hfloor, BitVec.toInt_ofInt, Int.bmod_eq_of_le (by omega) (by omega)]
  omega

theorem cMask_pos {nPeak : ℤ} (hpeak : 1 ≤ nPeak) {n : ℕ} (hn : n < 9) : 1 ≤ (cMask nPeak).getD n 0 := by
  have hall : ∀ m ∈ cMask nPeak, 1 ≤ m := by simp [cMask, hpeak]
  rw [List.getD_eq_getElem _ _ hn]
  exact hall _ (List.getElem_mem _)

/-! ## The sums -/

theorem Buffer.touch_eq {b : Buffer} {off n : ℕ} (h : n = 0 ∨ off + n ≤ b.len) : b.touch off n = b := by
  unfold Buffer.touch
  rw [decide_eq_true h, Bool.and_true]

/-- The channels with their sums. -/
def channelSums : List ((RGBX → Byte) × (BlurSums → ℤ)) :=
  [(RGBX.btRed, BlurSums.nRed), (RGBX.btGreen, BlurSums.nGreen), (RGBX.btBlue, BlurSums.nBlue)]

theorem mem_channels {c : RGBX → Byte} (h : c ∈ channels) : ∃ sum, (c, sum) ∈ channelSums := by
  simp only [channels, List.mem_cons, List.not_mem_nil, or_false] at h
  rcases h with rfl | rfl | rfl
  · exact ⟨BlurSums.nRed, by simp [channelSums]⟩
  · exact ⟨BlurSums.nGreen, by simp [channelSums]⟩
  · exact ⟨BlurSums.nBlue, by simp [channelSums]⟩

/-- What is true of the three channels with their sums. -/
theorem channelSums_cases {P : (RGBX → Byte) → (BlurSums → ℤ) → Prop} (hred : P RGBX.btRed BlurSums.nRed)
    (hgreen : P RGBX.btGreen BlurSums.nGreen) (hblue : P RGBX.btBlue BlurSums.nBlue) {c : RGBX → Byte}
    {sum : BlurSums → ℤ} (h : (c, sum) ∈ channelSums) : P c sum := by
  simp only [channelSums, List.mem_cons, List.not_mem_nil, or_false, Prod.mk.injEq] at h
  rcases h with ⟨rfl, rfl⟩ | ⟨rfl, rfl⟩ | ⟨rfl, rfl⟩
  · exact hred
  · exact hgreen
  · exact hblue

section Sums
variable {size : Size} {nPeak : ℤ} {nX nY : ℕ} {src : Buffer} {c : RGBX → Byte} {sum : BlurSums → ℤ}

/-- What holds of the buffer and of one channel after the turns before turn `j` of column `i`. -/
structure Summed (size : Size) (nX nY : ℕ) (src : Buffer) (c : RGBX → Byte) (sum : BlurSums → ℤ) (i j : ℕ)
    (s : Buffer × BlurSums) : Prop where
  buffer : s.1 = src
  count : s.2.nSubCount = 3 * i + j
  divisor : 0 ≤ s.2.nDivisor ∧ (4 < s.2.nSubCount → 0 < s.2.nDivisor)
  bounds : ∀ lo hi : ℤ,
    (∀ x y, Near size nX nY x y → lo ≤ (c (src.px (y * size.cx + x))).toNat ∧ (c (src.px (y * size.cx + x))).toNat ≤ hi) →
    Weighted lo hi (sum s.2) s.2.nDivisor

theorem Summed.step (hpeak : 1 ≤ nPeak) (hX : nX < size.cx) (hY : nY < size.cy) (hsrc : size.pixels ≤ src.len)
    (hc : (c, sum) ∈ channelSums) {i j : ℕ} {s : Buffer × BlurSums} (hi : i < 3) (hj : j < 3)
    (h : Summed size nX nY src c sum i j s) :
    Summed size nX nY src c sum i (j + 1) (blurSub nPeak size (nX - 1 + i) (nY - 1 + j) s) := by
  have hcount := h.count
  obtain ⟨hnonneg, hpos⟩ := h.divisor
  have hskip : ∀ s : BlurSums, sum { s with nSubCount := s.nSubCount + 1 } = sum s :=
    channelSums_cases (P := fun _ sum => ∀ s : BlurSums, sum { s with nSubCount := s.nSubCount + 1 } = sum s)
      (fun _ => rfl) (fun _ => rfl) (fun _ => rfl) hc
  have hadd : ∀ (s : BlurSums) rgb m, sum (s.add rgb m) = sum s + (c rgb).toNat * m :=
    channelSums_cases (P := fun c sum => ∀ (s : BlurSums) rgb m, sum (s.add rgb m) = sum s + (c rgb).toNat * m)
      (fun _ _ _ => rfl) (fun _ _ _ => rfl) (fun _ _ _ => rfl) hc
  unfold blurSub
  split
  · next hin =>
    obtain ⟨x, hx⟩ := Int.eq_ofNat_of_zero_le hin.1
    obtain ⟨y, hy⟩ := Int.eq_ofNat_of_zero_le hin.2.2.1
    have hnear : Near size nX nY x y := by
      unfold Near
      omega
    have hindex : ((nY - 1 + j : ℤ) * size.cx + (nX - 1 + i)).toNat = y * size.cx + x := by
      rw [hx, hy, ← Nat.cast_mul, ← Nat.cast_add, Int.toNat_natCast]
    have hcell := index_lt hnear.1 hnear.2.1
    have hmask := cMask_pos hpeak (n := s.2.nSubCount) (by omega)
    rw [hindex, h.buffer]
    generalize (cMask nPeak).getD s.2.nSubCount 0 = m at hmask
    refine ⟨?_, ?_, ⟨?_, ?_⟩, ?_⟩
    · exact Buffer.touch_eq (Or.inr (by omega))
    · show s.2.nSubCount + 1 = _
      omega
    · show 0 ≤ s.2.nDivisor + m
      omega
    · intro _
      show 0 < s.2.nDivisor + m
      omega
    · intro lo hi hall
      dsimp only
      rw [hskip, hadd]
      exact (h.bounds lo hi hall).add (hall x y hnear).1 (hall x y hnear).2 (by omega)
  · next hout =>
    -- the turn of the middle is never skipped
    have hmiddle : s.2.nSubCount ≠ 4 := by
      intro heq
      apply hout
      omega
    refine ⟨h.buffer, ?_, ⟨hnonneg, ?_⟩, ?_⟩
    · show s.2.nSubCount + 1 = _
      omega
    · intro hlate
      have hlate : 4 < s.2.nSubCount + 1 := hlate
      exact hpos (by omega)
    · intro lo hi hall
      dsimp only
      rw [hskip]
      exact h.bounds lo hi hall

theorem blurSums_summed (hpeak : 1 ≤ nPeak) (hX : nX < size.cx) (hY : nY < size.cy) (hsrc : size.pixels ≤ src.len)
    (hc : (c, sum) ∈ channelSums) : Summed size nX nY src c sum 3 0 (blurSums nPeak size nX nY src) := by
  refine raster_inv (P := fun i j s => Summed size nX nY src c sum i j s) ?_ ?_ ?_
  · refine ⟨rfl, rfl, ⟨Int.le_refl 0, ?_⟩, ?_⟩
    · intro hlate
      exact absurd hlate (Nat.not_lt_zero 4)
    · intro lo hi _
      exact channelSums_cases (P := fun _ sum => Weighted lo hi (sum ⟨0, 0, 0, 0, 0⟩) 0) Weighted.zero Weighted.zero
        Weighted.zero hc
  · intro i j s hi hj h
    exact h.step hpeak hX hY hsrc hc hi hj
  · intro i s _ h
    exact ⟨h.buffer, by have := h.count; omega, h.divisor, h.bounds⟩

theorem blurByte_between (hpeak : 1 ≤ nPeak) (hX : nX < size.cx) (hY : nY < size.cy) (hsrc : size.pixels ≤ src.len)
    (hc : (c, sum) ∈ channelSums) {lo hi : ℕ} (hhi : hi < 256)
    (hall : ∀ x y, Near size nX nY x y →
      lo ≤ (c (src.px (y * size.cx + x))).toNat ∧ (c (src.px (y * size.cx + x))).toNat ≤ hi) :
    let s := (blurSums nPeak size nX nY src).2
    lo ≤ (blurByte (sum s) s.nDivisor).toNat ∧ (blurByte (sum s) s.nDivisor).toNat ≤ hi := by
  have h := blurSums_summed hpeak hX hY hsrc hc
  have hcount := h.count
  have hmean := (h.bounds lo hi (by exact_mod_cast hall)).tdiv (Int.natCast_nonneg lo) (h.divisor.2 (by omega))
  intro s
  obtain ⟨q, hq⟩ := Int.eq_ofNat_of_zero_le (Int.le_trans (Int.natCast_nonneg lo) hmean.1)
  unfold blurByte
  rw [hq] at hmean ⊢
  have hmin : min 255 (q : ℤ) = (q : ℕ) := by omega
  rw [hmin, BitVec.ofInt_natCast, BitVec.toNat_ofNat, Nat.mod_eq_of_lt (by omega)]
  omega

/-- The byte is between two of the values near it: were they all on one side of it, that side would be a bound. -/
theorem blurByte_near (hpeak : 1 ≤ nPeak) (hX : nX < size.cx) (hY : nY < size.cy) (hsrc : size.pixels ≤ src.len)
    (hc : (c, sum) ∈ channelSums) :
    let s := (blurSums nPeak size nX nY src).2
    let value := fun x y => (c (src.px (y * size.cx + x))).toNat
    (∃ x y, Near size nX nY x y ∧ value x y ≤ (blurByte (sum s) s.nDivisor).toNat) ∧
      ∃ x y, Near size nX nY x y ∧ (blurByte (sum s) s.nDivisor).toNat ≤ value x y := by
  intro s value
  have hbyte := (blurByte (sum s) s.nDivisor).isLt
  have hvalue : ∀ x y, value x y < 256 := fun x y => (c (src.px (y * size.cx + x))).isLt
  constructor
  · by_contra hnone
    have habove : ∀ x y, Near size nX nY x y →
        (blurByte (sum s) s.nDivisor).toNat + 1 ≤ value x y ∧ value x y ≤ 255 := by
      intro x y hnear
      have hlt : ¬ value x y ≤ (blurByte (sum s) s.nDivisor).toNat := fun hle => hnone ⟨x, y, hnear, hle⟩
      have := hvalue x y
      omega
    have hle : (blurByte (sum s) s.nDivisor).toNat + 1 ≤ (blurByte (sum s) s.nDivisor).toNat :=
      (blurByte_between hpeak hX hY hsrc hc (by omega) habove).1
    omega
  · by_contra hnone
    have hbelow : ∀ x y, Near size nX nY x y →
        0 ≤ value x y ∧ value x y ≤ (blurByte (sum s) s.nDivisor).toNat - 1 := by
      intro x y hnear
      have hlt : ¬ (blurByte (sum s) s.nDivisor).toNat ≤ value x y := fun hle => hnone ⟨x, y, hnear, hle⟩
      omega
    have hself : ¬ (blurByte (sum s) s.nDivisor).toNat ≤ value nX nY :=
      fun hle => hnone ⟨nX, nY, near_self hX hY, hle⟩
    have hle : (blurByte (sum s) s.nDivisor).toNat ≤ (blurByte (sum s) s.nDivisor).toNat - 1 :=
      (blurByte_between hpeak hX hY hsrc hc (by omega) hbelow).2
    omega

theorem blurByte_constant (hpeak : 1 ≤ nPeak) (hX : nX < size.cx) (hY : nY < size.cy) (hsrc : size.pixels ≤ src.len)
    (hc : (c, sum) ∈ channelSums) {v : Byte} (hall : ∀ i < size.pixels, c (src.px i) = v) :
    blurByte (sum (blurSums nPeak size nX nY src).2) (blurSums nPeak size nX nY src).2.nDivisor = v := by
  have hbetween : v.toNat ≤ (blurByte (sum (blurSums nPeak size nX nY src).2) _).toNat ∧
      (blurByte (sum (blurSums nPeak size nX nY src).2) _).toNat ≤ v.toNat := blurByte_between hpeak hX hY hsrc hc v.isLt <| by
    intro x y hnear
    rw [hall _ (index_lt hnear.1 hnear.2.1)]
    exact ⟨Nat.le_refl _, Nat.le_refl _⟩
  exact BitVec.eq_of_toNat_eq (Nat.le_antisymm hbetween.2 hbetween.1)

end Sums

theorem channel_of_same {a b : RGBX} (h : a.same b = true) {c : RGBX → Byte} {sum : BlurSums → ℤ}
    (hc : (c, sum) ∈ channelSums) : c a = c b := by
  simp only [RGBX.same, Bool.and_eq_true, beq_iff_eq] at h
  exact channelSums_cases (P := fun c _ => c a = c b) h.1.1 h.1.2 h.2 hc

/-! ## The picture -/

section Picture
variable {size : Size} {nPeak : ℤ} {b : Buffers}

/-- The picture after all turns: one channel, and what the turns leave alone. -/
theorem blur_channel (hpeak : 1 ≤ nPeak) (hsrc : size.pixels ≤ b.src.len) (hdest : size.pixels ≤ b.dest.len)
    {c : RGBX → Byte} {sum : BlurSums → ℤ} (hc : (c, sum) ∈ channelSums) :
    let r := raster size.cx size.cy (blurPixel nPeak size size) ⟨b, true⟩
    (r.bufs.src.inRange = b.src.inRange ∧ r.bufs.dest.inRange = b.dest.inRange ∧ r.defined = true) ∧
      ∀ nX < size.cx, ∀ nY < size.cy, c (r.bufs.dest.px (nY * size.cx + nX)) =
        blurByte (sum (blurSums nPeak size nX nY b.src).2) (blurSums nPeak size nX nY b.src).2.nDivisor := by
  have hrun := raster_writes size.cy (blurPixel nPeak size size) ⟨b, true⟩
    (fun s : BlurRun => fun i => c (s.bufs.dest.px i))
    (fun s => (s.bufs.src = b.src ∧ s.bufs.dest.len = b.dest.len) ∧ s.bufs.dest.inRange = b.dest.inRange ∧
      s.defined = true)
    (fun nX nY => blurByte (sum (blurSums nPeak size nX nY b.src).2) (blurSums nPeak size nX nY b.src).2.nDivisor)
    (Nat.le_refl size.cx) ⟨⟨rfl, rfl⟩, rfl, rfl⟩ ?_
  · obtain ⟨hkeep, hdone, -⟩ := hrun
    exact ⟨⟨by rw [hkeep.1.1], hkeep.2⟩, hdone⟩
  · intro nX nY s hX hY hs
    obtain ⟨⟨hbuf, hlen⟩, hrange, hdefined⟩ := hs
    have h := blurSums_summed hpeak hX hY hsrc hc
    have hcell := index_lt hX hY
    have hcount := h.count
    have hpos := h.divisor.2 (by omega)
    unfold blurPixel
    rw [hbuf]
    refine ⟨⟨⟨h.buffer, hlen⟩, ?_, ?_⟩, ?_⟩
    · exact (Buffer.store_inRange (by rw [hlen]; omega) _).trans hrange
    · dsimp only
      rw [hdefined, decide_eq_true (by omega)]
      rfl
    · funext i
      dsimp only
      rw [Buffer.store_px]
      by_cases heq : i = nY * size.cx + nX
      · subst heq
        rw [Function.update_self, Function.update_self]
        generalize (blurSums nPeak size nX nY b.src).2 = t
        exact channelSums_cases (P := fun c sum => c ⟨blurByte t.nBlue t.nDivisor, blurByte t.nGreen t.nDivisor,
          blurByte t.nRed t.nDivisor, _⟩ = blurByte (sum t) t.nDivisor) rfl rfl rfl hc
      · rw [Function.update_of_ne heq, Function.update_of_ne heq]

/-- Every picture is blurred inside its buffers, between the values around each pixel. -/
theorem blurrer_blurred (nAmount : ℤ) (size : Size) (b : Buffers) (h1 : 1 ≤ nAmount) (h2 : nAmount ≤ 100)
    (hsrc : size.pixels ≤ b.src.len) (hdest : size.pixels ≤ b.dest.len) :
    Blurred size b (blurrer nAmount size size b) := by
  have hamount : max 0 (min 100 nAmount) = nAmount := by omega
  have hpeak := blurPeak_pos h1 h2
  have hrun : blurrer nAmount size size b = raster size.cx size.cy (blurPixel (blurPeak nAmount) size size) ⟨b, true⟩ := by
    unfold blurrer
    dsimp only
    rw [hamount, if_neg (by omega)]
  rw [hrun]
  have hchannel := fun c sum (hc : (c, sum) ∈ channelSums) => blur_channel hpeak hsrc hdest hc
  obtain ⟨hranges, -⟩ := hchannel RGBX.btRed BlurSums.nRed List.mem_cons_self
  refine ⟨⟨hranges.1, hranges.2.1⟩, hranges.2.2, ?_, ?_⟩
  · intro nX hX nY hY c hc value
    obtain ⟨sum, hsum⟩ := mem_channels hc
    dsimp only [value]
    rw [(hchannel c sum hsum).2 nX hX nY hY]
    exact blurByte_near hpeak hX hY hsrc hsum
  · intro rgb hconstant i hi
    obtain ⟨hX, hY, hcell⟩ := index_split hi
    have hvalue : ∀ c sum, (c, sum) ∈ channelSums →
        c ((raster size.cx size.cy (blurPixel (blurPeak nAmount) size size) ⟨b, true⟩).bufs.dest.px i) = c rgb := by
      intro c sum hc
      have hbyte := (hchannel c sum hc).2 _ hX _ hY
      rw [hcell] at hbyte
      rw [hbyte]
      exact blurByte_constant hpeak hX hY hsrc hc fun i hi => channel_of_same (hconstant i hi) hc
    simp only [RGBX.same, Bool.and_eq_true, beq_iff_eq]
    exact ⟨⟨hvalue _ BlurSums.nRed (by simp [channelSums]), hvalue _ BlurSums.nGreen (by simp [channelSums])⟩,
      hvalue _ BlurSums.nBlue (by simp [channelSums])⟩

end Picture

/-- The middle weight of a blur by 40 is 35. -/
theorem blurrer_two_pixels :
    Blurred ⟨2, 1⟩ ⟨twoPixels (RGBX.ofColor 0x0000FF) (RGBX.ofColor 0x00FF00), newPixels 2⟩
      (blurrer 40 ⟨2, 1⟩ ⟨2, 1⟩ ⟨twoPixels (RGBX.ofColor 0x0000FF) (RGBX.ofColor 0x00FF00), newPixels 2⟩) :=
  blurrer_blurred 40 ⟨2, 1⟩ ⟨twoPixels (RGBX.ofColor 0x0000FF) (RGBX.ofColor 0x00FF00), newPixels 2⟩ (by decide)
    (by decide) (by decide) (by decide)

end StarLib.ImageProcessors
