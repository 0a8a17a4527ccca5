import StarLib.Foundations.Accesses
import StarLib.ImageProcessors.Pixels

/-! # `CEnBitmap::Fill`

White and black are filled bytewise. Any other colour is put into one pixel, copied over the first line in
lengths that double, and the lines are copied in numbers that double.
-/

namespace StarLib.ImageProcessors
open Foundations
set_option autoImplicit false
set_option maxHeartbeats 250000
set_option maxRecDepth 120000

/-- The loop over the first line; the number is `nSize`. -/
def fillLine (cx : ℕ) (s : ℕ × Buffer) : ℕ × Buffer :=
  whileFuel (fun s => decide (s.1 ≤ cx))
    (fun s => (2 * s.1, s.2.write s.1 (amount (min (cx - s.1) s.1)) s.2.px)) cx s

/-- The loop over the lines; the number is `nRow`. -/
def fillRows (size : Size) (s : ℕ × Buffer) : ℕ × Buffer :=
  whileFuel (fun s => decide (s.1 ≤ size.cy))
    (fun s => (2 * s.1, s.2.write (s.1 * size.cx) (amount (min (size.cy - s.1) s.1 * size.cx)) s.2.px)) size.cy s

def fill (b : Buffer) (size : Size) (color : COLORREF) : Buffer :=
  if color = 0xffffffff ∨ color = 0xffffff then b.write 0 (amount size.pixels) fun _ => ⟨255, 255, 255, 255⟩
  else if color = 0 then b.write 0 (amount size.pixels) fun _ => ⟨0, 0, 0, 0⟩
  else
    let b := b.write 0 1 fun _ => RGBX.ofColor color
    let b := (fillLine size.cx (1, b)).2
    (fillRows size (1, b)).2

/-! ## What is filled -/

/-- The pixel that the filling leaves. -/
def fillPixel (color : COLORREF) : RGBX :=
  if color = 0xffffffff ∨ color = 0xffffff then ⟨255, 255, 255, 255⟩
  else if color = 0 then ⟨0, 0, 0, 0⟩
  else RGBX.ofColor color

theorem fillPixel_same (color : COLORREF) : (fillPixel color).same (RGBX.ofColor color) = true := by
  unfold fillPixel
  by_cases hwhite : color = 0xffffffff ∨ color = 0xffffff
  · rw [if_pos hwhite]
    rcases hwhite with rfl | rfl <;> decide
  · rw [if_neg hwhite]
    by_cases hblack : color = 0
    · rw [if_pos hblack, hblack]
      decide
    · rw [if_neg hblack, RGBX.same_refl]

/-- `c` is `b` with `v` in its first `k` pixels, and no access was outside if the buffer has so many. -/
structure Filled (b : Buffer) (v : RGBX) (k : ℕ) (c : Buffer) : Prop where
  len : c.len = b.len
  below : ∀ i < k, c.px i = v
  above : ∀ i, k ≤ i → c.px i = b.px i
  inRange : k ≤ b.len → c.inRange = b.inRange

namespace Filled
variable {b c : Buffer} {v : RGBX} {k : ℕ}

/-- Pixels written from the start. -/
theorem write (b : Buffer) (v : RGBX) (k : ℕ) : Filled b v k (b.write 0 k fun _ => v) := by
  refine ⟨rfl, fun i hi => ?_, fun i hi => ?_, fun hk => ?_⟩
  · rw [Buffer.write_px, if_pos (by omega)]
  · rw [Buffer.write_px, if_neg (by omega)]
  · exact Buffer.write_inRange (Or.inr (by omega)) _

/-- The start of the buffer copied to where the filled part ends. -/
theorem copy (h : Filled b v k c) {m : ℕ} (hm : m ≤ k) : Filled b v (k + m) (c.write k m c.px) := by
  refine ⟨h.len, fun i hi => ?_, fun i hi => ?_, fun hk => ?_⟩
  · rw [Buffer.write_px]
    by_cases hin : k ≤ i ∧ i < k + m
    · rw [if_pos hin, h.below (i - k) (by omega)]
    · rw [if_neg hin, h.below i (by omega)]
  · rw [Buffer.write_px, if_neg (by omega), h.above i (by omega)]
  · rw [Buffer.write_inRange (Or.inr (by rw [h.len]; exact hk)), h.inRange (by omega)]

end Filled

/-- A number that doubles passes `n` after at most `n` turns. -/
theorem doubling_exit {τ : Type*} (n : ℕ) (f : ℕ × τ → τ) (c : τ) :
    n < (whileFuel (fun s : ℕ × τ => decide (s.1 ≤ n)) (fun s => (2 * s.1, f s)) n (1, c)).1 := by
  have hexit := whileFuel_exit (fun s : ℕ × τ => decide (s.1 ≤ n)) (fun s => (2 * s.1, f s))
    (fun s => 1 ≤ s.1) (fun s => n + 1 - s.1) ?_ n (1, c) (Nat.le_refl 1) (by simp)
  · exact Nat.lt_of_not_le (of_decide_eq_false hexit)
  · intro s hs hguard
    have hle := of_decide_eq_true hguard
    refine ⟨?_, ?_⟩ <;> simp only <;> omega

theorem fillLine_exit (cx : ℕ) (c : Buffer) : cx < (fillLine cx (1, c)).1 := doubling_exit cx _ c

theorem fillRows_exit (size : Size) (c : Buffer) : size.cy < (fillRows size (1, c)).1 := doubling_exit size.cy _ c

/-- The loop over the first line doubles what is filled until the line ends. -/
theorem fillLine_filled {b c : Buffer} {v : RGBX} {cx : ℕ} (hcx : 4 * cx < 2 ^ 32) (h : Filled b v 1 c) :
    Filled b v (max 1 cx) (fillLine cx (1, c)).2 := by
  have hinv : 1 ≤ (fillLine cx (1, c)).1 ∧ Filled b v (min (fillLine cx (1, c)).1 (max 1 cx)) (fillLine cx (1, c)).2 := by
    refine whileFuel_inv (fun s : ℕ × Buffer => decide (s.1 ≤ cx)) _
      (fun s => 1 ≤ s.1 ∧ Filled b v (min s.1 (max 1 cx)) s.2) ?_ cx (1, c) ⟨Nat.le_refl 1, by simpa using h⟩
    intro s hs hguard
    obtain ⟨hpos, hfilled⟩ := hs
    have hle := of_decide_eq_true hguard
    have hsmall : amount (min (cx - s.1) s.1) = min (cx - s.1) s.1 := amount_of_lt (by omega)
    have hk : min s.1 (max 1 cx) = s.1 := by omega
    have hnext : min (2 * s.1) (max 1 cx) = s.1 + min (cx - s.1) s.1 := by omega
    rw [hk] at hfilled
    refine ⟨by simp only; omega, ?_⟩
    rw [hnext, hsmall]
    exact hfilled.copy (by omega)
  have hexit := fillLine_exit cx c
  have hlast : min (fillLine cx (1, c)).1 (max 1 cx) = max 1 cx := by omega
  rw [hlast] at hinv
  exact hinv.2

/-- The loop over the lines doubles the filled lines until the last. -/
theorem fillRows_filled {b c : Buffer} {v : RGBX} {size : Size} (hsize : 4 * size.pixels < 2 ^ 32) (hcy : 0 < size.cy)
    (h : Filled b v size.cx c) : Filled b v size.pixels (fillRows size (1, c)).2 := by
  have hone : min 1 size.cy = 1 := by omega
  have hinv : 1 ≤ (fillRows size (1, c)).1 ∧
      Filled b v (min (fillRows size (1, c)).1 size.cy * size.cx) (fillRows size (1, c)).2 := by
    refine whileFuel_inv (fun s : ℕ × Buffer => decide (s.1 ≤ size.cy)) _
      (fun s => 1 ≤ s.1 ∧ Filled b v (min s.1 size.cy * size.cx) s.2) ?_ size.cy (1, c)
      ⟨Nat.le_refl 1, by rw [hone, Nat.one_mul]; exact h⟩
    intro s hs hguard
    obtain ⟨hpos, hfilled⟩ := hs
    have hle := of_decide_eq_true hguard
    have hrows : min (size.cy - s.1) s.1 ≤ size.cy := by omega
    have hbytes : min (size.cy - s.1) s.1 * size.cx ≤ size.pixels := by
      unfold Size.pixels
      rw [Nat.mul_comm size.cx]
      exact Nat.mul_le_mul_right size.cx hrows
    have hsmall := amount_of_lt (n := min (size.cy - s.1) s.1 * size.cx) (by omega)
    have hk : min s.1 size.cy = s.1 := by omega
    have hnext : min (2 * s.1) size.cy = s.1 + min (size.cy - s.1) s.1 := by omega
    rw [hk] at hfilled
    refine ⟨by simp only; omega, ?_⟩
    rw [hnext, hsmall, Nat.add_mul]
    exact hfilled.copy (Nat.mul_le_mul_right size.cx (by omega))
  have hexit := fillRows_exit size c
  have hlast : min (fillRows size (1, c)).1 size.cy = size.cy := by omega
  rw [hlast, Nat.mul_comm] at hinv
  exact hinv.2

/-- With no pixels in a line, or no lines, the loop over the lines changes nothing. -/
theorem fillRows_of_empty {b c : Buffer} {v : RGBX} {size : Size} {k : ℕ} (hsize : size.pixels = 0) (h : Filled b v k c) :
    Filled b v k (fillRows size (1, c)).2 := by
  refine whileFuel_inv _ _ (fun s : ℕ × Buffer => 1 ≤ s.1 ∧ Filled b v k s.2) ?_ size.cy (1, c) ⟨Nat.le_refl 1, h⟩ |>.2
  intro s hs hguard
  obtain ⟨hpos, hfilled⟩ := hs
  have hle := of_decide_eq_true hguard
  have hcx : size.cx = 0 := by
    rcases Nat.mul_eq_zero.1 hsize with h | h
    · exact h
    · omega
  refine ⟨by simp only; omega, ?_⟩
  have hnone : amount (min (size.cy - s.1) s.1 * size.cx) = 0 := by
    rw [hcx, Nat.mul_zero]
    rfl
  rw [hnone]
  refine ⟨hfilled.len, fun i hi => ?_, fun i hi => ?_, fun hk => ?_⟩
  · rw [Buffer.write_px, if_neg (by omega), hfilled.below i hi]
  · rw [Buffer.write_px, if_neg (by omega), hfilled.above i hi]
  · rw [Buffer.write_inRange (Or.inl rfl), hfilled.inRange hk]

/-- The pixels that are filled: the first line also where there are no lines. -/
def filledCount (size : Size) (color : COLORREF) : ℕ :=
  if color = 0xffffffff ∨ color = 0xffffff ∨ color = 0 ∨ size.pixels ≠ 0 then size.pixels else max 1 size.cx

theorem fill_filled (b : Buffer) {size : Size} (hcx : 4 * size.cx < 2 ^ 32) (hsize : 4 * size.pixels < 2 ^ 32)
    (color : COLORREF) : Filled b (fillPixel color) (filledCount size color) (fill b size color) := by
  unfold fill fillPixel filledCount
  by_cases hwhite : color = 0xffffffff ∨ color = 0xffffff
  · have hany : color = 0xffffffff ∨ color = 0xffffff ∨ color = 0 ∨ size.pixels ≠ 0 := by
      rcases hwhite with h | h
      · exact Or.inl h
      · exact Or.inr (Or.inl h)
    rw [if_pos hwhite, if_pos hwhite, if_pos hany, amount_of_lt hsize]
    exact Filled.write b _ _
  · rw [if_neg hwhite, if_neg hwhite]
    by_cases hblack : color = 0
    · rw [if_pos hblack, if_pos hblack, if_pos (Or.inr (Or.inr (Or.inl hblack))), amount_of_lt hsize]
      exact Filled.write b _ _
    · rw [if_neg hblack, if_neg hblack]
      have hline := fillLine_filled hcx (Filled.write b (RGBX.ofColor color) 1)
      by_cases hempty : size.pixels = 0
      · have hnot : ¬ (color = 0xffffffff ∨ color = 0xffffff ∨ color = 0 ∨ size.pixels ≠ 0) := by
          rintro (h | h | h | h)
          · exact hwhite (Or.inl h)
          · exact hwhite (Or.inr h)
          · exact hblack h
          · exact h hempty
        rw [if_neg hnot]
        exact fillRows_of_empty hempty hline
      · have hpos : 0 < size.cx ∧ 0 < size.cy := by
          obtain ⟨h1, h2⟩ := Nat.mul_ne_zero_iff.1 hempty
          exact ⟨Nat.pos_of_ne_zero h1, Nat.pos_of_ne_zero h2⟩
        have hfirst : max 1 size.cx = size.cx := by omega
        rw [if_pos (Or.inr (Or.inr (Or.inr hempty)))]
        rw [hfirst] at hline
        exact fillRows_filled hsize hpos.2 hline

/-! ## The two loops -/

/-- A copy within a buffer: from its start to `off`, of `n` pixels. -/
structure Copy where
  off : ℕ
  n : ℕ

/-- `CopyMemory` is for regions that are apart. -/
def Copy.Apart (copy : Copy) (count : ℕ) : Prop := copy.n ≤ copy.off ∧ copy.off + copy.n ≤ count

def lineCopies (cx : ℕ) (c : Buffer) : List Copy :=
  (whileTurns (fun s : ℕ × Buffer => decide (s.1 ≤ cx))
    (fun s => (2 * s.1, s.2.write s.1 (amount (min (cx - s.1) s.1)) s.2.px)) cx (1, c)).map fun s =>
      ⟨s.1, amount (min (cx - s.1) s.1)⟩

def rowCopies (size : Size) (c : Buffer) : List Copy :=
  (whileTurns (fun s : ℕ × Buffer => decide (s.1 ≤ size.cy))
    (fun s => (2 * s.1, s.2.write (s.1 * size.cx) (amount (min (size.cy - s.1) s.1 * size.cx)) s.2.px)) size.cy (1, c)).map
      fun s => ⟨s.1 * size.cx, amount (min (size.cy - s.1) s.1 * size.cx)⟩

theorem amount_le (n : ℕ) : amount n ≤ n := by
  unfold amount
  omega

theorem lineCopies_apart {size : Size} (hcy : 1 ≤ size.cy) (c : Buffer) :
    ∀ copy ∈ lineCopies size.cx c, copy.Apart size.pixels := by
  have hline : size.cx ≤ size.pixels := Nat.le_mul_of_pos_right size.cx hcy
  unfold lineCopies
  rw [List.forall_mem_map]
  refine whileTurns_forall (fun s => 1 ≤ s.1) (fun s hs hguard => ?_) (fun s hs hguard => ?_) size.cx (Nat.le_refl 1)
  · simp only
    omega
  · have hle := of_decide_eq_true hguard
    have hamount := amount_le (min (size.cx - s.1) s.1)
    exact ⟨by simp only; omega, by simp only; omega⟩

theorem rowCopies_apart (size : Size) (c : Buffer) : ∀ copy ∈ rowCopies size c, copy.Apart size.pixels := by
  unfold rowCopies
  rw [List.forall_mem_map]
  refine whileTurns_forall (fun s => 1 ≤ s.1) (fun s hs hguard => ?_) (fun s hs hguard => ?_) size.cy (Nat.le_refl 1)
  · simp only
    omega
  · have hle := of_decide_eq_true hguard
    have hamount := amount_le (min (size.cy - s.1) s.1 * size.cx)
    have hsource : min (size.cy - s.1) s.1 * size.cx ≤ s.1 * size.cx := Nat.mul_le_mul_right size.cx (by omega)
    have htarget : s.1 * size.cx + min (size.cy - s.1) s.1 * size.cx ≤ size.pixels := by
      unfold Size.pixels
      rw [← Nat.add_mul, Nat.mul_comm size.cx]
      exact Nat.mul_le_mul_right size.cx (by omega)
    exact ⟨by simp only; omega, by simp only; omega⟩

/-- Both loops end, copy between regions that are apart, and leave the colour in every pixel of the size and
nothing behind them. -/
theorem fill_colours (b : Buffer) {size : Size} (hcx : 1 ≤ size.cx) (hcy : 1 ≤ size.cy) (hsize : 4 * size.pixels < 2 ^ 31)
    (color : COLORREF) :
    (∀ c, size.cx < (fillLine size.cx (1, c)).1 ∧ size.cy < (fillRows size (1, c)).1 ∧
      ∀ copy ∈ lineCopies size.cx c ++ rowCopies size c, copy.Apart size.pixels) ∧
    (∀ i < size.pixels, ((fill b size color).px i).same (RGBX.ofColor color) = true) ∧
    (∀ i, size.pixels ≤ i → (fill b size color).px i = b.px i) ∧
    (size.pixels ≤ b.len → (fill b size color).inRange = b.inRange) := by
  have hline : size.cx ≤ size.pixels := Nat.le_mul_of_pos_right size.cx hcy
  have hfilled : Filled b (fillPixel color) (filledCount size color) (fill b size color) :=
    fill_filled b (by omega) (by omega) color
  have hpixels : size.pixels ≠ 0 := by omega
  have hcount : filledCount size color = size.pixels := if_pos (Or.inr (Or.inr (Or.inr hpixels)))
  rw [hcount] at hfilled
  refine ⟨fun c => ⟨fillLine_exit size.cx c, fillRows_exit size c, ?_⟩, fun i hi => ?_, hfilled.above, hfilled.inRange⟩
  · rw [List.forall_mem_append]
    exact ⟨lineCopies_apart hcy c, rowCopies_apart size c⟩
  · rw [hfilled.below i hi]
    exact fillPixel_same color

/-- Three pixels by two. -/
theorem fill_colours_sample :
    (∀ c, 3 < (fillLine 3 (1, c)).1 ∧ 2 < (fillRows ⟨3, 2⟩ (1, c)).1 ∧
      ∀ copy ∈ lineCopies 3 c ++ rowCopies ⟨3, 2⟩ c, copy.Apart 6) ∧
    (∀ i < 6, ((fill (newPixels 8) ⟨3, 2⟩ 0x123456).px i).same (RGBX.ofColor 0x123456) = true) ∧
    (∀ i, 6 ≤ i → (fill (newPixels 8) ⟨3, 2⟩ 0x123456).px i = RGBX.zero) ∧
    (6 ≤ (newPixels 8).len → (fill (newPixels 8) ⟨3, 2⟩ 0x123456).inRange = true) :=
  @fill_colours (newPixels 8) ⟨3, 2⟩ (by decide) (by decide) (by decide) 0x123456

end StarLib.ImageProcessors
