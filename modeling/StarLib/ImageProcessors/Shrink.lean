import StarLib.Foundations.Spans
import StarLib.ImageProcessors.Processors

/-! # `CImageResizer::Shrink`

The source is cut into areas by accumulated fractions, and each pixel of the destination is the average of its area.
The fractions are exact here. A run keeps the areas that it has averaged, and whether all of its arithmetic is
defined: sums that do not fit into an `int` are not, nor is a division by zero.
-/

namespace StarLib.ImageProcessors
open Foundations
set_option autoImplicit false
set_option maxHeartbeats 250000
set_option maxRecDepth 120000

/-- `dXEnd` and `nXEnd`, or `dYEnd` and `nYEnd`. -/
structure Axis where
  dEnd : ℚ
  nEnd : ℤ

namespace Axis

def first (dFactor : ℚ) : Axis := ⟨-dFactor / 2, -1⟩

def nStart (a : Axis) : ℤ := a.nEnd + 1

def next (size : ℕ) (dFactor : ℚ) (a : Axis) : Axis :=
  let dEnd := a.dEnd + dFactor
  ⟨dEnd, min (size - 1) (truncInt dEnd + 1)⟩

end Axis

/-- The range that is averaged into the pixel at `nX` and `nY`. -/
structure Area where
  nX : ℕ
  nY : ℕ
  nXStart : ℤ
  nXEnd : ℤ
  nYStart : ℤ
  nYEnd : ℤ

structure Sums where
  nCount : ℕ
  nRed : ℕ
  nGreen : ℕ
  nBlue : ℕ

def Sums.add (s : Sums) (rgb : RGBX) : Sums :=
  ⟨s.nCount + 1, s.nRed + rgb.btRed.toNat, s.nGreen + rgb.btGreen.toNat, s.nBlue + rgb.btBlue.toNat⟩

/-- No addition has overflowed: the sums only grow, so that the last ones tell. -/
def Sums.fit (s : Sums) : Bool := decide (s.nRed < 2 ^ 31) && decide (s.nGreen < 2 ^ 31) && decide (s.nBlue < 2 ^ 31)

/-- The buffers, the areas that were averaged so far, and whether all of it was defined. -/
structure ShrinkRun where
  bufs : Buffers
  averaged : List Area
  defined : Bool

def sumArea (sizeSrc : Size) (a : Area) (src : Buffer) : Buffer × Sums :=
  forRange a.nXStart.toNat (a.nXEnd + 1).toNat (fun nXSub s =>
    forRange a.nYStart.toNat (a.nYEnd + 1).toNat (fun nYSub s =>
      let i := nYSub * sizeSrc.cx + nXSub
      (s.1.touch i 1, s.2.add (s.1.px i))) s) (src, ⟨0, 0, 0, 0⟩)

/-- One pixel of the destination. The fourth byte stays. -/
def averageArea (sizeSrc sizeDest : Size) (a : Area) (s : ShrinkRun) : ShrinkRun :=
  let r := sumArea sizeSrc a s.bufs.src
  let i := a.nY * sizeDest.cx + a.nX
  let rgb : RGBX :=
    { s.bufs.dest.px i with
      btRed := BitVec.ofNat 8 (r.2.nRed / r.2.nCount)
      btGreen := BitVec.ofNat 8 (r.2.nGreen / r.2.nCount)
      btBlue := BitVec.ofNat 8 (r.2.nBlue / r.2.nCount) }
  ⟨⟨r.1, s.bufs.dest.store i rgb⟩, a :: s.averaged, s.defined && r.2.fit && decide (r.2.nCount ≠ 0)⟩

def shrinkRow (dFactor : ℚ) (sizeSrc sizeDest : Size) (nX : ℕ) (nXStart nXEnd : ℤ) (nY : ℕ) (s : Axis × ShrinkRun) :
    Axis × ShrinkRun :=
  let y := s.1.next sizeSrc.cy dFactor
  if s.1.nStart > y.nEnd then (y, s.2)
  else (y, averageArea sizeSrc sizeDest ⟨nX, nY, nXStart, nXEnd, s.1.nStart, y.nEnd⟩ s.2)

def shrinkColumn (dFactor : ℚ) (sizeSrc sizeDest : Size) (nX : ℕ) (s : Axis × ShrinkRun) : Axis × ShrinkRun :=
  let x := s.1.next sizeSrc.cx dFactor
  if s.1.nStart > x.nEnd then (x, s.2)
  else (x, (forRange 0 sizeDest.cy (shrinkRow dFactor sizeSrc sizeDest nX s.1.nStart x.nEnd) (Axis.first dFactor, s.2)).2)

def shrink (m_dFactor : ℚ) (sizeSrc sizeDest : Size) (b : Buffers) : Bool × ShrinkRun :=
  if 1 ≤ m_dFactor ∨ m_dFactor ≤ 0 then (false, ⟨b, [], true⟩)
  else
    let dFactor := 1 / m_dFactor
    (true, (forRange 0 sizeDest.cx (shrinkColumn dFactor sizeSrc sizeDest) (Axis.first dFactor, ⟨b, [], true⟩)).2)

def resizerDestSize (m_dFactor : ℚ) (sizeSrc : Size) : Size :=
  ⟨(truncInt (sizeSrc.cx * m_dFactor)).toNat, (truncInt (sizeSrc.cy * m_dFactor)).toNat⟩

/-! ## What a run should leave -/

/-- A source pixel that is averaged. -/
def Area.Holds (a : Area) (x y : ℕ) : Prop := a.nXStart ≤ x ∧ x ≤ a.nXEnd ∧ a.nYStart ≤ y ∧ y ≤ a.nYEnd

def channels : List (RGBX → Byte) := [RGBX.btRed, RGBX.btGreen, RGBX.btBlue]

/-- Every pixel of the destination is written from an area of its own, inside the source and not empty, and each of
its channels is between two values of the area. -/
structure Shrunk (sizeSrc sizeDest : Size) (b : Buffers) (r : ShrinkRun) : Prop where
  defined : r.defined = true
  inRange : r.bufs.src.inRange = b.src.inRange ∧ r.bufs.dest.inRange = b.dest.inRange
  written : ∀ nX < sizeDest.cx, ∀ nY < sizeDest.cy, ∃ a ∈ r.averaged, a.nX = nX ∧ a.nY = nY
  inside : ∀ a ∈ r.averaged, (∃ x y, a.Holds x y) ∧ ∀ x y, a.Holds x y → x < sizeSrc.cx ∧ y < sizeSrc.cy
  disjoint : ∀ a ∈ r.averaged, ∀ a' ∈ r.averaged, ∀ x y, a.Holds x y → a'.Holds x y → a.nX = a'.nX ∧ a.nY = a'.nY
  channel : ∀ a ∈ r.averaged, ∀ c ∈ channels,
    let value := fun px i => (c (px i)).toNat
    (∃ x y, a.Holds x y ∧ value b.src.px (y * sizeSrc.cx + x) ≤ value r.bufs.dest.px (a.nY * sizeDest.cx + a.nX)) ∧
      ∃ x y, a.Holds x y ∧ value r.bufs.dest.px (a.nY * sizeDest.cx + a.nX) ≤ value b.src.px (y * sizeSrc.cx + x)

/-! ## The cells of an area -/

/-- The columns and rows from `x0` to `x1` and from `y0` to `y1`, in the order of the loops. -/
def cellsOf (x0 x1 y0 y1 : ℕ) : List (ℕ × ℕ) :=
  (List.range' x0 (x1 - x0)).flatMap fun x => (List.range' y0 (y1 - y0)).map fun y => (x, y)

theorem mem_cellsOf {x0 x1 y0 y1 x y : ℕ} : (x, y) ∈ cellsOf x0 x1 y0 y1 ↔ (x0 ≤ x ∧ x < x1) ∧ y0 ≤ y ∧ y < y1 := by
  unfold cellsOf
  simp only [List.mem_flatMap, List.mem_map, List.mem_range'_1, Prod.mk.injEq]
  constructor
  · rintro ⟨x', hx', y', hy', rfl, rfl⟩
    omega
  · rintro ⟨hx, hy⟩
    exact ⟨x, by omega, y, by omega, rfl, rfl⟩

theorem forRange_cells {σ : Type} (x0 x1 y0 y1 : ℕ) (g : ℕ → ℕ → σ → σ) (s : σ) :
    forRange x0 x1 (fun x s => forRange y0 y1 (fun y s => g x y s) s) s =
      (cellsOf x0 x1 y0 y1).foldl (fun s c => g c.1 c.2 s) s := by
  unfold cellsOf forRange
  rw [List.foldl_flatMap]
  simp only [List.foldl_map]

def total (channel : RGBX → Byte) (sizeSrc : Size) (px : ℕ → RGBX) (cells : List (ℕ × ℕ)) : ℕ :=
  (cells.map fun c => (channel (px (c.2 * sizeSrc.cx + c.1))).toNat).sum

theorem foldl_sums (sizeSrc : Size) (cells : List (ℕ × ℕ)) (b : Buffer) (s : Sums) :
    (cells.foldl (fun (s : Buffer × Sums) c =>
        (s.1.touch (c.2 * sizeSrc.cx + c.1) 1, s.2.add (s.1.px (c.2 * sizeSrc.cx + c.1)))) (b, s)).2 =
      ⟨s.nCount + cells.length, s.nRed + total RGBX.btRed sizeSrc b.px cells,
        s.nGreen + total RGBX.btGreen sizeSrc b.px cells, s.nBlue + total RGBX.btBlue sizeSrc b.px cells⟩ := by
  induction cells generalizing b s with
  | nil => rfl
  | cons c cells ih =>
    rw [List.foldl_cons, ih]
    simp only [Sums.add, Buffer.touch_px, total, List.map_cons, List.sum_cons, List.length_cons, Sums.mk.injEq]
    omega

theorem foldl_buffer {sizeSrc : Size} {cells : List (ℕ × ℕ)} {b : Buffer} (s : Sums)
    (h : ∀ c ∈ cells, c.2 * sizeSrc.cx + c.1 < b.len) :
    let r := cells.foldl (fun (s : Buffer × Sums) c =>
        (s.1.touch (c.2 * sizeSrc.cx + c.1) 1, s.2.add (s.1.px (c.2 * sizeSrc.cx + c.1)))) (b, s)
    r.1.px = b.px ∧ r.1.len = b.len ∧ r.1.inRange = b.inRange := by
  induction cells generalizing b s with
  | nil => exact ⟨rfl, rfl, rfl⟩
  | cons c cells ih =>
    rw [List.forall_mem_cons] at h
    obtain ⟨hpx, hlen, hrange⟩ := ih (b := b.touch (c.2 * sizeSrc.cx + c.1) 1)
      (s.add (b.px (c.2 * sizeSrc.cx + c.1))) h.2
    refine ⟨hpx, hlen, hrange.trans ?_⟩
    exact Buffer.touch_inRange (Or.inr h.1)

def spanArea (f : ℚ) (sizeSrc : Size) (x y : ℕ) : Area :=
  ⟨x, y, spanEdge sizeSrc.cx f x, spanEdge sizeSrc.cx f (x + 1) - 1,
    spanEdge sizeSrc.cy f y, spanEdge sizeSrc.cy f (y + 1) - 1⟩

def spanCells (f : ℚ) (sizeSrc : Size) (x y : ℕ) : List (ℕ × ℕ) :=
  cellsOf (spanEdge sizeSrc.cx f x) (spanEdge sizeSrc.cx f (x + 1))
    (spanEdge sizeSrc.cy f y) (spanEdge sizeSrc.cy f (y + 1))

def Live (f : ℚ) (sizeSrc : Size) (x y : ℕ) : Prop :=
  spanEdge sizeSrc.cx f x < spanEdge sizeSrc.cx f (x + 1) ∧ spanEdge sizeSrc.cy f y < spanEdge sizeSrc.cy f (y + 1)

def spanSums (f : ℚ) (sizeSrc : Size) (px : ℕ → RGBX) (x y : ℕ) : Sums :=
  let cells := spanCells f sizeSrc x y
  ⟨cells.length, total RGBX.btRed sizeSrc px cells, total RGBX.btGreen sizeSrc px cells, total RGBX.btBlue sizeSrc px cells⟩

/-- The sums of the area fit into an `int`. -/
def SumsFit (f : ℚ) (sizeSrc : Size) (px : ℕ → RGBX) (x y : ℕ) : Prop :=
  ∀ c ∈ channels, total c sizeSrc px (spanCells f sizeSrc x y) < 2 ^ 31

section Cells
variable {f : ℚ} {sizeSrc : Size} {x y : ℕ}

theorem spanArea_holds (i j : ℕ) : (spanArea f sizeSrc x y).Holds i j ↔ (i, j) ∈ spanCells f sizeSrc x y := by
  unfold spanArea Area.Holds spanCells
  rw [mem_cellsOf]
  dsimp only
  omega

theorem spanCells_lt {i j : ℕ} (h : (i, j) ∈ spanCells f sizeSrc x y) : i < sizeSrc.cx ∧ j < sizeSrc.cy := by
  have hx := spanEdge_le (n := sizeSrc.cx) (f := f) (x + 1)
  have hy := spanEdge_le (n := sizeSrc.cy) (f := f) (y + 1)
  have hcell := mem_cellsOf.1 h
  omega

theorem spanCells_ne_nil (h : Live f sizeSrc x y) : spanCells f sizeSrc x y ≠ [] := by
  have hfirst : (spanEdge sizeSrc.cx f x, spanEdge sizeSrc.cy f y) ∈ spanCells f sizeSrc x y :=
    mem_cellsOf.2 ⟨⟨Nat.le_refl _, h.1⟩, Nat.le_refl _, h.2⟩
  exact List.ne_nil_of_mem hfirst

theorem sumArea_sums (src : Buffer) :
    (sumArea sizeSrc (spanArea f sizeSrc x y) src).2 = spanSums f sizeSrc src.px x y := by
  unfold sumArea spanArea
  simp only [Int.toNat_natCast, Int.sub_add_cancel]
  rw [forRange_cells, foldl_sums]
  simp only [Nat.zero_add]
  rfl

theorem sumArea_buffer {src : Buffer} (hsrc : sizeSrc.pixels ≤ src.len) :
    (sumArea sizeSrc (spanArea f sizeSrc x y) src).1.px = src.px ∧
      (sumArea sizeSrc (spanArea f sizeSrc x y) src).1.len = src.len ∧
      (sumArea sizeSrc (spanArea f sizeSrc x y) src).1.inRange = src.inRange := by
  unfold sumArea spanArea
  simp only [Int.toNat_natCast, Int.sub_add_cancel]
  rw [forRange_cells]
  refine foldl_buffer _ fun c hc => ?_
  obtain ⟨hx, hy⟩ := spanCells_lt (i := c.1) (j := c.2) hc
  have hin := index_lt hx hy
  omega

end Cells

/-! ## The loops -/

/-- The variables of an axis before turn `k`. -/
def Axis.atTurn (f : ℚ) (size k : ℕ) : Axis := ⟨(k - 1 / 2) / f, spanEdge size f k - 1⟩

theorem Axis.first_eq (f : ℚ) (size : ℕ) : Axis.first (1 / f) = Axis.atTurn f size 0 := by
  unfold Axis.first Axis.atTurn
  rw [spanEdge_zero, Axis.mk.injEq]
  refine ⟨?_, rfl⟩
  push_cast
  ring

theorem Axis.next_atTurn {f : ℚ} (h0 : 0 < f) (size k : ℕ) :
    (Axis.atTurn f size k).next size (1 / f) = Axis.atTurn f size (k + 1) := by
  have hend : ((k : ℚ) - 1 / 2) / f + 1 / f = (k + 1 / 2) / f := by
    rw [← add_div]
    ring
  have hpos : (0 : ℚ) ≤ (k + 1 / 2) / f := by positivity
  unfold Axis.next Axis.atTurn
  dsimp only
  rw [hend, truncInt_of_nonneg hpos, spanEdge_succ, Axis.mk.injEq]
  refine ⟨?_, ?_⟩
  · push_cast
    ring
  · push_cast
    omega

instance (f : ℚ) (sizeSrc : Size) (x y : ℕ) : Decidable (Live f sizeSrc x y) := inferInstanceAs (Decidable (_ ∧ _))

/-- What the loops do for a pixel of the destination. -/
def shrinkCell (f : ℚ) (sizeSrc sizeDest : Size) (x y : ℕ) (s : ShrinkRun) : ShrinkRun :=
  if Live f sizeSrc x y then averageArea sizeSrc sizeDest (spanArea f sizeSrc x y) s else s

theorem shrinkRow_atTurn {f : ℚ} (h0 : 0 < f) {sizeSrc sizeDest : Size} {x : ℕ}
    (hx : spanEdge sizeSrc.cx f x < spanEdge sizeSrc.cx f (x + 1)) (y : ℕ) (s : ShrinkRun) :
    shrinkRow (1 / f) sizeSrc sizeDest x (spanEdge sizeSrc.cx f x) (spanEdge sizeSrc.cx f (x + 1) - 1) y
        (Axis.atTurn f sizeSrc.cy y, s) =
      (Axis.atTurn f sizeSrc.cy (y + 1), shrinkCell f sizeSrc sizeDest x y s) := by
  unfold shrinkRow shrinkCell Axis.nStart
  dsimp only
  rw [Axis.next_atTurn h0]
  unfold Axis.atTurn
  dsimp only
  by_cases hy : spanEdge sizeSrc.cy f y < spanEdge sizeSrc.cy f (y + 1)
  · rw [if_neg (by omega), if_pos ⟨hx, hy⟩, Int.sub_add_cancel]
    rfl
  · rw [if_pos (by omega), if_neg fun hlive => hy hlive.2]

theorem shrinkColumn_atTurn {f : ℚ} (h0 : 0 < f) (sizeSrc sizeDest : Size) (x : ℕ) (s : ShrinkRun) :
    shrinkColumn (1 / f) sizeSrc sizeDest x (Axis.atTurn f sizeSrc.cx x, s) =
      (Axis.atTurn f sizeSrc.cx (x + 1), forRange 0 sizeDest.cy (shrinkCell f sizeSrc sizeDest x) s) := by
  unfold shrinkColumn Axis.nStart
  dsimp only
  rw [Axis.next_atTurn h0, Axis.first_eq f sizeSrc.cy]
  by_cases hx : spanEdge sizeSrc.cx f x < spanEdge sizeSrc.cx f (x + 1)
  · have hrows := forRange_rel (R := fun y (p : Axis × ShrinkRun) t => p = (Axis.atTurn f sizeSrc.cy y, t))
      (f := shrinkRow (1 / f) sizeSrc sizeDest x (spanEdge sizeSrc.cx f x) (spanEdge sizeSrc.cx f (x + 1) - 1))
      (g := shrinkCell f sizeSrc sizeDest x) (Nat.zero_le sizeDest.cy) (rfl : (_, s) = _)
      fun y p t _ _ hp => by rw [hp, shrinkRow_atTurn h0 hx]
    unfold Axis.atTurn at *
    dsimp only
    rw [if_neg (by omega), Int.sub_add_cancel, hrows]
  · have hskip : forRange 0 sizeDest.cy (shrinkCell f sizeSrc sizeDest x) s = s :=
      forRange_inv (P := fun _ t => t = s) (Nat.zero_le _) rfl fun y t _ _ ht => by
        rw [ht]
        exact if_neg fun hlive => hx hlive.1
    unfold Axis.atTurn
    dsimp only
    rw [if_pos (by omega), hskip]

/-- The loops, without the fractions that they accumulate. -/
theorem shrink_eq_raster {f : ℚ} (h0 : 0 < f) (h1 : f < 1) (sizeSrc sizeDest : Size) (b : Buffers) :
    shrink f sizeSrc sizeDest b =
      (true, raster sizeDest.cx sizeDest.cy (shrinkCell f sizeSrc sizeDest) ⟨b, [], true⟩) := by
  have hcolumns := forRange_rel (R := fun x (p : Axis × ShrinkRun) t => p = (Axis.atTurn f sizeSrc.cx x, t))
    (f := shrinkColumn (1 / f) sizeSrc sizeDest) (g := fun x => forRange 0 sizeDest.cy (shrinkCell f sizeSrc sizeDest x))
    (Nat.zero_le sizeDest.cx) (rfl : (_, (⟨b, [], true⟩ : ShrinkRun)) = _)
    fun x p t _ _ hp => by rw [hp, shrinkColumn_atTurn h0]
  unfold shrink
  rw [if_neg (by rw [not_or, not_le, not_le]; exact ⟨h1, h0⟩)]
  dsimp only
  rw [Axis.first_eq f sizeSrc.cx, hcolumns]
  rfl

/-! ## The areas that are done -/

/-- The pixel at `x` and `y` comes before the one at `X` and `Y`. -/
def Before (sizeDest : Size) (X Y x y : ℕ) : Prop := y < sizeDest.cy ∧ (x < X ∨ x = X ∧ y < Y)

/-- What holds when the pixels before the one at `X` and `Y` are done. -/
structure Done (f : ℚ) (sizeSrc sizeDest : Size) (b : Buffers) (X Y : ℕ) (t : ShrinkRun) : Prop where
  src : t.bufs.src.px = b.src.px ∧ t.bufs.src.len = b.src.len ∧ t.bufs.src.inRange = b.src.inRange
  dest : t.bufs.dest.len = b.dest.len ∧ t.bufs.dest.inRange = b.dest.inRange
  averaged : ∀ a, a ∈ t.averaged ↔ ∃ x y, Before sizeDest X Y x y ∧ Live f sizeSrc x y ∧ a = spanArea f sizeSrc x y
  defined : t.defined = true ↔ ∀ x y, Before sizeDest X Y x y → Live f sizeSrc x y → SumsFit f sizeSrc b.src.px x y
  channel : ∀ x y, Before sizeDest X Y x y → Live f sizeSrc x y → ∀ c ∈ channels,
    c (t.bufs.dest.px (y * sizeDest.cx + x)) =
      BitVec.ofNat 8 (total c sizeSrc b.src.px (spanCells f sizeSrc x y) / (spanCells f sizeSrc x y).length)

section Runs
variable {f : ℚ} {sizeSrc sizeDest : Size} {b : Buffers}

theorem before_succ {X Y x y : ℕ} (hY : Y < sizeDest.cy) :
    Before sizeDest X (Y + 1) x y ↔ Before sizeDest X Y x y ∨ x = X ∧ y = Y := by
  unfold Before
  omega

theorem forall_before_succ {X Y : ℕ} (hY : Y < sizeDest.cy) (P : ℕ → ℕ → Prop) :
    (∀ x y, Before sizeDest X (Y + 1) x y → P x y) ↔ (∀ x y, Before sizeDest X Y x y → P x y) ∧ P X Y := by
  constructor
  · intro hall
    exact ⟨fun x y hold => hall x y ((before_succ hY).2 (Or.inl hold)),
      hall X Y ((before_succ hY).2 (Or.inr ⟨rfl, rfl⟩))⟩
  · rintro ⟨hold, hnew⟩ x y hbefore
    cases (before_succ hY).1 hbefore with
    | inl hbefore => exact hold x y hbefore
    | inr heq =>
      rw [heq.1, heq.2]
      exact hnew

theorem exists_before_succ {X Y : ℕ} (hY : Y < sizeDest.cy) (P : ℕ → ℕ → Prop) :
    (∃ x y, Before sizeDest X (Y + 1) x y ∧ P x y) ↔ (∃ x y, Before sizeDest X Y x y ∧ P x y) ∨ P X Y := by
  have hnone := forall_before_succ (X := X) hY fun x y => ¬ P x y
  rw [← not_iff_not, not_or]
  simp only [not_exists, not_and]
  exact hnone

theorem before_next_column {X x y : ℕ} : Before sizeDest (X + 1) 0 x y ↔ Before sizeDest X sizeDest.cy x y := by
  unfold Before
  omega

theorem sumsFit_iff (px : ℕ → RGBX) (x y : ℕ) : SumsFit f sizeSrc px x y ↔ (spanSums f sizeSrc px x y).fit = true := by
  unfold SumsFit Sums.fit spanSums
  simp [channels, and_assoc]

theorem Done.skip {X Y : ℕ} {t : ShrinkRun} (h : Done f sizeSrc sizeDest b X Y t) (hY : Y < sizeDest.cy)
    (hlive : ¬ Live f sizeSrc X Y) : Done f sizeSrc sizeDest b X (Y + 1) t := by
  refine ⟨h.src, h.dest, fun a => ?_, ?_, ?_⟩
  · rw [h.averaged, exists_before_succ hY]
    exact (or_iff_left fun hnew => hlive hnew.1).symm
  · rw [h.defined, forall_before_succ hY]
    exact (and_iff_left fun hnew => absurd hnew hlive).symm
  · exact (forall_before_succ hY _).2 ⟨h.channel, fun hnew => absurd hnew hlive⟩

theorem Done.average {X Y : ℕ} {t : ShrinkRun} (h : Done f sizeSrc sizeDest b X Y t) (hX : X < sizeDest.cx)
    (hY : Y < sizeDest.cy) (hlive : Live f sizeSrc X Y) (hsrc : sizeSrc.pixels ≤ b.src.len)
    (hdest : sizeDest.pixels ≤ b.dest.len) :
    Done f sizeSrc sizeDest b X (Y + 1) (averageArea sizeSrc sizeDest (spanArea f sizeSrc X Y) t) := by
  obtain ⟨hpx, hlen, hrange⟩ := h.src
  obtain ⟨hsumpx, hsumlen, hsumrange⟩ :
      (sumArea sizeSrc (spanArea f sizeSrc X Y) t.bufs.src).1.px = t.bufs.src.px ∧ _ ∧ _ :=
    sumArea_buffer (by rw [hlen]; exact hsrc)
  have hsums : (sumArea sizeSrc (spanArea f sizeSrc X Y) t.bufs.src).2 = _ := sumArea_sums t.bufs.src
  rw [hpx] at hsums
  have hcell := index_lt hX hY
  have hcount : (spanSums f sizeSrc b.src.px X Y).nCount ≠ 0 :=
    fun hzero => spanCells_ne_nil hlive (List.length_eq_zero_iff.1 hzero)
  generalize hr : sumArea sizeSrc (spanArea f sizeSrc X Y) t.bufs.src = r at hsumpx hsumlen hsumrange hsums
  obtain ⟨src, sums⟩ := r
  dsimp only at hsumpx hsumlen hsumrange hsums
  subst hsums
  unfold averageArea
  rw [hr]
  refine ⟨⟨hsumpx.trans hpx, hsumlen.trans hlen, hsumrange.trans hrange⟩, ⟨h.dest.1, ?_⟩, fun a => ?_, ?_, ?_⟩
  · exact (Buffer.store_inRange (by rw [h.dest.1]; exact Nat.lt_of_lt_of_le hcell hdest) _).trans h.dest.2
  · dsimp only
    rw [List.mem_cons, h.averaged, exists_before_succ hY, and_iff_right hlive]
    exact or_comm
  · dsimp only
    rw [Bool.and_eq_true, Bool.and_eq_true, h.defined, ← sumsFit_iff, decide_eq_true_iff, and_iff_left hcount,
      forall_before_succ hY, forall_prop_of_true hlive]
  · refine (forall_before_succ hY _).2 ⟨fun x y hold hxy c hc => ?_, fun _ c hc => ?_⟩
    · -- an earlier pixel is another cell of the destination
      have hne : y * sizeDest.cx + x ≠ Y * sizeDest.cx + X := by
        intro heq
        unfold Before at hold
        obtain ⟨hx, hy⟩ := cell_inj (by omega) hX heq
        omega
      show c (Function.update t.bufs.dest.px (Y * sizeDest.cx + X) _ _) = _
      rw [Function.update_of_ne hne]
      exact h.channel x y hold hxy c hc
    · show c (Function.update t.bufs.dest.px (Y * sizeDest.cx + X) _ _) = _
      simp only [channels, List.mem_cons, List.not_mem_nil, or_false] at hc
      rw [Function.update_self]
      rcases hc with rfl | rfl | rfl <;> rfl

theorem raster_done (hsrc : sizeSrc.pixels ≤ b.src.len) (hdest : sizeDest.pixels ≤ b.dest.len) :
    Done f sizeSrc sizeDest b sizeDest.cx 0
      (raster sizeDest.cx sizeDest.cy (shrinkCell f sizeSrc sizeDest) ⟨b, [], true⟩) := by
  have hnone : ∀ x y, ¬ Before sizeDest 0 0 x y := fun x y hbefore => by
    unfold Before at hbefore
    omega
  refine raster_inv (P := fun X Y t => Done f sizeSrc sizeDest b X Y t) ?_ ?_ ?_
  · refine ⟨⟨rfl, rfl, rfl⟩, ⟨rfl, rfl⟩, fun a => ?_, ?_, fun x y hbefore => absurd hbefore (hnone x y)⟩
    · refine iff_of_false List.not_mem_nil ?_
      rintro ⟨x, y, hbefore, -⟩
      exact hnone x y hbefore
    · exact iff_of_true rfl fun x y hbefore => absurd hbefore (hnone x y)
  · intro X Y t hX hY hdone
    unfold shrinkCell
    split
    · next hlive => exact hdone.average hX hY hlive hsrc hdest
    · next hlive => exact hdone.skip hY hlive
  · intro X t hX hdone
    obtain ⟨h1, h2, h3, h4, h5⟩ := hdone
    simp only [← before_next_column] at h3 h4 h5
    exact ⟨h1, h2, h3, h4, h5⟩

/-- An average of bytes is a byte between two of them. -/
theorem average_between (c : RGBX → Byte) (px : ℕ → RGBX) {x y : ℕ} (h : Live f sizeSrc x y) :
    let v := BitVec.ofNat 8 (total c sizeSrc px (spanCells f sizeSrc x y) / (spanCells f sizeSrc x y).length)
    (∃ i j, (i, j) ∈ spanCells f sizeSrc x y ∧ (c (px (j * sizeSrc.cx + i))).toNat ≤ v.toNat) ∧
      ∃ i j, (i, j) ∈ spanCells f sizeSrc x y ∧ v.toNat ≤ (c (px (j * sizeSrc.cx + i))).toNat := by
  have hne : (spanCells f sizeSrc x y).map (fun p => (c (px (p.2 * sizeSrc.cx + p.1))).toNat) ≠ [] := by
    rw [Ne, List.map_eq_nil_iff]
    exact spanCells_ne_nil h
  obtain ⟨low, hlow, hle⟩ := exists_le_average hne
  obtain ⟨high, hhigh, hge⟩ := exists_average_le hne
  obtain ⟨⟨i, j⟩, hij, rfl⟩ := List.mem_map.1 hlow
  obtain ⟨⟨i', j'⟩, hij', rfl⟩ := List.mem_map.1 hhigh
  rw [List.length_map] at hle hge
  have hbyte : total c sizeSrc px (spanCells f sizeSrc x y) / (spanCells f sizeSrc x y).length < 2 ^ 8 :=
    Nat.lt_of_le_of_lt hge (BitVec.isLt _)
  intro v
  have hv : v.toNat = total c sizeSrc px (spanCells f sizeSrc x y) / (spanCells f sizeSrc x y).length := by
    rw [BitVec.toNat_ofNat, Nat.mod_eq_of_lt hbyte]
  rw [hv]
  exact ⟨⟨i, j, hij, hle⟩, i', j', hij', hge⟩

theorem shrunk_of_live (h0 : 0 < f) (h1 : f < 1) (hsrc : sizeSrc.pixels ≤ b.src.len)
    (hdest : sizeDest.pixels ≤ b.dest.len) (hlive : ∀ x < sizeDest.cx, ∀ y < sizeDest.cy, Live f sizeSrc x y)
    (hfit : ∀ x < sizeDest.cx, ∀ y < sizeDest.cy, SumsFit f sizeSrc b.src.px x y) :
    Shrunk sizeSrc sizeDest b (shrink f sizeSrc sizeDest b).2 := by
  rw [shrink_eq_raster h0 h1]
  have hdone := raster_done (f := f) hsrc hdest
  have hbefore : ∀ x y, Before sizeDest sizeDest.cx 0 x y ↔ x < sizeDest.cx ∧ y < sizeDest.cy := fun x y => by
    unfold Before
    omega
  refine ⟨?_, ⟨hdone.src.2.2, hdone.dest.2⟩, fun x hx y hy => ?_, fun a ha => ?_,
    fun a ha a' ha' i j hi hi' => ?_, fun a ha c hc => ?_⟩
  · rw [hdone.defined]
    exact fun x y hxy _ => hfit x ((hbefore x y).1 hxy).1 y ((hbefore x y).1 hxy).2
  · exact ⟨spanArea f sizeSrc x y, (hdone.averaged _).2 ⟨x, y, (hbefore x y).2 ⟨hx, hy⟩, hlive x hx y hy, rfl⟩, rfl, rfl⟩
  · obtain ⟨x, y, -, hxy, rfl⟩ := (hdone.averaged a).1 ha
    obtain ⟨⟨i, j⟩, hij⟩ := List.exists_mem_of_ne_nil _ (spanCells_ne_nil hxy)
    exact ⟨⟨i, j, (spanArea_holds i j).2 hij⟩, fun i j hij => spanCells_lt ((spanArea_holds i j).1 hij)⟩
  · obtain ⟨x, y, -, hxy, rfl⟩ := (hdone.averaged a).1 ha
    obtain ⟨x', y', -, hxy', rfl⟩ := (hdone.averaged a').1 ha'
    have hcell := mem_cellsOf.1 ((spanArea_holds i j).1 hi)
    have hcell' := mem_cellsOf.1 ((spanArea_holds i j).1 hi')
    exact ⟨span_unique h0 h1 hcell.1 hcell'.1, span_unique h0 h1 hcell.2 hcell'.2⟩
  · obtain ⟨x, y, hxy, hl, rfl⟩ := (hdone.averaged a).1 ha
    simp only [spanArea_holds]
    have hvalue := hdone.channel x y hxy hl c hc
    obtain ⟨hlow, hhigh⟩ := average_between c b.src.px hl
    rw [← hvalue] at hlow hhigh
    exact ⟨hlow, hhigh⟩

theorem Shrunk.live (h0 : 0 < f) (h1 : f < 1) (hsrc : sizeSrc.pixels ≤ b.src.len) (hdest : sizeDest.pixels ≤ b.dest.len)
    (h : Shrunk sizeSrc sizeDest b (shrink f sizeSrc sizeDest b).2) {x y : ℕ} (hx : x < sizeDest.cx)
    (hy : y < sizeDest.cy) : Live f sizeSrc x y := by
  rw [shrink_eq_raster h0 h1] at h
  obtain ⟨a, ha, hax, hay⟩ := h.written x hx y hy
  obtain ⟨x', y', -, hlive, rfl⟩ := ((raster_done hsrc hdest).averaged a).1 ha
  rw [← hax, ← hay]
  exact hlive

end Runs

/-! ## When every pixel has an area -/

/-- The last span of an axis of `n` pixels is not empty. -/
def Covers (f : ℚ) (n : ℕ) : Prop := 4 * f < 3 + 2 * Int.fract (n * f)

theorem resizerDestSize_eq {f : ℚ} (h0 : 0 < f) (sizeSrc : Size) :
    resizerDestSize f sizeSrc = ⟨⌊sizeSrc.cx * f⌋₊, ⌊sizeSrc.cy * f⌋₊⟩ := by
  unfold resizerDestSize
  rw [truncInt_of_nonneg (by positivity), truncInt_of_nonneg (by positivity)]
  rfl

theorem covers_iff {f : ℚ} (h0 : 0 < f) (h1 : f < 1) {n : ℕ} (hm : 0 < ⌊n * f⌋₊) :
    Covers f n ↔ ∀ k < ⌊n * f⌋₊, spanEdge n f k < spanEdge n f (k + 1) := by
  have hpos : (0 : ℚ) ≤ n * f := by positivity
  have hfract : Int.fract (n * f : ℚ) = n * f - ⌊n * f⌋₊ := by
    rw [Int.fract, ← Int.natCast_floor_eq_floor hpos, Int.cast_natCast]
  unfold Covers
  rw [spans_nonempty_iff h0 h1 hm, spanEdge_last_lt_iff h0 h1 hm, hfract]
  constructor
  · intro h
    linarith only [h]
  · intro h
    linarith only [h]

/-- A shrunk picture is as it should be if and only if the last span of either axis is not empty and no sum of a
channel over an area reaches `2 ^ 31`. -/
theorem shrunk_iff {f : ℚ} (h0 : 0 < f) (h1 : f < 1) {sizeSrc : Size} (hcx : 1 ≤ (resizerDestSize f sizeSrc).cx)
    (hcy : 1 ≤ (resizerDestSize f sizeSrc).cy) {b : Buffers} (hsrc : sizeSrc.pixels ≤ b.src.len)
    (hdest : (resizerDestSize f sizeSrc).pixels ≤ b.dest.len) :
    Shrunk sizeSrc (resizerDestSize f sizeSrc) b (shrink f sizeSrc (resizerDestSize f sizeSrc) b).2 ↔
      Covers f sizeSrc.cx ∧ Covers f sizeSrc.cy ∧
        ∀ x < (resizerDestSize f sizeSrc).cx, ∀ y < (resizerDestSize f sizeSrc).cy, SumsFit f sizeSrc b.src.px x y := by
  have hsize := resizerDestSize_eq h0 sizeSrc
  have hx : Covers f sizeSrc.cx ↔
      ∀ x < (resizerDestSize f sizeSrc).cx, spanEdge sizeSrc.cx f x < spanEdge sizeSrc.cx f (x + 1) := by
    rw [hsize] at hcx ⊢
    exact covers_iff h0 h1 hcx
  have hy : Covers f sizeSrc.cy ↔
      ∀ y < (resizerDestSize f sizeSrc).cy, spanEdge sizeSrc.cy f y < spanEdge sizeSrc.cy f (y + 1) := by
    rw [hsize] at hcy ⊢
    exact covers_iff h0 h1 hcy
  rw [hx, hy]
  generalize resizerDestSize f sizeSrc = sizeDest at *
  constructor
  · intro hok
    have hlive : ∀ x < sizeDest.cx, ∀ y < sizeDest.cy, Live f sizeSrc x y :=
      fun x hx y hy => hok.live h0 h1 hsrc hdest hx hy
    have hdefined := hok.defined
    rw [shrink_eq_raster h0 h1, (raster_done hsrc hdest).defined] at hdefined
    refine ⟨fun x hx => (hlive x hx 0 hcy).1, fun y hy => (hlive 0 hcx y hy).2, fun x hx y hy => ?_⟩
    exact hdefined x y ⟨hy, Or.inl hx⟩ (hlive x hx y hy)
  · rintro ⟨hxs, hys, hfit⟩
    exact shrunk_of_live h0 h1 hsrc hdest (fun x hx y hy => ⟨hxs x hx, hys y hy⟩) hfit

theorem resizerDestSize_half : resizerDestSize (1 / 2) ⟨2, 2⟩ = ⟨1, 1⟩ := by
  rw [resizerDestSize_eq (by norm_num)]
  norm_num

/-- A picture of two by two, to one pixel. -/
theorem shrunk_iff_sample :
    Shrunk ⟨2, 2⟩ (resizerDestSize (1 / 2) ⟨2, 2⟩) ⟨newPixels 4, newPixels 1⟩
        (shrink (1 / 2) ⟨2, 2⟩ (resizerDestSize (1 / 2) ⟨2, 2⟩) ⟨newPixels 4, newPixels 1⟩).2 ↔
      Covers (1 / 2) 2 ∧ Covers (1 / 2) 2 ∧
        ∀ x < (resizerDestSize (1 / 2) ⟨2, 2⟩).cx, ∀ y < (resizerDestSize (1 / 2) ⟨2, 2⟩).cy,
          SumsFit (1 / 2) ⟨2, 2⟩ (newPixels 4).px x y :=
  @shrunk_iff (1 / 2) (by norm_num) (by norm_num) ⟨2, 2⟩ (by rw [resizerDestSize_half]) (by rw [resizerDestSize_half])
    ⟨newPixels 4, newPixels 1⟩ (by decide) (by rw [resizerDestSize_half]; decide)

/-- A picture of four by four, to three quarters: the last column and the last row of the three by three pixels are not
written. -/
theorem last_column_unwritten :
    ¬ ∀ f : ℚ, 0 < f → f < 1 → ∀ sizeSrc : Size, 1 ≤ (resizerDestSize f sizeSrc).cx → 1 ≤ (resizerDestSize f sizeSrc).cy →
      ∀ b : Buffers, sizeSrc.pixels ≤ b.src.len → (resizerDestSize f sizeSrc).pixels ≤ b.dest.len →
        Shrunk sizeSrc (resizerDestSize f sizeSrc) b (shrink f sizeSrc (resizerDestSize f sizeSrc) b).2 := by
  intro h
  have h0 : (0 : ℚ) < 3 / 4 := by norm_num
  have h1 : (3 / 4 : ℚ) < 1 := by norm_num
  have hsize : resizerDestSize (3 / 4) ⟨4, 4⟩ = ⟨3, 3⟩ := by
    rw [resizerDestSize_eq h0]
    norm_num
  have hok := h (3 / 4) h0 h1 ⟨4, 4⟩ (by rw [hsize]; decide) (by rw [hsize]; decide) ⟨newPixels 16, newPixels 9⟩
    (by decide) (by rw [hsize]; decide)
  rw [hsize] at hok
  have hlive := hok.live h0 h1 (by decide) (by decide) (show 2 < 3 by decide) (show 0 < 3 by decide)
  have hfloor : ⌊((1 : ℕ) + 1 / 2 : ℚ) / (3 / 4)⌋₊ = 2 := by norm_num
  have hedge : spanEdge 4 (3 / 4) 2 = 4 := by
    rw [spanEdge_succ, hfloor]
    rfl
  have hend := hlive.1
  rw [hedge] at hend
  exact absurd hend (Nat.not_lt.2 (spanEdge_le 3))

end StarLib.ImageProcessors
