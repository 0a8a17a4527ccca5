import StarLib.ImageProcessors.Fill
import StarLib.ImageProcessors.Processors

/-! # The stages of `CEnBitmap::ProcessImage`

Two buffers go through a list of processors. Between two stages the destination is copied back to the source,
which is allocated anew where the last source size does not cover the last destination size, and the part of
the destination that the last stage owned is filled with the background again. What a processor is given is
kept in a list of calls. A processor may change the pixels of both buffers; of the destination it changes
those of its own size only.
-/

namespace StarLib.ImageProcessors
open Foundations
set_option autoImplicit false
set_option maxHeartbeats 250000
set_option maxRecDepth 120000

/-- A `C32BitImageProcessor` that keeps inside its own `sizeDest`. -/
structure Processor where
  calcDestSize : Size → Size
  processPixels : Buffers → Size → Size → COLORREF → Bool × Buffers
  inside : ∀ (b : Buffers) (size : Size) (crMask : COLORREF), size.pixels ≤ b.src.len →
    (calcDestSize size).pixels ≤ b.dest.len → ∀ i, (calcDestSize size).pixels ≤ i →
    (processPixels b size (calcDestSize size) crMask).2.dest.px i = b.dest.px i

/-- The pixels that a processor leaves. It has pointers only, and the record of accesses is that of
`ProcessImage` itself. -/
def Buffers.holding (b b' : Buffers) : Buffers :=
  ⟨{ b.src with px := b'.src.px }, { b.dest with px := b'.dest.px }⟩

/-- A call of `ProcessPixels`: what it is given, and the buffers after it. -/
structure Call where
  bufs : Buffers
  sizeSrc : Size
  sizeDest : Size
  after : Buffers

/-- The variables of `ProcessImage` between two stages. -/
structure Stage where
  bufs : Buffers
  sizeSrc : Size
  sizeDest : Size
  bRes : Bool

/-- What is done for the second processor and the later ones. -/
def copyBack (crBkgnd : COLORREF) (s : Stage) : Buffers :=
  let src := if s.sizeSrc.cx < s.sizeDest.cx ∨ s.sizeSrc.cy < s.sizeDest.cy then newPixels s.sizeDest.pixels else s.bufs.src
  let b := (Buffers.mk s.bufs.dest src).copyMemory s.sizeDest.pixels
  ⟨b.dest, fill b.src s.sizeDest crBkgnd⟩

/-- A turn of the loop over the processors, from the buffers that it starts with. -/
def stage (crMask : COLORREF) (p : Processor) (bufs : Buffers) (s : Stage) : Call × Stage :=
  let sizeSrc := s.sizeDest
  let sizeDest := p.calcDestSize sizeSrc
  let r := p.processPixels bufs sizeSrc sizeDest crMask
  let after := bufs.holding r.2
  (⟨bufs, sizeSrc, sizeDest, after⟩, ⟨after, sizeSrc, sizeDest, r.1⟩)

/-- The stages from the second on. -/
def laterStages (crBkgnd crMask : COLORREF) : List Processor → Stage → List Call × Stage
  | [], s => ([], s)
  | p :: ps, s =>
    if s.bRes then
      let t := stage crMask p (copyBack crBkgnd s) s
      let rest := laterStages crBkgnd crMask ps t.2
      (t.1 :: rest.1, rest.2)
    else ([], s)

/-- `sizeDest` and `sizeMax` after the loop that computes them. -/
def calcSizes (aProcessors : List Processor) (s : Size × Size) : Size × Size :=
  aProcessors.foldl (fun s p =>
    let sizeDest := p.calcDestSize s.1
    (sizeDest, ⟨max s.2.cx sizeDest.cx, max s.2.cy sizeDest.cy⟩)) s

def sizeMaxOf (aProcessors : List Processor) (sizeSrc : Size) : Size := (calcSizes aProcessors (sizeSrc, sizeSrc)).2

/-- A bitmap. A width or height of zero is none. -/
structure Bitmap where
  size : Size
  pixel : ℕ → RGBX
  pos : 0 < size.cx ∧ 0 < size.cy

/-- `GetDIBits32`. -/
def Bitmap.getDIBits32 (bm : Bitmap) : Buffer :=
  ⟨amount bm.size.pixels, bm.pixel, true, four_mul_amount_lt _⟩

/-- `ProcessImage` up to the update of the bitmap: the calls of `ProcessPixels`, and the state after the loop. With
no processors there is no loop. -/
def processStages (bm : Bitmap) (crBkgnd crMask : COLORREF) : List Processor → List Call × Option Stage
  | [] => ([], none)
  | p :: ps =>
    let sizeMax := sizeMaxOf (p :: ps) bm.size
    let bufs : Buffers := ⟨bm.getDIBits32, fill (newPixels sizeMax.pixels) sizeMax crBkgnd⟩
    let t := stage crMask p bufs ⟨bufs, bm.size, bm.size, true⟩
    let rest := laterStages crBkgnd crMask ps t.2
    (t.1 :: rest.1, some rest.2)

/-! ## Sizes -/

/-- `size` is no larger than `max` in either direction. -/
def Size.Within (size max : Size) : Prop := size.cx ≤ max.cx ∧ size.cy ≤ max.cy

theorem Size.Within.pixels_le {size max : Size} (h : size.Within max) : size.pixels ≤ max.pixels :=
  Nat.mul_le_mul h.1 h.2

/-- The destination sizes of the processors, from a source size on, are within `max`. -/
def StagesWithin (max : Size) : List Processor → Size → Prop
  | [], _ => True
  | p :: ps, size => (p.calcDestSize size).Within max ∧ StagesWithin max ps (p.calcDestSize size)

theorem calcSizes_within (ps : List Processor) (s : Size × Size) :
    s.2.Within (calcSizes ps s).2 ∧ StagesWithin (calcSizes ps s).2 ps s.1 := by
  induction ps generalizing s with
  | nil => exact ⟨⟨Nat.le_refl _, Nat.le_refl _⟩, trivial⟩
  | cons p ps ih =>
    obtain ⟨hmax, hstages⟩ := ih (p.calcDestSize s.1, ⟨max s.2.cx (p.calcDestSize s.1).cx, max s.2.cy (p.calcDestSize s.1).cy⟩)
    obtain ⟨hcx, hcy⟩ := hmax
    simp only [Nat.max_le] at hcx hcy
    exact ⟨⟨hcx.1, hcy.1⟩, ⟨hcx.2, hcy.2⟩, hstages⟩

/-! ## What the processors find -/

/-- What a call of `ProcessPixels` relies on. -/
structure Ready (crBkgnd : COLORREF) (call : Call) : Prop where
  src : call.sizeSrc.pixels ≤ call.bufs.src.len
  dest : call.sizeDest.pixels ≤ call.bufs.dest.len
  background : ∀ i < call.bufs.dest.len, (call.bufs.dest.px i).same (RGBX.ofColor crBkgnd) = true
  inRange : call.bufs.src.inRange = true ∧ call.bufs.dest.inRange = true

/-- Each call reads the pixels that the call before it left, the first those of the picture. -/
def Handed (pixel : ℕ → RGBX) : List Call → Prop
  | [] => True
  | call :: calls => (∀ i < call.sizeSrc.pixels, call.bufs.src.px i = pixel i) ∧ Handed call.after.dest.px calls

/-- What holds between two stages: `max` is the size that the destination was allocated for. -/
structure Between (max : Size) (crBkgnd : COLORREF) (s : Stage) : Prop where
  within : s.sizeDest.Within max
  src : s.sizeSrc.pixels ≤ s.bufs.src.len
  dest : s.bufs.dest.len = max.pixels
  background : ∀ i < s.bufs.dest.len, s.sizeDest.pixels ≤ i → (s.bufs.dest.px i).same (RGBX.ofColor crBkgnd) = true
  inRange : s.bufs.src.inRange = true ∧ s.bufs.dest.inRange = true

/-- Buffers that a stage can start with, and the pixels in the source. -/
structure Start (max : Size) (crBkgnd : COLORREF) (pixel : ℕ → RGBX) (sizeSrc : Size) (bufs : Buffers) : Prop where
  src : sizeSrc.pixels ≤ bufs.src.len
  dest : bufs.dest.len = max.pixels
  background : ∀ i < bufs.dest.len, (bufs.dest.px i).same (RGBX.ofColor crBkgnd) = true
  handed : ∀ i < sizeSrc.pixels, bufs.src.px i = pixel i
  inRange : bufs.src.inRange = true ∧ bufs.dest.inRange = true

section Stages
variable {max : Size} {crBkgnd : COLORREF} (crMask : COLORREF)

theorem filledCount_le {size : Size} (hmax : 0 < max.cx ∧ 0 < max.cy) (hwithin : size.Within max) (color : COLORREF) :
    filledCount size color ≤ max.pixels := by
  have hcx : max.cx ≤ max.pixels := Nat.le_mul_of_pos_right max.cx hmax.2
  have hpixels := hwithin.pixels_le
  have hline := hwithin.1
  unfold filledCount
  split <;> omega

theorem pixels_le_filledCount (size : Size) (color : COLORREF) : size.pixels ≤ filledCount size color := by
  unfold filledCount
  split
  · exact Nat.le_refl _
  · next h =>
    have hzero : size.pixels = 0 := by
      by_contra hne
      exact h (Or.inr (Or.inr (Or.inr hne)))
    omega

/-- Filling a buffer that is large enough leaves only background where it was, or where `size` is. -/
theorem fill_background (b : Buffer) (size : Size) (crBkgnd : COLORREF) (hcx : 4 * size.cx < 2 ^ 32) (hsize : 4 * size.pixels < 2 ^ 32)
    (hroom : filledCount size crBkgnd ≤ b.len)
    (h : ∀ i < b.len, size.pixels ≤ i → (b.px i).same (RGBX.ofColor crBkgnd) = true) :
    (fill b size crBkgnd).len = b.len ∧ (fill b size crBkgnd).inRange = b.inRange ∧
      ∀ i < b.len, ((fill b size crBkgnd).px i).same (RGBX.ofColor crBkgnd) = true := by
  have hfill := fill_filled b hcx hsize crBkgnd
  refine ⟨hfill.len, hfill.inRange hroom, fun i hi => ?_⟩
  rcases Nat.lt_or_ge i (filledCount size crBkgnd) with hlt | hge
  · rw [hfill.below i hlt, fillPixel_same]
  · rw [hfill.above i hge]
    exact h i hi (Nat.le_trans (pixels_le_filledCount size crBkgnd) hge)

theorem copyBack_start {s : Stage} (hmax : 0 < max.cx ∧ 0 < max.cy) (hfits : 4 * max.pixels < 2 ^ 32)
    (h : Between max crBkgnd s) : Start max crBkgnd s.bufs.dest.px s.sizeDest (copyBack crBkgnd s) := by
  have hpixels := h.within.pixels_le
  have hcx : max.cx ≤ max.pixels := Nat.le_mul_of_pos_right max.cx hmax.2
  have hline := h.within.1
  have hsmall : amount s.sizeDest.pixels = s.sizeDest.pixels := amount_of_lt (by omega)
  -- the source covers the last destination: it was allocated for it, or is as large in both directions
  have hsrc : ∃ src : Buffer, s.sizeDest.pixels ≤ src.len ∧ src.inRange = true ∧
      copyBack crBkgnd s = ⟨((Buffers.mk s.bufs.dest src).copyMemory s.sizeDest.pixels).dest,
        fill ((Buffers.mk s.bufs.dest src).copyMemory s.sizeDest.pixels).src s.sizeDest crBkgnd⟩ := by
    by_cases hgrow : s.sizeSrc.cx < s.sizeDest.cx ∨ s.sizeSrc.cy < s.sizeDest.cy
    · refine ⟨newPixels s.sizeDest.pixels, ?_, rfl, ?_⟩
      · show s.sizeDest.pixels ≤ amount s.sizeDest.pixels
        omega
      · unfold copyBack
        simp only [if_pos hgrow]
    · refine ⟨s.bufs.src, ?_, h.inRange.1, ?_⟩
      · have hcover : s.sizeDest.Within s.sizeSrc := ⟨by omega, by omega⟩
        exact Nat.le_trans hcover.pixels_le h.src
      · unfold copyBack
        simp only [if_neg hgrow]
  obtain ⟨src, hroom, hrange, hback⟩ := hsrc
  rw [hback]
  unfold Buffers.copyMemory
  rw [hsmall]
  have hdest := h.dest
  obtain ⟨hlen, hrange', hbackground⟩ := fill_background (s.bufs.dest.touch 0 s.sizeDest.pixels) s.sizeDest crBkgnd
    (by omega) (by omega)
    (by rw [Buffer.touch_len, hdest]; exact filledCount_le hmax h.within crBkgnd) h.background
  refine ⟨hroom, hlen.trans hdest, fun i hi => ?_, fun i hi => ?_, ?_, ?_⟩
  · exact hbackground i (by rw [← hlen]; exact hi)
  · show (src.write 0 s.sizeDest.pixels s.bufs.dest.px).px i = _
    rw [Buffer.write_px, if_pos (by omega)]
    rfl
  · show (src.write 0 s.sizeDest.pixels s.bufs.dest.px).inRange = true
    rw [Buffer.write_inRange (Or.inr (by omega)), hrange]
  · show (fill _ _ _).inRange = true
    rw [hrange', Buffer.touch_inRange (Or.inr (by omega)), h.inRange.2]

/-- One stage: what the processor finds, and what is left for the next. -/
theorem stage_ready {p : Processor} {bufs : Buffers} {s : Stage} {pixel : ℕ → RGBX}
    (hwithin : (p.calcDestSize s.sizeDest).Within max) (h : Start max crBkgnd pixel s.sizeDest bufs) :
    Ready crBkgnd (stage crMask p bufs s).1 ∧ (∀ i < s.sizeDest.pixels, bufs.src.px i = pixel i) ∧
      Between max crBkgnd (stage crMask p bufs s).2 := by
  have hroom : (p.calcDestSize s.sizeDest).pixels ≤ bufs.dest.len := by
    rw [h.dest]
    exact hwithin.pixels_le
  refine ⟨⟨h.src, hroom, h.background, h.inRange⟩, h.handed, hwithin, h.src, h.dest, fun i hi hout => ?_, h.inRange⟩
  -- outside its own size the processor has changed nothing
  have hkept := p.inside bufs s.sizeDest crMask h.src hroom i hout
  show ((p.processPixels bufs s.sizeDest (p.calcDestSize s.sizeDest) crMask).2.dest.px i).same _ = true
  rw [hkept]
  exact h.background i hi

theorem laterStages_ready (hmax : 0 < max.cx ∧ 0 < max.cy) (hfits : 4 * max.pixels < 2 ^ 32) (ps : List Processor)
    {s : Stage} (hwithin : StagesWithin max ps s.sizeDest) (h : Between max crBkgnd s) :
    (∀ call ∈ (laterStages crBkgnd crMask ps s).1, Ready crBkgnd call) ∧
      Handed s.bufs.dest.px (laterStages crBkgnd crMask ps s).1 := by
  induction ps generalizing s with
  | nil => exact ⟨fun call hcall => absurd hcall List.not_mem_nil, trivial⟩
  | cons p ps ih =>
    unfold laterStages
    by_cases hgo : s.bRes = true
    · simp only [if_pos hgo]
      obtain ⟨hready, hhanded, hbetween⟩ := stage_ready crMask hwithin.1 (copyBack_start hmax hfits h)
      obtain ⟨hrest, hchain⟩ := ih hwithin.2 hbetween
      refine ⟨fun call hcall => ?_, hhanded, hchain⟩
      rcases List.mem_cons.1 hcall with rfl | hlater
      · exact hready
      · exact hrest call hlater
    · simp only [if_neg hgo]
      exact ⟨fun call hcall => absurd hcall List.not_mem_nil, trivial⟩

end Stages

/-- Every call finds buffers that are large enough, a destination with nothing but background, and in the source
the pixels of the call before it, as long as the bytes of the largest size fit into 32 bits. -/
theorem calls_ready (bm : Bitmap) (crBkgnd crMask : COLORREF) (aProcessors : List Processor)
    (hfits : 4 * (sizeMaxOf aProcessors bm.size).pixels < 2 ^ 32) :
    (∀ call ∈ (processStages bm crBkgnd crMask aProcessors).1, Ready crBkgnd call) ∧
      Handed bm.pixel (processStages bm crBkgnd crMask aProcessors).1 := by
  cases aProcessors with
  | nil => exact ⟨fun call hcall => absurd hcall List.not_mem_nil, trivial⟩
  | cons p ps =>
    obtain ⟨hsize, hwithin⟩ := calcSizes_within (p :: ps) (bm.size, bm.size)
    change bm.size.Within (sizeMaxOf (p :: ps) bm.size) at hsize
    change StagesWithin (sizeMaxOf (p :: ps) bm.size) (p :: ps) bm.size at hwithin
    unfold processStages
    dsimp only
    generalize sizeMaxOf (p :: ps) bm.size = sizeMax at hfits hsize hwithin ⊢
    have hpos := bm.pos
    obtain ⟨hcx, hcy⟩ := hsize
    have hmax : 0 < sizeMax.cx ∧ 0 < sizeMax.cy := ⟨by omega, by omega⟩
    have hline : sizeMax.cx ≤ sizeMax.pixels := Nat.le_mul_of_pos_right sizeMax.cx hmax.2
    have hpixels := Size.Within.pixels_le ⟨hcx, hcy⟩
    have hnew : (newPixels sizeMax.pixels).len = sizeMax.pixels := amount_of_lt hfits
    have hsource : amount bm.size.pixels = bm.size.pixels := amount_of_lt (by omega)
    obtain ⟨hlen, hrange, hbackground⟩ := fill_background (newPixels sizeMax.pixels) sizeMax crBkgnd (by omega) hfits
      (by rw [hnew]; exact filledCount_le hmax ⟨Nat.le_refl _, Nat.le_refl _⟩ crBkgnd)
      (fun i hi hout => by omega)
    have hstart : Start sizeMax crBkgnd bm.pixel bm.size ⟨bm.getDIBits32, fill (newPixels sizeMax.pixels) sizeMax crBkgnd⟩ := by
      refine ⟨?_, hlen.trans hnew, fun i hi => hbackground i (by rw [← hlen]; exact hi), fun _ _ => rfl, rfl, hrange⟩
      show bm.size.pixels ≤ amount bm.size.pixels
      omega
    obtain ⟨hready, hhanded, hbetween⟩ := stage_ready (p := p) (s := ⟨_, bm.size, bm.size, true⟩) crMask
      hwithin.1 hstart
    obtain ⟨hrest, hchain⟩ := laterStages_ready crMask hmax hfits ps hwithin.2 hbetween
    refine ⟨fun call hcall => ?_, hhanded, hchain⟩
    rcases List.mem_cons.1 hcall with rfl | hlater
    · exact hready
    · exact hrest call hlater

/-! ## Processors of the library -/

/-- `CImageSysColorMapper`, with the default `CalcDestSize`. -/
def sysColorMapperOf (GetSysColor : SysColor → COLORREF) : Processor where
  calcDestSize := fun size => size
  processPixels := fun b sizeSrc sizeDest _ => (true, sysColorMapper GetSysColor sizeSrc sizeDest b)
  inside := fun b size _ hsrc hdest i hi => (sysColorMapper_dest GetSysColor size b hsrc hdest).2 i hi

/-- `CImageShearer::CalcDestSize`. -/
def shearerDestSize (m_nHorz m_nVert : ℤ) (size : Size) : Size := ⟨size.cx + m_nHorz.natAbs, size.cy + m_nVert.natAbs⟩

/-- A processor with the sizes of `CImageShearer` that leaves the pixels as they are. -/
def shearerSized (m_nHorz m_nVert : ℤ) : Processor where
  calcDestSize := shearerDestSize m_nHorz m_nVert
  processPixels := fun b _ _ _ => (true, b)
  inside := fun _ _ _ _ _ _ _ => rfl

def sampleBitmap : Bitmap := ⟨⟨1, 1⟩, fun _ => RGBX.zero, by decide⟩

theorem calls_ready_sample :
    (∀ call ∈ (processStages sampleBitmap 0xffffff 0xffffffff [shearerSized 2 1, sysColorMapperOf fun _ => 0]).1,
      Ready 0xffffff call) ∧
      Handed sampleBitmap.pixel
        (processStages sampleBitmap 0xffffff 0xffffffff [shearerSized 2 1, sysColorMapperOf fun _ => 0]).1 :=
  calls_ready sampleBitmap 0xffffff 0xffffffff [shearerSized 2 1, sysColorMapperOf fun _ => 0] (by decide)

/-- The product of 65536 and 65536 is 0 in 32 bits: no pixel is allocated for the destination. -/
theorem destination_too_small :
    ¬ ∀ (bm : Bitmap) (crBkgnd crMask : COLORREF) (aProcessors : List Processor),
      ∀ call ∈ (processStages bm crBkgnd crMask aProcessors).1, Ready crBkgnd call := by
  intro h
  have hcall := h sampleBitmap 0xffffff 0xffffffff [shearerSized 65535 65535] _ List.mem_cons_self
  have hlen := hcall.dest
  revert hlen
  decide

end StarLib.ImageProcessors
