import StarLib.Foundations.Pictures
import StarLib.ImageProcessors.EnBitmap
import StarLib.ImageProcessors.Flip

/-! # What the processors do to a picture

A processor that gives every pixel a colour of its own changes a picture cell by cell, and the flipper turns it around.
The fourth byte of a pixel is not part of its colour.
-/

namespace StarLib.ImageProcessors
open Foundations
set_option autoImplicit false
set_option maxHeartbeats 250000
set_option maxRecDepth 120000

/-! ## Pixel by pixel -/

/-- The loop of the processors that look at one pixel at a time: what is stored depends on the pixel of the source and on
the one that the destination has there, `cxDest` is the width that places are counted with in the destination. -/
def pointLoop (f : RGBX → RGBX → RGBX) (sizeSrc : Size) (cxDest : ℕ) (b : Buffers) : Buffers :=
  raster sizeSrc.cx sizeSrc.cy (fun nX nY b =>
    let nSrc := nY * sizeSrc.cx + nX
    let nDest := nY * cxDest + nX
    ⟨b.src.touch nSrc 1, b.dest.store nDest (f (b.src.px nSrc) (b.dest.px nDest))⟩) b

/-- `RGBX::operator COLORREF`. -/
def RGBX.toColor (rgb : RGBX) : COLORREF :=
  rgb.btRed.setWidth 32 ||| (rgb.btGreen.setWidth 32 <<< 8) ||| (rgb.btBlue.setWidth 32 <<< 16)

/-- `RGBX::Luminance`. -/
def RGBX.Luminance (rgb : RGBX) : ℕ := (rgb.btBlue.toNat + rgb.btGreen.toNat * 6 + rgb.btRed.toNat * 3) / 10

/-- `RGBX::MakeGray(const RGBX& rgbSrc)`. -/
def RGBX.MakeGray (rgb rgbSrc : RGBX) : RGBX :=
  let gray := BitVec.ofNat 8 rgbSrc.Luminance
  { rgb with btRed := gray, btGreen := gray, btBlue := gray }

/-- `CImageNegator::ProcessPixels`. -/
def negator (sizeSrc : Size) (b : Buffers) : Buffers :=
  pointLoop (fun rgbSrc rgbDest => { rgbDest with
    btRed := 255 - rgbSrc.btRed
    btGreen := 255 - rgbSrc.btGreen
    btBlue := 255 - rgbSrc.btBlue }) sizeSrc sizeSrc.cx b

/-- `CImageGrayer::ProcessPixels` with the default factors. -/
def grayer (sizeSrc : Size) (crMask : COLORREF) (b : Buffers) : Buffers :=
  pointLoop (fun rgbSrc rgbDest =>
    if crMask = 0xFFFFFFFF ∨ ¬ crMask = rgbSrc.toColor then rgbDest.MakeGray rgbSrc else rgbSrc.assigned)
    sizeSrc sizeSrc.cx b

/-- `MulDiv` of numbers that are not negative: the quotient rounded to the nearest. -/
def MulDiv (nNumber nNumerator nDenominator : ℕ) : ℕ := (nNumber * nNumerator + nDenominator / 2) / nDenominator

/-- What `CImageColorizer` stores: a shade of its colour. -/
def shade (rgb : RGBX) (nColorLum : ℕ) (rgbSrc rgbDest : RGBX) : RGBX :=
  let gray := rgbDest.MakeGray rgbSrc
  let nPixelLum := gray.Luminance
  { gray with
    btRed := BitVec.ofNat 8 (min 255 (MulDiv rgb.btRed.toNat nPixelLum nColorLum))
    btGreen := BitVec.ofNat 8 (min 255 (MulDiv rgb.btGreen.toNat nPixelLum nColorLum))
    btBlue := BitVec.ofNat 8 (min 255 (MulDiv rgb.btBlue.toNat nPixelLum nColorLum)) }

/-- `FillMemory(pDestPixels, 4 * n, 0)`. -/
def Buffers.fillZero (b : Buffers) (n : ℕ) : Buffers := ⟨b.src, b.dest.write 0 (amount n) fun _ => RGBX.zero⟩

/-- `CImageColorizer::ProcessPixels`. -/
def colorizer (m_color : COLORREF) (sizeSrc sizeDest : Size) (b : Buffers) : Buffers :=
  if m_color = 0 then b.fillZero sizeDest.pixels
  else if m_color = 0xFFFFFF then grayer sizeSrc 0xFFFFFFFF b
  else
    let rgb := RGBX.ofColor m_color
    let nColorLum := rgb.Luminance
    if nColorLum = 0 then b.fillZero sizeDest.pixels else pointLoop (shade rgb nColorLum) sizeSrc sizeDest.cx b

/-- Every one of the first `n` pixels has the colour that `f` gives its own. -/
structure Coloured (f : RGBX → RGBX) (n : ℕ) (b b' : Buffers) : Prop where
  pixels : ∀ i < n, (b'.dest.px i).assigned = f (b.src.px i).assigned
  rest : ∀ i, n ≤ i → b'.dest.px i = b.dest.px i

theorem pointLoop_coloured {f : RGBX → RGBX → RGBX} {g : RGBX → RGBX} (hf : ∀ s d, (f s d).assigned = g s.assigned)
    (size : Size) (b : Buffers) : Coloured g size.pixels b (pointLoop f size size.cx b) := by
  have hrun := raster_writes size.cy (fun nX nY (c : Buffers) => (⟨c.src.touch (nY * size.cx + nX) 1,
      c.dest.store (nY * size.cx + nX) (f (c.src.px (nY * size.cx + nX)) (c.dest.px (nY * size.cx + nX)))⟩ : Buffers)) b
    (fun (c : Buffers) i => (c.dest.px i).assigned) (fun c => c.src.px = b.src.px)
    (fun x y => g (b.src.px (y * size.cx + x)).assigned) (Nat.le_refl size.cx) rfl <| by
      intro x y c hx hy hc
      refine ⟨hc, ?_⟩
      funext i
      by_cases hi : i = y * size.cx + x
      · rw [hi, Function.update_self, Buffer.store_px, Function.update_self, hf, hc]
      · rw [Function.update_of_ne hi, Buffer.store_px, Function.update_of_ne hi]
  have hrest : ∀ i, size.pixels ≤ i → (pointLoop f size size.cx b).dest.px i = b.dest.px i := by
    refine raster_inv (P := fun _ _ (c : Buffers) => ∀ i, size.pixels ≤ i → c.dest.px i = b.dest.px i)
      (fun _ _ => rfl) ?_ ?_
    · intro x y c hx hy hc i hi
      have hin := index_lt hx hy
      exact (Function.update_of_ne (by omega) _ _).trans (hc i hi)
    · exact fun _ _ _ hc => hc
  refine ⟨fun i hi => ?_, hrest⟩
  obtain ⟨hx, hy, hi'⟩ := index_split hi
  have hcell := hrun.2.1 _ hx _ hy
  rw [hi'] at hcell
  exact hcell

/-! ## The colours -/

def negated (rgb : RGBX) : RGBX := ⟨255 - rgb.btBlue, 255 - rgb.btGreen, 255 - rgb.btRed, 0⟩

def grayed (crMask : COLORREF) (rgb : RGBX) : RGBX :=
  if crMask = 0xFFFFFFFF ∨ ¬ crMask = rgb.toColor then RGBX.zero.MakeGray rgb else rgb.assigned

def colorized (m_color : COLORREF) (rgb : RGBX) : RGBX :=
  if m_color = 0 then RGBX.zero
  else if m_color = 0xFFFFFF then grayed 0xFFFFFFFF rgb
  else
    let nColorLum := (RGBX.ofColor m_color).Luminance
    if nColorLum = 0 then RGBX.zero else shade (RGBX.ofColor m_color) nColorLum rgb RGBX.zero

theorem negator_coloured (size : Size) (b : Buffers) : Coloured negated size.pixels b (negator size b) :=
  pointLoop_coloured (g := negated) (fun _ _ => rfl) size b

theorem grayer_coloured (crMask : COLORREF) (size : Size) (b : Buffers) :
    Coloured (grayed crMask) size.pixels b (grayer size crMask b) := by
  refine pointLoop_coloured (fun s d => ?_) size b
  have hcolor : s.assigned.toColor = s.toColor := rfl
  unfold grayed
  rw [hcolor]
  split <;> rfl

theorem fillZero_coloured {size : Size} {b : Buffers} (hdest : size.pixels ≤ b.dest.len) :
    Coloured (fun _ => RGBX.zero) size.pixels b (b.fillZero size.pixels) := by
  have hamount := amount_of_lt (four_mul_lt hdest)
  unfold Buffers.fillZero
  rw [hamount]
  refine ⟨fun i hi => ?_, fun i hi => ?_⟩
  · rw [Buffer.write_px, if_pos (by omega)]
    rfl
  · rw [Buffer.write_px, if_neg (by omega)]

theorem colorizer_coloured (m_color : COLORREF) {size : Size} {b : Buffers} (hdest : size.pixels ≤ b.dest.len) :
    Coloured (colorized m_color) size.pixels b (colorizer m_color size size b) := by
  unfold colorizer colorized
  by_cases hblack : m_color = 0
  · simp only [if_pos hblack]
    exact fillZero_coloured hdest
  · by_cases hwhite : m_color = 0xFFFFFF
    · simp only [if_neg hblack, if_pos hwhite]
      exact grayer_coloured 0xFFFFFFFF size b
    · by_cases hdark : (RGBX.ofColor m_color).Luminance = 0
      · simp only [if_neg hblack, if_neg hwhite, if_pos hdark]
        exact fillZero_coloured hdest
      · simp only [if_neg hblack, if_neg hwhite, if_neg hdark]
        exact pointLoop_coloured
          (g := fun rgb => shade (RGBX.ofColor m_color) (RGBX.ofColor m_color).Luminance rgb RGBX.zero)
          (fun _ _ => rfl) size b

/-! ## Pictures -/

/-- The colours of so many pixels. -/
def picture (size : Size) (px : ℕ → RGBX) : Picture RGBX := ⟨size.cx, size.cy, fun x y => (px (y * size.cx + x)).assigned⟩

def Bitmap.picture (bm : Bitmap) : Picture RGBX := StarLib.ImageProcessors.picture bm.size bm.pixel

theorem picture_congr {size : Size} {px px' : ℕ → RGBX} (h : ∀ i < size.pixels, px i = px' i) :
    (picture size px).Agrees (picture size px') :=
  ⟨rfl, rfl, fun _ hx _ hy => congrArg RGBX.assigned (h _ (index_lt hx hy))⟩

/-- The processor succeeds, and what it makes of the picture in the source is `f` of it. -/
structure Does (crMask : COLORREF) (p : Processor) (f : Picture RGBX → Picture RGBX) : Prop where
  respects : Picture.Respects f
  does : ∀ (b : Buffers) (size : Size), size.pixels ≤ b.src.len → (p.calcDestSize size).pixels ≤ b.dest.len →
    (p.processPixels b size (p.calcDestSize size) crMask).1 = true ∧
      (picture (p.calcDestSize size) (p.processPixels b size (p.calcDestSize size) crMask).2.dest.px).Agrees
        (f (picture size b.src.px))

variable {crMask : COLORREF}

/-- A processor of the size of the source that gives each pixel a colour. -/
def pointProcessor (run : Size → COLORREF → Buffers → Buffers) (f : COLORREF → RGBX → RGBX)
    (hrun : ∀ size crMask b, size.pixels ≤ b.src.len → size.pixels ≤ b.dest.len →
      Coloured (f crMask) size.pixels b (run size crMask b)) : Processor where
  calcDestSize := fun size => size
  processPixels := fun b sizeSrc _ crMask => (true, run sizeSrc crMask b)
  inside := fun b size crMask hsrc hdest => (hrun size crMask b hsrc hdest).rest

theorem pointProcessor_does {run : Size → COLORREF → Buffers → Buffers} {f : COLORREF → RGBX → RGBX}
    (hrun : ∀ size crMask b, size.pixels ≤ b.src.len → size.pixels ≤ b.dest.len →
      Coloured (f crMask) size.pixels b (run size crMask b)) :
    Does crMask (pointProcessor run f hrun) (Picture.map (f crMask)) :=
  ⟨Picture.respects_map _, fun b size hsrc hdest =>
    ⟨rfl, rfl, rfl, fun _ hx _ hy => (hrun size crMask b hsrc hdest).pixels _ (index_lt hx hy)⟩⟩

def CImageNegator : Processor :=
  pointProcessor (fun size _ b => negator size b) (fun _ => negated) fun size _ b _ _ => negator_coloured size b

def CImageGrayer : Processor :=
  pointProcessor (fun size crMask b => grayer size crMask b) grayed fun size crMask b _ _ => grayer_coloured crMask size b

def CImageColorizer (m_color : COLORREF) : Processor :=
  pointProcessor (fun size _ b => colorizer m_color size size b) (fun _ => colorized m_color)
    fun _ _ _ _ hdest => colorizer_coloured m_color hdest

theorem replacer_coloured (crFrom crTo : COLORREF) {size : Size} {b : Buffers} (hsrc : size.pixels ≤ b.src.len)
    (hdest : size.pixels ≤ b.dest.len) :
    Coloured (fun rgb => (replaced crFrom crTo rgb).assigned) size.pixels b (colorReplacer crFrom crTo size size b) := by
  have hmapped := colorReplacer_mapped crFrom crTo size b hsrc hdest
  refine ⟨fun i hi => ?_, hmapped.rest⟩
  rw [hmapped.pixels i hi]
  unfold replaced replacement
  split
  · rfl
  · rfl

def CColorReplacer (crFrom crTo : COLORREF) : Processor :=
  pointProcessor (fun size _ b => colorReplacer crFrom crTo size size b)
    (fun _ rgb => (replaced crFrom crTo rgb).assigned) fun _ _ _ hsrc hdest => replacer_coloured crFrom crTo hsrc hdest

/-- The three replacements that reach the destination. -/
def remapped (GetSysColor : SysColor → COLORREF) (rgb : RGBX) : RGBX :=
  (replaced 0xC0C0C0 (GetSysColor .BTNFACE) (replaced 0x808080 (GetSysColor .BTNSHADOW)
    (replaced 0x000000 (GetSysColor .BTNTEXT) rgb))).assigned

theorem replaced_congr (crFrom crTo : COLORREF) {a b : RGBX} (h : a.assigned = b.assigned) :
    (replaced crFrom crTo a).assigned = (replaced crFrom crTo b).assigned := by
  rw [replaced_assigned, replaced_assigned, h]

theorem remapped_assigned (GetSysColor : SysColor → COLORREF) (rgb : RGBX) :
    remapped GetSysColor rgb.assigned = remapped GetSysColor rgb :=
  replaced_congr _ _ (replaced_congr _ _ (replaced_congr _ _ rgb.assigned_assigned))

theorem sysColorMapper_does (GetSysColor : SysColor → COLORREF) :
    Does crMask (sysColorMapperOf GetSysColor) (Picture.map (remapped GetSysColor)) := by
  refine ⟨Picture.respects_map _, fun b size hsrc hdest => ⟨rfl, rfl, rfl, fun x hx y hy => ?_⟩⟩
  have hpixel := (sysColorMapper_dest GetSysColor size b hsrc hdest).1 _ (index_lt hx hy)
  exact (congrArg RGBX.assigned hpixel).trans (remapped_assigned GetSysColor _).symm

def CImageFlipper (bHorz bVert : Bool) : Processor where
  calcDestSize := fun size => size
  processPixels := fun b sizeSrc sizeDest _ => (true, flipper bHorz bVert sizeSrc sizeDest b)
  inside := fun b size _ hsrc hdest => (flipper_flipped bHorz bVert size b hsrc hdest).rest

theorem flipper_does (bHorz bVert : Bool) : Does crMask (CImageFlipper bHorz bVert) (Picture.flip bHorz bVert) := by
  refine ⟨Picture.respects_flip bHorz bVert, fun b size hsrc hdest => ⟨rfl, rfl, rfl, fun x hx y hy => ?_⟩⟩
  have hx' : x < size.cx := hx
  have hpixel := (flipper_flipped bHorz bVert size b hsrc hdest).pixels _ (index_lt hx' hy)
  rw [opposite_cell bHorz bVert hx'] at hpixel
  have hcolour := congrArg RGBX.assigned hpixel
  rw [RGBX.assigned_assigned] at hcolour
  exact hcolour

end StarLib.ImageProcessors
