import StarLib.ImageProcessors.Points
import StarLib.ImageProcessors.Update

/-! # Lists of processors

`ProcessImage` makes of the picture what its processors make of it one after the other. Processors that colour pixels and
the flipper come down to one turn and one change of every pixel.
-/

namespace StarLib.ImageProcessors
open Foundations
set_option autoImplicit false
set_option maxHeartbeats 250000
set_option maxRecDepth 120000

/-- A processor, and what it does to a picture. -/
abbrev Step := Processor × (Picture RGBX → Picture RGBX)

def result (steps : List Step) (p : Picture RGBX) : Picture RGBX := steps.foldl (fun p step => step.2 p) p

variable {max : Size} {crBkgnd crMask : COLORREF}

/-- One stage. -/
theorem stage_does {step : Step} {bufs : Buffers} {s : Stage} {pixel : ℕ → RGBX} {p : Picture RGBX}
    (hdoes : Does crMask step.1 step.2) (hwithin : (step.1.calcDestSize s.sizeDest).Within max)
    (hstart : Start max crBkgnd pixel s.sizeDest bufs) (hp : (picture s.sizeDest pixel).Agrees p) :
    (stage crMask step.1 bufs s).2.bRes = true ∧
      (picture (stage crMask step.1 bufs s).2.sizeDest (stage crMask step.1 bufs s).2.bufs.dest.px).Agrees
        (step.2 p) := by
  have hroom : (step.1.calcDestSize s.sizeDest).pixels ≤ bufs.dest.len := by
    rw [hstart.dest]
    exact hwithin.pixels_le
  obtain ⟨hres, hmade⟩ := hdoes.does bufs s.sizeDest hstart.src hroom
  exact ⟨hres, hmade.trans (hdoes.respects _ _ ((picture_congr hstart.handed).trans hp))⟩

theorem laterStages_does (hmax : 0 < max.cx ∧ 0 < max.cy) (hfits : 4 * max.pixels < 2 ^ 32) {steps : List Step}
    (hdoes : ∀ step ∈ steps, Does crMask step.1 step.2) {s : Stage} {p : Picture RGBX}
    (hwithin : StagesWithin max (steps.map Prod.fst) s.sizeDest) (hbetween : Between max crBkgnd s) (hres : s.bRes = true)
    (hp : (picture s.sizeDest s.bufs.dest.px).Agrees p) :
    (laterStages crBkgnd crMask (steps.map Prod.fst) s).2.bRes = true ∧
      (picture (laterStages crBkgnd crMask (steps.map Prod.fst) s).2.sizeDest
        (laterStages crBkgnd crMask (steps.map Prod.fst) s).2.bufs.dest.px).Agrees (result steps p) := by
  induction steps generalizing s p with
  | nil => exact ⟨hres, hp⟩
  | cons step steps ih =>
    rw [List.map_cons] at hwithin ⊢
    unfold laterStages
    simp only [if_pos hres]
    have hstart := copyBack_start hmax hfits hbetween
    have hready := stage_ready crMask hwithin.1 hstart
    obtain ⟨hdone, hmade⟩ := stage_does (hdoes step List.mem_cons_self) hwithin.1 hstart hp
    exact ih (fun step hstep => hdoes step (List.mem_cons_of_mem _ hstep)) hwithin.2 hready.2.2 hdone hmade

/-- The buffers of the first stage. -/
theorem first_start (bm : Bitmap) (crBkgnd : COLORREF) (hsize : bm.size.Within max) (hfits : 4 * max.pixels < 2 ^ 32) :
    Start max crBkgnd bm.pixel bm.size ⟨bm.getDIBits32, fill (newPixels max.pixels) max crBkgnd⟩ := by
  have hpos := bm.pos
  obtain ⟨hcx, hcy⟩ := hsize
  have hmax : 0 < max.cx ∧ 0 < max.cy := ⟨by omega, by omega⟩
  have hline : max.cx ≤ max.pixels := Nat.le_mul_of_pos_right max.cx hmax.2
  have hpixels := Size.Within.pixels_le ⟨hcx, hcy⟩
  have hnew : (newPixels max.pixels).len = max.pixels := amount_of_lt hfits
  have hsource : amount bm.size.pixels = bm.size.pixels := amount_of_lt (by omega)
  obtain ⟨hlen, hrange, hbackground⟩ := fill_background (newPixels max.pixels) max crBkgnd (by omega) hfits
    (by rw [hnew]; exact filledCount_le hmax ⟨Nat.le_refl _, Nat.le_refl _⟩ crBkgnd)
    (fun i hi hout => by omega)
  refine ⟨?_, hlen.trans hnew, fun i hi => hbackground i (by rw [← hlen]; exact hi), fun _ _ => rfl, rfl, hrange⟩
  exact Nat.le_of_eq hsource.symm

theorem processStages_does (bm : Bitmap) (crBkgnd : COLORREF) {step : Step} {steps : List Step}
    (hdoes : ∀ st ∈ step :: steps, Does crMask st.1 st.2)
    (hfits : 4 * (sizeMaxOf ((step :: steps).map Prod.fst) bm.size).pixels < 2 ^ 32) :
    ∃ st, (processStages bm crBkgnd crMask ((step :: steps).map Prod.fst)).2 = some st ∧ st.bRes = true ∧
      (picture st.sizeDest st.bufs.dest.px).Agrees (result (step :: steps) bm.picture) := by
  obtain ⟨hsize, hwithin⟩ := calcSizes_within ((step :: steps).map Prod.fst) (bm.size, bm.size)
  change bm.size.Within (sizeMaxOf ((step :: steps).map Prod.fst) bm.size) at hsize
  change StagesWithin (sizeMaxOf ((step :: steps).map Prod.fst) bm.size) ((step :: steps).map Prod.fst) bm.size at hwithin
  refine ⟨_, rfl, ?_⟩
  rw [List.map_cons] at hfits hsize hwithin
  generalize sizeMaxOf (step.1 :: steps.map Prod.fst) bm.size = sizeMax at hfits hsize hwithin ⊢
  have hmax : 0 < sizeMax.cx ∧ 0 < sizeMax.cy :=
    ⟨Nat.lt_of_lt_of_le bm.pos.1 hsize.1, Nat.lt_of_lt_of_le bm.pos.2 hsize.2⟩
  have hstart := first_start bm crBkgnd hsize hfits
  have hready := stage_ready (p := step.1) (s := ⟨⟨bm.getDIBits32, fill (newPixels sizeMax.pixels) sizeMax crBkgnd⟩,
    bm.size, bm.size, true⟩) crMask hwithin.1 hstart
  obtain ⟨hdone, hmade⟩ := stage_does (s := ⟨⟨bm.getDIBits32, fill (newPixels sizeMax.pixels) sizeMax crBkgnd⟩,
    bm.size, bm.size, true⟩) (hdoes step List.mem_cons_self) hwithin.1 hstart (Picture.Agrees.refl bm.picture)
  exact laterStages_does hmax hfits (fun st hst => hdoes st (List.mem_cons_of_mem _ hst)) hwithin.2 hready.2.2 hdone hmade

/-- Every call of the system succeeds. -/
def Answers.succeed : Answers := ⟨true, true, true, true, true, true, true⟩

/-- The object holds a bitmap that shows `p`. -/
def Gdi.Shows (s : Gdi) (p : Picture RGBX) : Prop :=
  ∃ h bm, s.m_hObject = some h ∧ s.bitmaps h = some bm ∧ bm.picture.Agrees p

theorem Gdi.Made.shows {s r : Gdi} {st : Stage} {p : Picture RGBX} (h : s.Made st r)
    (hp : (picture st.sizeDest st.bufs.dest.px).Agrees p) : r.Shows p := by
  obtain ⟨h, bm, hobj, -, halive, hsize, hpixels⟩ := h
  refine ⟨h, bm, hobj, halive, Picture.Agrees.trans (picture_congr hpixels) ?_⟩
  rw [hsize]
  exact hp

/-- Where the system's calls succeed, the largest size fits into 32 bits of bytes and something is left of the picture,
the object shows in the end what its processors make of the picture one after the other. -/
theorem processImage_shows {s : Gdi} {p : Picture RGBX} (hshows : s.Shows p) (crBkgnd : COLORREF) {steps : List Step}
    (hdoes : ∀ step ∈ steps, Does crMask step.1 step.2)
    (hfits : 4 * (sizeMaxOf (steps.map Prod.fst) ⟨p.cx, p.cy⟩).pixels < 2 ^ 32)
    (hpos : 0 < (result steps p).cx ∧ 0 < (result steps p).cy) :
    (processImage .succeed s crBkgnd crMask (steps.map Prod.fst)).1 = true ∧
      (processImage .succeed s crBkgnd crMask (steps.map Prod.fst)).2.Shows (result steps p) := by
  obtain ⟨h, bm, hobj, halive, hp⟩ := hshows
  cases steps with
  | nil =>
    have hnone : processImage .succeed s crBkgnd crMask [] = (true, s) := by
      unfold processImage
      rw [hobj]
      rfl
    rw [List.map_nil, hnone]
    exact ⟨rfl, h, bm, hobj, halive, hp⟩
  | cons step steps =>
    have hsize : bm.size = ⟨p.cx, p.cy⟩ := congrArg₂ Size.mk hp.cx hp.cy
    rw [← hsize] at hfits
    obtain ⟨st, hstages, hres, hmade⟩ := processStages_does bm crBkgnd hdoes hfits
    have hrespects : ∀ f ∈ (step :: steps).map Prod.snd, Picture.Respects f := by
      intro f hf
      obtain ⟨st, hst, rfl⟩ := List.mem_map.1 hf
      exact (hdoes st hst).respects
    have hresult := hmade.trans (by
      have hfold := Picture.respects_foldl hrespects hp
      rwa [List.foldl_map, List.foldl_map] at hfold)
    have hreach : ReachesUpdate .succeed s crBkgnd crMask ((step :: steps).map Prod.fst) st :=
      ⟨h, bm, hobj, halive, rfl, rfl, rfl, hstages, hres⟩
    have hupdate : Answers.succeed.Update st.sizeDest := by
      refine ⟨?_, rfl, rfl, rfl, rfl⟩
      have hcx : st.sizeDest.cx = _ := hresult.cx
      have hcy : st.sizeDest.cy = _ := hresult.cy
      rw [hcx, hcy]
      exact hpos
    rw [processImage_reached hreach]
    obtain ⟨hret, hnew⟩ := updateBitmap_made hobj halive hupdate
    exact ⟨hret, hnew.shows hresult⟩

theorem result_append (first second : List Step) (p : Picture RGBX) :
    result (first ++ second) p = result second (result first p) := List.foldl_append

/-- `ProcessImage` called with one list after another, as long as the calls return `TRUE`. -/
def processCalls (a : Answers) (crBkgnd crMask : COLORREF) : List (List Processor) → Gdi → Bool × Gdi
  | [], s => (true, s)
  | call :: calls, s =>
    if (processImage a s crBkgnd crMask call).1 then
      processCalls a crBkgnd crMask calls (processImage a s crBkgnd crMask call).2
    else
      (false, (processImage a s crBkgnd crMask call).2)

/-- Every call finds room for its largest size and leaves something of the picture. -/
inductive Room : List (List Step) → Picture RGBX → Prop
  | nil (p : Picture RGBX) : Room [] p
  | cons {steps : List Step} {calls : List (List Step)} {p : Picture RGBX}
      (fits : 4 * (sizeMaxOf (steps.map Prod.fst) ⟨p.cx, p.cy⟩).pixels < 2 ^ 32)
      (left : 0 < (result steps p).cx ∧ 0 < (result steps p).cy) (rest : Room calls (result steps p)) :
      Room (steps :: calls) p

/-- The processors of `CEnBitmapEx` that keep the size, as far as they do not compute with fractions. -/
inductive Edit
  | negate
  | gray
  | colorize (color : COLORREF)
  | replace (crFrom crTo : COLORREF)
  | remap (GetSysColor : SysColor → COLORREF)
  | flip (bHorz bVert : Bool)

def Edit.processor : Edit → Processor
  | .negate => CImageNegator
  | .gray => CImageGrayer
  | .colorize color => CImageColorizer color
  | .replace crFrom crTo => CColorReplacer crFrom crTo
  | .remap GetSysColor => sysColorMapperOf GetSysColor
  | .flip bHorz bVert => CImageFlipper bHorz bVert

def Edit.op (crMask : COLORREF) : Edit → Picture.Op RGBX
  | .negate => .map negated
  | .gray => .map (grayed crMask)
  | .colorize color => .map (colorized color)
  | .replace crFrom crTo => .map fun rgb => (replaced crFrom crTo rgb).assigned
  | .remap GetSysColor => .map (remapped GetSysColor)
  | .flip bHorz bVert => .flip bHorz bVert

theorem edit_does (e : Edit) : Does crMask e.processor (e.op crMask).apply := by
  cases e with
  | negate => exact pointProcessor_does (f := fun _ => negated) fun size _ b _ _ => negator_coloured size b
  | gray => exact pointProcessor_does (f := grayed) fun size crMask b _ _ => grayer_coloured crMask size b
  | colorize color =>
    exact pointProcessor_does (f := fun _ => colorized color) fun _ _ _ _ hdest => colorizer_coloured color hdest
  | replace crFrom crTo =>
    exact pointProcessor_does (f := fun _ rgb => (replaced crFrom crTo rgb).assigned)
      fun _ _ _ hsrc hdest => replacer_coloured crFrom crTo hsrc hdest
  | remap GetSysColor => exact sysColorMapper_does GetSysColor
  | flip bHorz bVert => exact flipper_does bHorz bVert

theorem edit_size (e : Edit) (size : Size) : e.processor.calcDestSize size = size := by
  cases e <;> rfl

theorem edits_sizeMax (edits : List Edit) (size : Size) : sizeMaxOf (edits.map Edit.processor) size = size := by
  have hrun : calcSizes (edits.map Edit.processor) (size, size) = (size, size) := by
    induction edits with
    | nil => rfl
    | cons e edits ih =>
      rw [List.map_cons, calcSizes, List.foldl_cons]
      simp only [edit_size, Nat.max_self]
      exact ih
  unfold sizeMaxOf
  rw [hrun]

theorem sampleGdi_shows : sampleGdi.Shows sampleBitmap.picture := ⟨0, sampleBitmap, rfl, rfl, Picture.Agrees.refl _⟩

def sampleCalls : List (List Step) :=
  [[(CImageNegator, Picture.map negated), (CImageFlipper true false, Picture.flip true false)],
    [(CImageGrayer, Picture.map (grayed 0xffffffff))]]

/-- Two negations in a row restore the colour. -/
theorem negated_negated (rgb : RGBX) : negated (negated rgb) = rgb.assigned := by
  have hbyte : ∀ b : Byte, 255 - (255 - b) = b := by
    intro b
    bv_omega
  unfold negated RGBX.assigned
  simp only [hbyte]

/-- A gray pixel keeps its colour. -/
theorem grayed_grayed (rgb : RGBX) : grayed 0xFFFFFFFF (grayed 0xFFFFFFFF rgb) = grayed 0xFFFFFFFF rgb := by
  have hbound : rgb.Luminance < 256 := by
    have hblue := rgb.btBlue.isLt
    have hgreen := rgb.btGreen.isLt
    have hred := rgb.btRed.isLt
    unfold RGBX.Luminance
    omega
  have hgray : (RGBX.zero.MakeGray rgb).Luminance = rgb.Luminance := by
    simp only [RGBX.MakeGray, RGBX.Luminance, BitVec.toNat_ofNat] at hbound ⊢
    omega
  unfold grayed
  rw [if_pos (Or.inl rfl), if_pos (Or.inl rfl), RGBX.MakeGray, hgray]
  rfl

end StarLib.ImageProcessors
