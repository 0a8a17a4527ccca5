import StarLib.Foundations.Raster
import StarLib.ImageProcessors.Pixels

/-! # The colour processors

`CColorReplacer` puts one colour for another; `CImageSysColorMapper` runs four of them, and between one and
the next it exchanges the source and the destination.
-/

namespace StarLib.ImageProcessors
open Foundations
set_option autoImplicit false
set_option maxHeartbeats 250000
set_option maxRecDepth 120000

/-- `C32BitImageProcessor::ProcessPixels`. -/
def baseProcessPixels (sizeDest : Size) (b : Buffers) : Buffers := b.copyMemory sizeDest.pixels

/-- What the loop of `CColorReplacer` stores for a pixel. -/
def replacement (crFrom crTo : COLORREF) (rgb : RGBX) : RGBX :=
  if rgb.same (RGBX.ofColor crFrom) then (RGBX.ofColor crTo).assigned else rgb.assigned

/-- `CColorReplacer::ProcessPixels`. -/
def colorReplacer (crFrom crTo : COLORREF) (sizeSrc sizeDest : Size) (b : Buffers) : Buffers :=
  if crFrom = crTo then baseProcessPixels sizeDest b
  else raster sizeSrc.cx sizeSrc.cy (fun nX nY b =>
    ⟨b.src.touch (nY * sizeSrc.cx + nX) 1,
      b.dest.store (nY * sizeDest.cx + nX) (replacement crFrom crTo (b.src.px (nY * sizeSrc.cx + nX)))⟩) b

/-- The system colours that are asked for. -/
inductive SysColor where
  | BTNTEXT
  | BTNSHADOW
  | BTNFACE
  | BTNHIGHLIGHT
  deriving DecidableEq

def COLORMAPPINGS : List (COLORREF × SysColor) :=
  [(0x000000, .BTNTEXT), (0x808080, .BTNSHADOW), (0xC0C0C0, .BTNFACE), (0xFFFFFF, .BTNHIGHLIGHT)]

def Buffers.swap (b : Buffers) : Buffers := ⟨b.dest, b.src⟩

/-- A turn of `CImageSysColorMapper`. The flag tells that `pSrcPixels` and `pDestPixels` are exchanged. -/
def mapTurn (GetSysColor : SysColor → COLORREF) (sizeSrc sizeDest : Size) (nMap : ℕ) (s : Buffers × Bool) : Buffers × Bool :=
  let mapping := COLORMAPPINGS.getD nMap (0, .BTNTEXT)
  let replace := colorReplacer mapping.1 (GetSysColor mapping.2) sizeSrc sizeDest
  let b := if s.2 then (replace s.1.swap).swap else replace s.1
  (b, if nMap < COLORMAPPINGS.length - 1 then !s.2 else s.2)

/-- `CImageSysColorMapper::ProcessPixels`. -/
def sysColorMapper (GetSysColor : SysColor → COLORREF) (sizeSrc sizeDest : Size) (b : Buffers) : Buffers :=
  (forRange 0 COLORMAPPINGS.length (mapTurn GetSysColor sizeSrc sizeDest) (b, false)).1

/-! ## One replacer -/

/-- What a replacer makes of a pixel. -/
def replaced (crFrom crTo : COLORREF) (rgb : RGBX) : RGBX :=
  if crFrom = crTo then rgb else replacement crFrom crTo rgb

/-- The first `n` pixels of the destination are `f` of the source; nothing else changed and no access was
outside. -/
structure Mapped (f : RGBX → RGBX) (n : ℕ) (b b' : Buffers) : Prop where
  pixels : ∀ i < n, b'.dest.px i = f (b.src.px i)
  rest : ∀ i, n ≤ i → b'.dest.px i = b.dest.px i
  source : b'.src.px = b.src.px
  lens : b'.src.len = b.src.len ∧ b'.dest.len = b.dest.len
  inRange : b'.src.inRange = b.src.inRange ∧ b'.dest.inRange = b.dest.inRange

theorem four_mul_lt {b : Buffer} {n : ℕ} (h : n ≤ b.len) : 4 * n < 2 ^ 32 := by
  have := b.fits
  omega

theorem index_split {size : Size} {i : ℕ} (hi : i < size.pixels) :
    i % size.cx < size.cx ∧ i / size.cx < size.cy ∧ i / size.cx * size.cx + i % size.cx = i := by
  have hpos : 0 < size.cx := width_pos hi
  refine ⟨Nat.mod_lt i hpos, Nat.div_lt_of_lt_mul hi, ?_⟩
  rw [Nat.mul_comm]
  exact Nat.div_add_mod i size.cx

theorem index_lt {size : Size} {x y : ℕ} (hx : x < size.cx) (hy : y < size.cy) : y * size.cx + x < size.pixels :=
  cell_lt hx hy

theorem colorReplacer_mapped (crFrom crTo : COLORREF) (size : Size) (b : Buffers) (hsrc : size.pixels ≤ b.src.len)
    (hdest : size.pixels ≤ b.dest.len) :
    Mapped (replaced crFrom crTo) size.pixels b (colorReplacer crFrom crTo size size b) := by
  unfold colorReplacer replaced
  by_cases hsame : crFrom = crTo
  · simp only [if_pos hsame]
    have hamount := amount_of_lt (four_mul_lt hdest)
    unfold baseProcessPixels Buffers.copyMemory
    rw [hamount]
    refine ⟨fun i hi => ?_, fun i hi => ?_, rfl, ⟨rfl, rfl⟩, ?_, ?_⟩
    · rw [Buffer.write_px, if_pos (by omega)]
      rfl
    · rw [Buffer.write_px, if_neg (by omega)]
    · exact Buffer.touch_inRange (Or.inr (by omega))
    · exact Buffer.write_inRange (Or.inr (by omega)) _
  · simp only [if_neg hsame]
    have hrun := raster_writes size.cy (fun nX nY b => ⟨b.src.touch (nY * size.cx + nX) 1,
        b.dest.store (nY * size.cx + nX) (replacement crFrom crTo (b.src.px (nY * size.cx + nX)))⟩) b
      (fun c : Buffers => c.dest.px)
      (fun c => c.src.px = b.src.px ∧ (c.src.len = b.src.len ∧ c.dest.len = b.dest.len) ∧
        c.src.inRange = b.src.inRange ∧ c.dest.inRange = b.dest.inRange)
      (fun x y => replacement crFrom crTo (b.src.px (y * size.cx + x))) (Nat.le_refl size.cx) ⟨rfl, ⟨rfl, rfl⟩, rfl, rfl⟩ <| by
        intro x y c hx hy hc
        obtain ⟨hpx, hlens, hranges⟩ := hc
        have hin := index_lt hx hy
        refine ⟨⟨hpx, hlens, ?_, ?_⟩, ?_⟩
        · exact (Buffer.touch_inRange (Or.inr (by omega))).trans hranges.1
        · exact (Buffer.store_inRange (by omega) _).trans hranges.2
        · rw [Buffer.store_px, hpx]
    obtain ⟨hkeep, hdone, hrest⟩ := hrun
    refine ⟨fun i hi => ?_, fun i hi => ?_, hkeep.1, hkeep.2.1, hkeep.2.2⟩
    · obtain ⟨hx, hy, hi'⟩ := index_split hi
      have h := hdone _ hx _ hy
      rw [hi'] at h
      exact h
    · refine hrest i fun x hx y hy hcell => ?_
      have := index_lt hx hy
      omega

/-! ## Four replacers -/

/-- The destination after the four turns has passed through the first three replacers only: the last one
writes to the source. -/
theorem sysColorMapper_dest (GetSysColor : SysColor → COLORREF) (size : Size) (b : Buffers)
    (hsrc : size.pixels ≤ b.src.len) (hdest : size.pixels ≤ b.dest.len) :
    (∀ i < size.pixels, (sysColorMapper GetSysColor size size b).dest.px i =
      replaced 0xC0C0C0 (GetSysColor .BTNFACE) (replaced 0x808080 (GetSysColor .BTNSHADOW)
        (replaced 0x000000 (GetSysColor .BTNTEXT) (b.src.px i)))) ∧
      ∀ i, size.pixels ≤ i → (sysColorMapper GetSysColor size size b).dest.px i = b.dest.px i := by
  have h0 := colorReplacer_mapped 0x000000 (GetSysColor .BTNTEXT) size b hsrc hdest
  generalize hb0 : colorReplacer 0x000000 (GetSysColor .BTNTEXT) size size b = b0 at h0
  have h1 := colorReplacer_mapped 0x808080 (GetSysColor .BTNSHADOW) size b0.swap
    (by rw [← h0.lens.2] at hdest; exact hdest) (by rw [← h0.lens.1] at hsrc; exact hsrc)
  generalize hb1 : colorReplacer 0x808080 (GetSysColor .BTNSHADOW) size size b0.swap = b1 at h1
  have hlen1 : b1.dest.len = b.src.len ∧ b1.src.len = b.dest.len :=
    ⟨h1.lens.2.trans h0.lens.1, h1.lens.1.trans h0.lens.2⟩
  have h2 := colorReplacer_mapped 0xC0C0C0 (GetSysColor .BTNFACE) size b1.swap
    (by rw [← hlen1.1] at hsrc; exact hsrc) (by rw [← hlen1.2] at hdest; exact hdest)
  generalize hb2 : colorReplacer 0xC0C0C0 (GetSysColor .BTNFACE) size size b1.swap = b2 at h2
  have hlen2 : b2.src.len = b.src.len ∧ b2.dest.len = b.dest.len :=
    ⟨h2.lens.1.trans hlen1.1, h2.lens.2.trans hlen1.2⟩
  have h3 := colorReplacer_mapped 0xFFFFFF (GetSysColor .BTNHIGHLIGHT) size b2.swap
    (by rw [← hlen2.2] at hdest; exact hdest) (by rw [← hlen2.1] at hsrc; exact hsrc)
  have hrun : (sysColorMapper GetSysColor size size b).dest.px = b2.dest.px := by
    refine Eq.trans ?_ h3.source
    rw [← hb2, ← hb1, ← hb0]
    rfl
  -- the second and the fourth turn read the destination
  have hkept : b1.src.px = b0.dest.px := h1.source
  rw [hrun]
  refine ⟨fun i hi => ?_, fun i hi => ?_⟩
  · rw [h2.pixels i hi]
    show replaced _ _ (b1.dest.px i) = _
    rw [h1.pixels i hi]
    show replaced _ _ (replaced _ _ (b0.dest.px i)) = _
    rw [h0.pixels i hi]
  · rw [h2.rest i hi]
    show b1.src.px i = _
    rw [hkept, h0.rest i hi]

/-- The four replacements at once. -/
def simultaneous (GetSysColor : SysColor → COLORREF) (rgb : RGBX) : RGBX :=
  match COLORMAPPINGS.find? (fun mapping => rgb.same (RGBX.ofColor mapping.1)) with
  | some mapping => RGBX.ofColor (GetSysColor mapping.2)
  | none => rgb

/-- What a pixel and the target colours must be like for three replacers in turn to be the four at once: a
white pixel stays white, and the target of a black or a dark gray pixel is no colour that a later replacer
takes away. -/
def Settled (GetSysColor : SysColor → COLORREF) (rgb : RGBX) : Prop :=
  let is := fun (rgb : RGBX) (color : COLORREF) => rgb.same (RGBX.ofColor color) = true
  let target := fun sysColor => RGBX.ofColor (GetSysColor sysColor)
  (is rgb 0xFFFFFF → is (target .BTNHIGHLIGHT) 0xFFFFFF) ∧
    (is rgb 0x808080 → is (target .BTNSHADOW) 0xC0C0C0 → is (target .BTNFACE) 0xC0C0C0) ∧
    (is rgb 0x000000 → is (target .BTNTEXT) 0x808080 → is (target .BTNSHADOW) 0x808080 ∨
      is (target .BTNSHADOW) 0xC0C0C0 ∧ is (target .BTNFACE) 0x808080) ∧
    (is rgb 0x000000 → is (target .BTNTEXT) 0xC0C0C0 → is (target .BTNFACE) 0xC0C0C0)

section Chain
variable {α : Type*} [DecidableEq α]

/-- Three replacements in turn against four at once, for four different colours. -/
theorem chain_eq_iff {c0 c1 c2 c3 : α} (h01 : c0 ≠ c1) (h02 : c0 ≠ c2) (h03 : c0 ≠ c3) (h12 : c1 ≠ c2) (h13 : c1 ≠ c3)
    (h23 : c2 ≠ c3) (t0 t1 t2 t3 x : α) :
    let step := fun c t y : α => if y = c then t else y
    step c2 t2 (step c1 t1 (step c0 t0 x)) =
        (if x = c0 then t0 else if x = c1 then t1 else if x = c2 then t2 else if x = c3 then t3 else x) ↔
      (x = c3 → t3 = c3) ∧ (x = c1 → t1 = c2 → t2 = c2) ∧ (x = c0 → t0 = c1 → t1 = c1 ∨ t1 = c2 ∧ t2 = c1) ∧
        (x = c0 → t0 = c2 → t2 = c2) := by
  dsimp only
  by_cases hx0 : x = c0
  · subst hx0
    grind
  · by_cases hx1 : x = c1
    · subst hx1
      grind
    · grind

end Chain

theorem replaced_assigned (crFrom crTo : COLORREF) (rgb : RGBX) :
    (replaced crFrom crTo rgb).assigned =
      if rgb.assigned = RGBX.ofColor crFrom then RGBX.ofColor crTo else rgb.assigned := by
  have hsame : (rgb.same (RGBX.ofColor crFrom) = true) = (rgb.assigned = RGBX.ofColor crFrom) := propext RGBX.same_iff
  unfold replaced replacement
  by_cases hcolors : crFrom = crTo
  · rw [if_pos hcolors, hcolors]
    split
    · next h => rw [h]
    · rfl
  · rw [if_neg hcolors]
    simp only [hsame]
    split <;> rfl

theorem same_eq_decide (rgb : RGBX) (color : COLORREF) :
    rgb.same (RGBX.ofColor color) = decide (rgb.assigned = RGBX.ofColor color) := by
  rw [Bool.eq_iff_iff, RGBX.same_iff, decide_eq_true_iff, RGBX.assigned_ofColor]

theorem simultaneous_assigned (GetSysColor : SysColor → COLORREF) (rgb : RGBX) :
    (simultaneous GetSysColor rgb).assigned =
      if rgb.assigned = RGBX.ofColor 0x000000 then RGBX.ofColor (GetSysColor .BTNTEXT)
      else if rgb.assigned = RGBX.ofColor 0x808080 then RGBX.ofColor (GetSysColor .BTNSHADOW)
      else if rgb.assigned = RGBX.ofColor 0xC0C0C0 then RGBX.ofColor (GetSysColor .BTNFACE)
      else if rgb.assigned = RGBX.ofColor 0xFFFFFF then RGBX.ofColor (GetSysColor .BTNHIGHLIGHT) else rgb.assigned := by
  unfold simultaneous COLORMAPPINGS
  simp only [List.find?_cons, List.find?_nil, same_eq_decide]
  by_cases h0 : rgb.assigned = RGBX.ofColor 0x000000
  · rw [if_pos h0, decide_eq_true h0]
    rfl
  · rw [if_neg h0, decide_eq_false h0]
    by_cases h1 : rgb.assigned = RGBX.ofColor 0x808080
    · rw [if_pos h1, decide_eq_true h1]
      rfl
    · rw [if_neg h1, decide_eq_false h1]
      by_cases h2 : rgb.assigned = RGBX.ofColor 0xC0C0C0
      · rw [if_pos h2, decide_eq_true h2]
        rfl
      · rw [if_neg h2, decide_eq_false h2]
        by_cases h3 : rgb.assigned = RGBX.ofColor 0xFFFFFF
        · rw [if_pos h3, decide_eq_true h3]
          rfl
        · rw [if_neg h3, decide_eq_false h3]

/-- For one pixel: three replacers in turn make the same of it as the four replacements at once exactly when it
is settled. -/
theorem replaced_same_iff (GetSysColor : SysColor → COLORREF) (rgb : RGBX) :
    (replaced 0xC0C0C0 (GetSysColor .BTNFACE) (replaced 0x808080 (GetSysColor .BTNSHADOW)
      (replaced 0x000000 (GetSysColor .BTNTEXT) rgb))).same (simultaneous GetSysColor rgb) = true ↔
    Settled GetSysColor rgb := by
  rw [RGBX.same_iff, replaced_assigned, replaced_assigned, replaced_assigned, simultaneous_assigned]
  unfold Settled
  simp only [RGBX.same_iff, RGBX.assigned_ofColor]
  exact chain_eq_iff (by decide) (by decide) (by decide) (by decide) (by decide) (by decide) _ _ _ _ _

/-- The destination holds the source with the four replacements made at once exactly when every pixel of the
source is settled. -/
theorem sysColorMapper_simultaneous_iff (GetSysColor : SysColor → COLORREF) (size : Size) (b : Buffers)
    (hsrc : size.pixels ≤ b.src.len) (hdest : size.pixels ≤ b.dest.len) :
    (∀ i < size.pixels,
      ((sysColorMapper GetSysColor size size b).dest.px i).same (simultaneous GetSysColor (b.src.px i)) = true) ↔
    ∀ i < size.pixels, Settled GetSysColor (b.src.px i) := by
  constructor
  · intro h i hi
    have hpixel := h i hi
    rw [(sysColorMapper_dest GetSysColor size b hsrc hdest).1 i hi] at hpixel
    exact (replaced_same_iff GetSysColor _).1 hpixel
  · intro h i hi
    rw [(sysColorMapper_dest GetSysColor size b hsrc hdest).1 i hi]
    exact (replaced_same_iff GetSysColor _).2 (h i hi)

/-- A buffer of one pixel. -/
def onePixel (rgb : RGBX) : Buffer := ⟨1, fun _ => rgb, true, by decide⟩

/-- A bright gray pixel, over a background. -/
theorem sysColorMapper_sample :
    ((∀ i < (Size.mk 1 1).pixels,
      ((sysColorMapper (fun _ => 0xE0E0E0) ⟨1, 1⟩ ⟨1, 1⟩ ⟨onePixel (RGBX.ofColor 0xC0C0C0), onePixel RGBX.zero⟩).dest.px
        i).same (simultaneous (fun _ => 0xE0E0E0) ((onePixel (RGBX.ofColor 0xC0C0C0)).px i)) = true) ↔
    ∀ i < (Size.mk 1 1).pixels, Settled (fun _ => 0xE0E0E0) ((onePixel (RGBX.ofColor 0xC0C0C0)).px i)) :=
  sysColorMapper_simultaneous_iff (fun _ => 0xE0E0E0) ⟨1, 1⟩
    ⟨onePixel (RGBX.ofColor 0xC0C0C0), onePixel RGBX.zero⟩ (by decide) (by decide)

/-- A white pixel is replaced in the source, not in the destination. -/
theorem white_not_mapped :
    ¬ ∀ (GetSysColor : SysColor → COLORREF) (size : Size) (b : Buffers), size.pixels ≤ b.src.len →
      size.pixels ≤ b.dest.len → ∀ i < size.pixels,
        ((sysColorMapper GetSysColor size size b).dest.px i).same (simultaneous GetSysColor (b.src.px i)) = true := by
  intro h
  have hpixel := h (fun _ => 0xE0E0E0) ⟨1, 1⟩ ⟨onePixel (RGBX.ofColor 0xFFFFFF), onePixel RGBX.zero⟩ (by decide)
    (by decide) 0 (by decide)
  revert hpixel
  decide

end StarLib.ImageProcessors
