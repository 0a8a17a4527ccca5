import StarLib.ImageProcessors.Processors

/-! # `CImageFlipper`

Each pixel goes to the cell that is opposite to its own, in the directions that the flags name. The fourth byte is
zero after it, as after every assignment of a pixel.
-/

namespace StarLib.ImageProcessors
open Foundations
set_option autoImplicit false
set_option maxHeartbeats 250000
set_option maxRecDepth 120000

/-- A store at a computed index, which may be negative. -/
def Buffer.storeAt (b : Buffer) (i : ℤ) (v : RGBX) : Buffer :=
  if 0 ≤ i then b.store i.toNat v else { b with inRange := false }

/-- `nDestX`, and `nDestY`. -/
def flipped (bFlip : Bool) (size n : ℕ) : ℤ := if bFlip then size - n - 1 else n

/-- `CImageFlipper::ProcessPixels`. -/
def flipper (m_bHorz m_bVert : Bool) (sizeSrc sizeDest : Size) (b : Buffers) : Buffers :=
  raster sizeSrc.cx sizeSrc.cy (fun nX nY b =>
    let nDestX := flipped m_bHorz sizeDest.cx nX
    let nSrc := nY * sizeSrc.cx + nX
    let nDestY := flipped m_bVert sizeDest.cy nY
    ⟨b.src.touch nSrc 1, b.dest.storeAt (nDestY * sizeDest.cx + nDestX) (b.src.px nSrc).assigned⟩) b

theorem Buffer.storeAt_natCast (b : Buffer) (i : ℕ) (v : RGBX) : b.storeAt i v = b.store i v := by
  unfold Buffer.storeAt
  rw [if_pos (Int.natCast_nonneg i), Int.toNat_natCast]

theorem flipped_eq {size n : ℕ} (bFlip : Bool) (h : n < size) : flipped bFlip size n = (mirror bFlip size n : ℕ) := by
  cases bFlip
  · rfl
  · simp only [flipped, mirror, if_true]
    omega

/-- What the flipper leaves: every pixel of the source in the cell opposite to its own, and no access outside. -/
structure Flipped (m_bHorz m_bVert : Bool) (size : Size) (b b' : Buffers) : Prop where
  pixels : ∀ i < size.pixels, b'.dest.px i = (b.src.px (opposite m_bHorz m_bVert size.cx size.cy i)).assigned
  rest : ∀ i, size.pixels ≤ i → b'.dest.px i = b.dest.px i
  source : b'.src.px = b.src.px
  lens : b'.src.len = b.src.len ∧ b'.dest.len = b.dest.len
  inRange : b'.src.inRange = b.src.inRange ∧ b'.dest.inRange = b.dest.inRange

theorem flipper_flipped (m_bHorz m_bVert : Bool) (size : Size) (b : Buffers) (hsrc : size.pixels ≤ b.src.len)
    (hdest : size.pixels ≤ b.dest.len) : Flipped m_bHorz m_bVert size b (flipper m_bHorz m_bVert size size b) := by
  have hcell : ∀ x < size.cx, ∀ y < size.cy,
      mirror m_bVert size.cy y * size.cx + mirror m_bHorz size.cx x < size.pixels := by
    intro x hx y hy
    exact index_lt (mirror_lt m_bHorz hx) (mirror_lt m_bVert hy)
  have hrun := @raster_scatter Buffers RGBX size.cx size.cy
    (fun x y => mirror m_bVert size.cy y * size.cx + mirror m_bHorz size.cx x)
    (fun nX nY b => ⟨b.src.touch (nY * size.cx + nX) 1,
      b.dest.storeAt (flipped m_bVert size.cy nY * size.cx + flipped m_bHorz size.cx nX)
        (b.src.px (nY * size.cx + nX)).assigned⟩) b
    (fun c : Buffers => c.dest.px)
    (fun c => c.src.px = b.src.px ∧ (c.src.len = b.src.len ∧ c.dest.len = b.dest.len) ∧
      c.src.inRange = b.src.inRange ∧ c.dest.inRange = b.dest.inRange)
    (fun x y => (b.src.px (y * size.cx + x)).assigned) ?_ ⟨rfl, ⟨rfl, rfl⟩, rfl, rfl⟩ ?_
  · obtain ⟨hkeep, hdone, hrest⟩ := hrun
    refine ⟨fun i hi => ?_, fun i hi => ?_, hkeep.1, hkeep.2.1, hkeep.2.2⟩
    · -- the pixel at `i` was written in the turn of the cell opposite to `i`
      obtain ⟨hx, hy, -⟩ := index_split hi
      have h := hdone _ (mirror_lt m_bHorz hx) _ (mirror_lt m_bVert hy)
      have hback : opposite m_bHorz m_bVert size.cx size.cy
          (mirror m_bVert size.cy (i / size.cx) * size.cx + mirror m_bHorz size.cx (i % size.cx)) = i :=
        opposite_self m_bHorz m_bVert hi
      rw [opposite_cell m_bHorz m_bVert (mirror_lt m_bHorz hx)] at hback
      rw [hback] at h
      exact h
    · apply hrest
      intro x hx y hy heq
      have := hcell x hx y hy
      omega
  · intro x hx y hy x' hx' y' hy' h
    obtain ⟨hcolumn, hrow⟩ := cell_inj (mirror_lt m_bHorz hx) (mirror_lt m_bHorz hx') h
    have hx2 := mirror_mirror m_bHorz m_bHorz hx
    have hy2 := mirror_mirror m_bVert m_bVert hy
    rw [hcolumn, mirror_mirror m_bHorz m_bHorz hx', Bool.xor_self] at hx2
    rw [hrow, mirror_mirror m_bVert m_bVert hy', Bool.xor_self] at hy2
    exact ⟨hx2.symm, hy2.symm⟩
  · intro x y c hx hy hc
    obtain ⟨hpx, hlens, hranges⟩ := hc
    have hfrom := index_lt hx hy
    have hto := hcell x hx y hy
    dsimp only
    rw [flipped_eq m_bHorz hx, flipped_eq m_bVert hy, ← Nat.cast_mul, ← Nat.cast_add, Buffer.storeAt_natCast]
    refine ⟨⟨hpx, hlens, ?_, ?_⟩, ?_⟩
    · exact (Buffer.touch_inRange (Or.inr (by omega))).trans hranges.1
    · exact (Buffer.store_inRange (by omega) _).trans hranges.2
    · rw [Buffer.store_px, hpx]

theorem flipper_flipper (m_bHorz m_bVert bHorz bVert : Bool) (size : Size) (b : Buffers) (d : Buffer)
    (hsrc : size.pixels ≤ b.src.len) (hdest : size.pixels ≤ b.dest.len) (hd : size.pixels ≤ d.len) {i : ℕ}
    (hi : i < size.pixels) :
    (flipper bHorz bVert size size ⟨(flipper m_bHorz m_bVert size size b).dest, d⟩).dest.px i =
      (b.src.px (opposite (xor m_bHorz bHorz) (xor m_bVert bVert) size.cx size.cy i)).assigned := by
  have hfirst := flipper_flipped m_bHorz m_bVert size b hsrc hdest
  have hsecond := flipper_flipped bHorz bVert size ⟨(flipper m_bHorz m_bVert size size b).dest, d⟩
    (by rw [hfirst.lens.2]; exact hdest) hd
  rw [hsecond.pixels i hi]
  dsimp only
  rw [hfirst.pixels _ (opposite_lt bHorz bVert hi), opposite_opposite m_bHorz m_bVert bHorz bVert hi,
    RGBX.assigned_assigned]

/-- The flipper permutes the pixels and stays inside the buffers; a second one restores the picture; and the two
directions may be flipped in either order or at once. -/
theorem flipper_laws (m_bHorz m_bVert : Bool) (size : Size) (b : Buffers) (d : Buffer) (hsrc : size.pixels ≤ b.src.len)
    (hdest : size.pixels ≤ b.dest.len) (hd : size.pixels ≤ d.len) :
    let flip := fun bHorz bVert b => flipper bHorz bVert size size b
    let again := fun bHorz bVert (b' : Buffers) => flip bHorz bVert ⟨b'.dest, d⟩
    ((flip m_bHorz m_bVert b).src.inRange = b.src.inRange ∧ (flip m_bHorz m_bVert b).dest.inRange = b.dest.inRange ∧
      ∃ e : Equiv.Perm (Fin size.pixels), ∀ i : Fin size.pixels,
        (flip m_bHorz m_bVert b).dest.px i = (b.src.px (e i)).assigned) ∧
    (∀ i < size.pixels, ((again m_bHorz m_bVert (flip m_bHorz m_bVert b)).dest.px i).same (b.src.px i) = true) ∧
    ∀ i < size.pixels,
      (again false true (flip true false b)).dest.px i = (flip true true b).dest.px i ∧
      (again true false (flip false true b)).dest.px i = (flip true true b).dest.px i := by
  have hflip := fun bHorz bVert => flipper_flipped bHorz bVert size b hsrc hdest
  have hagain := fun bHorz bVert bHorz' bVert' i hi =>
    flipper_flipper bHorz bVert bHorz' bVert' size b d hsrc hdest hd (i := i) hi
  dsimp only
  refine ⟨⟨(hflip _ _).inRange.1, (hflip _ _).inRange.2, turned m_bHorz m_bVert size.cx size.cy, ?_⟩, ?_, ?_⟩
  · intro i
    exact (hflip _ _).pixels i i.isLt
  · intro i hi
    rw [hagain _ _ _ _ i hi, RGBX.same_iff, RGBX.assigned_assigned, ← opposite_opposite m_bHorz m_bVert _ _ hi,
      opposite_self m_bHorz m_bVert hi]
  · intro i hi
    rw [hagain _ _ _ _ i hi, hagain _ _ _ _ i hi, (hflip true true).pixels i hi]
    exact ⟨rfl, rfl⟩

theorem twoPixels_fit : 4 * 2 < 2 ^ 32 := by decide

def twoPixels (left right : RGBX) : Buffer := ⟨2, fun i => if i = 0 then left else right, true, twoPixels_fit⟩

/-- A row of a red and a green pixel. -/
theorem flipper_two_pixels :
    let b : Buffers := ⟨twoPixels (RGBX.ofColor 0x0000FF) (RGBX.ofColor 0x00FF00), newPixels 2⟩
    let flip := fun bHorz bVert b => flipper bHorz bVert ⟨2, 1⟩ ⟨2, 1⟩ b
    let again := fun bHorz bVert (b' : Buffers) => flip bHorz bVert ⟨b'.dest, newPixels 2⟩
    ((flip true true b).src.inRange = b.src.inRange ∧ (flip true true b).dest.inRange = b.dest.inRange ∧
      ∃ e : Equiv.Perm (Fin (Size.mk 2 1).pixels), ∀ i : Fin (Size.mk 2 1).pixels,
        (flip true true b).dest.px i = (b.src.px (e i)).assigned) ∧
    (∀ i < (Size.mk 2 1).pixels, ((again true true (flip true true b)).dest.px i).same (b.src.px i) = true) ∧
    ∀ i < (Size.mk 2 1).pixels,
      (again false true (flip true false b)).dest.px i = (flip true true b).dest.px i ∧
      (again true false (flip false true b)).dest.px i = (flip true true b).dest.px i :=
  flipper_laws true true ⟨2, 1⟩ ⟨twoPixels (RGBX.ofColor 0x0000FF) (RGBX.ofColor 0x00FF00), newPixels 2⟩ (newPixels 2)
    (by decide) (by decide) (by decide)

end StarLib.ImageProcessors
