import Mathlib.Data.Set.Function
import StarLib.ImageProcessors.EnBitmap

/-! # The handles of `CEnBitmap::ProcessImage`

The bitmaps that are alive, the one that the object holds and the device contexts that have not been released, with
every pattern of answers of the system. The stages between reading the old bitmap and making the new one are
`processStages`.
-/

namespace StarLib.ImageProcessors
open Foundations
set_option autoImplicit false
set_option maxHeartbeats 250000
set_option maxRecDepth 120000

/-- The bitmaps by their handles, the handle of the object, and the number of device contexts in use. No handle is
given out twice. -/
structure Gdi where
  bitmaps : ℕ → Option Bitmap
  next : ℕ
  m_hObject : Option ℕ
  dcs : ℕ
  fresh : ∀ h, next ≤ h → bitmaps h = none

/-- Whether each call succeeds. `PrepareBitmapInfo32` calls `GetObject`, for the old bitmap and for the new one. -/
structure Answers where
  GetBitmap : Bool
  GetObject : Bool
  GetDIBits : Bool
  CreateCompatibleBitmap : Bool
  GetObjectNew : Bool
  SetDIBits : Bool
  Attach : Bool

namespace Gdi

def GetDC (s : Gdi) : Gdi := { s with dcs := s.dcs + 1 }

def ReleaseDC (s : Gdi) : Gdi := { s with dcs := s.dcs - 1 }

/-- `GetObject` and `CBitmap::GetBitmap`: a handle that is not alive has no header. -/
def GetObject (s : Gdi) (answer : Bool) (h : ℕ) : Option Bitmap := if answer then s.bitmaps h else none

/-- `::DeleteObject`. -/
def DeleteHandle (s : Gdi) (h : ℕ) : Gdi where
  bitmaps := Function.update s.bitmaps h none
  next := s.next
  m_hObject := s.m_hObject
  dcs := s.dcs
  fresh := by
    intro k hk
    by_cases heq : k = h
    · rw [heq, Function.update_self]
    · rw [Function.update_of_ne heq]
      exact s.fresh k hk

/-- `CGdiObject::DeleteObject` detaches the handle first. -/
def DeleteObject (s : Gdi) : Gdi :=
  match s.m_hObject with
  | none => s
  | some h => { s.DeleteHandle h with m_hObject := none }

def Attach (s : Gdi) (answer : Bool) (h : ℕ) : Bool × Gdi :=
  if answer then (true, { s with m_hObject := some h }) else (false, s)

end Gdi

theorem onePixel_pos : 0 < (Size.mk 1 1).cx ∧ 0 < (Size.mk 1 1).cy := ⟨Nat.one_pos, Nat.one_pos⟩

/-- The bitmap that `CreateCompatibleBitmap` makes: of one pixel, where a size is zero. -/
def compatibleBitmap (size : Size) : Bitmap :=
  if h : 0 < size.cx ∧ 0 < size.cy then ⟨size, fun _ => RGBX.zero, h⟩
  else ⟨⟨1, 1⟩, fun _ => RGBX.zero, onePixel_pos⟩

def Gdi.CreateCompatibleBitmap (s : Gdi) (answer : Bool) (size : Size) : Option (ℕ × Gdi) :=
  if answer then
    some (s.next,
      { s with
        bitmaps := Function.update s.bitmaps s.next (some (compatibleBitmap size))
        next := s.next + 1
        fresh := by
          intro k hk
          rw [Function.update_of_ne (by omega)]
          exact s.fresh k (by omega) })
  else none

/-- `SetDIBits` with the pixels of `px`, for all the rows of the bitmap. -/
def Gdi.SetDIBits (s : Gdi) (answer : Bool) (h : ℕ) (px : ℕ → RGBX) : Option Gdi :=
  if answer then
    some { s with
      bitmaps := Function.update s.bitmaps h ((s.bitmaps h).map fun bm => { bm with pixel := px })
      fresh := by
        intro k hk
        by_cases heq : k = h
        · rw [heq, Function.update_self, ← heq, s.fresh k hk]
          rfl
        · rw [Function.update_of_ne heq]
          exact s.fresh k hk }
  else none

/-- `GetDIBits32`: whether the pixels are read, and the state. -/
def Gdi.GetDIBits32 (s : Gdi) (a : Answers) (h : ℕ) : Bool × Gdi :=
  match s.GetObject a.GetObject h with
  | none => (false, s)
  | some _ =>
    let s := s.GetDC
    (a.GetDIBits, s.ReleaseDC)

/-- The update of the bitmap. `bRes` is `TRUE` at its start, and only `Attach` assigns to it. -/
def updateBitmap (a : Answers) (s : Gdi) (st : Stage) : Bool × Gdi :=
  let s := s.GetDC
  match s.CreateCompatibleBitmap a.CreateCompatibleBitmap st.sizeDest with
  | none => (true, s)
  | some (hbmSrc, s) =>
    let r :=
      match s.GetObject a.GetObjectNew hbmSrc with
      | none => (true, s)
      | some _ =>
        match s.SetDIBits a.SetDIBits hbmSrc st.bufs.dest.px with
        | none => (true, s)
        | some s => s.DeleteObject.Attach a.Attach hbmSrc
    let s := r.2.ReleaseDC
    if r.1 then (true, s) else (false, s.DeleteHandle hbmSrc)

/-- `ProcessImage`: what it returns, and the state after it. -/
def processImage (a : Answers) (s : Gdi) (crBkgnd crMask : COLORREF) (aProcessors : List Processor) : Bool × Gdi :=
  match s.m_hObject with
  | none => (false, s)
  | some h =>
    if aProcessors = [] then (true, s)
    else
      match s.GetObject a.GetBitmap h with
      | none => (false, s)
      | some bm =>
        let src := s.GetDIBits32 a h
        if src.1 then
          match (processStages bm crBkgnd crMask aProcessors).2 with
          | none => (true, src.2)
          | some st => if st.bRes then updateBitmap a src.2 st else (false, src.2)
        else (false, src.2)

/-! ## What a call may leave -/

/-- The object holds a new bitmap, of the size and the pixels that the last processor has left. -/
def Gdi.Made (s : Gdi) (st : Stage) (r : Gdi) : Prop :=
  ∃ h bm, r.m_hObject = some h ∧ s.bitmaps h = none ∧ r.bitmaps h = some bm ∧ bm.size = st.sizeDest ∧
    ∀ i < bm.size.pixels, bm.pixel i = st.bufs.dest.px i

/-- The object holds the bitmap that it held, unchanged, and nothing that was made is left. -/
structure Gdi.Kept (s r : Gdi) : Prop where
  attached : r.m_hObject = s.m_hObject
  unchanged : ∀ h, s.m_hObject = some h → r.bitmaps h = s.bitmaps h
  deleted : ∀ h, s.bitmaps h = none → r.bitmaps h = none
  released : r.dcs = s.dcs

/-- `TRUE` goes with the pixels of the last processor, `FALSE` with the old bitmap. Without processors the bitmap
stays as it is. -/
structure ImageProcessed (s : Gdi) (crBkgnd crMask : COLORREF) (aProcessors : List Processor) (r : Bool × Gdi) :
    Prop where
  made : r.1 = true → aProcessors ≠ [] → ∃ h bm st, s.m_hObject = some h ∧ s.bitmaps h = some bm ∧
    (processStages bm crBkgnd crMask aProcessors).2 = some st ∧ s.Made st r.2
  kept : r.1 = false ∨ aProcessors = [] → s.Kept r.2

/-- The calls that make the new bitmap succeed, and its size is one that a bitmap can have. -/
structure Answers.Update (a : Answers) (size : Size) : Prop where
  size : 0 < size.cx ∧ 0 < size.cy
  created : a.CreateCompatibleBitmap = true
  header : a.GetObjectNew = true
  pixels : a.SetDIBits = true
  attached : a.Attach = true

/-- The old bitmap is read and every processor succeeds: the update is reached. -/
def ReachesUpdate (a : Answers) (s : Gdi) (crBkgnd crMask : COLORREF) (aProcessors : List Processor) (st : Stage) :
    Prop :=
  ∃ h bm, s.m_hObject = some h ∧ s.bitmaps h = some bm ∧ a.GetBitmap = true ∧ a.GetObject = true ∧ a.GetDIBits = true ∧
    (processStages bm crBkgnd crMask aProcessors).2 = some st ∧ st.bRes = true

namespace Gdi

theorem Kept.refl (s : Gdi) : s.Kept s := ⟨rfl, fun _ _ => rfl, fun _ h => h, rfl⟩

@[simp] theorem release_get (s : Gdi) : s.GetDC.ReleaseDC = s := rfl

theorem getObject_eq_some {s : Gdi} {answer : Bool} {h : ℕ} {bm : Bitmap} :
    s.GetObject answer h = some bm ↔ answer = true ∧ s.bitmaps h = some bm := by
  cases answer <;> simp [GetObject]

theorem getDIBits32_state (s : Gdi) (a : Answers) (h : ℕ) : (s.GetDIBits32 a h).2 = s := by
  unfold GetDIBits32
  cases s.GetObject a.GetObject h with
  | none => rfl
  | some bm => rfl

theorem getDIBits32_read {s : Gdi} (a : Answers) {h : ℕ} {bm : Bitmap} (hb : s.bitmaps h = some bm) :
    (s.GetDIBits32 a h).1 = true ↔ a.GetObject = true ∧ a.GetDIBits = true := by
  unfold GetDIBits32 GetObject
  cases a.GetObject <;> simp [hb]

theorem Made.size_pos {s r : Gdi} {st : Stage} (h : s.Made st r) : 0 < st.sizeDest.cx ∧ 0 < st.sizeDest.cy := by
  obtain ⟨_, bm, _, _, _, hsize, _⟩ := h
  rw [← hsize]
  exact bm.pos

end Gdi

theorem compatibleBitmap_size {size : Size} (h : 0 < size.cx ∧ 0 < size.cy) : (compatibleBitmap size).size = size := by
  unfold compatibleBitmap
  rw [dif_pos h]

/-! ## The update -/

section Update
variable {a : Answers} {s : Gdi} {st : Stage} {h : ℕ} {bm : Bitmap}

/-- Whatever fails before the old bitmap is deleted, `TRUE` is returned and the old bitmap stays. -/
theorem updateBitmap_early (hfails : ¬ (a.CreateCompatibleBitmap = true ∧ a.GetObjectNew = true ∧ a.SetDIBits = true)) :
    (updateBitmap a s st).1 = true ∧ (updateBitmap a s st).2.m_hObject = s.m_hObject := by
  unfold updateBitmap Gdi.CreateCompatibleBitmap
  cases hcreate : a.CreateCompatibleBitmap with
  | false => exact ⟨rfl, rfl⟩
  | true =>
    cases hheader : a.GetObjectNew with
    | false => exact ⟨rfl, rfl⟩
    | true =>
      cases hpixels : a.SetDIBits with
      | false => simp [Gdi.GetObject, Gdi.SetDIBits, Gdi.GetDC, Gdi.ReleaseDC]
      | true => exact absurd ⟨hcreate, hheader, hpixels⟩ hfails

/-- After that `Attach` decides, and the old bitmap is gone. -/
theorem updateBitmap_late (hobj : s.m_hObject = some h) (halive : s.bitmaps h = some bm)
    (hcreate : a.CreateCompatibleBitmap = true) (hheader : a.GetObjectNew = true) (hpixels : a.SetDIBits = true) :
    (updateBitmap a s st).1 = a.Attach ∧
      (updateBitmap a s st).2.m_hObject = (if a.Attach then some s.next else none) ∧
      (a.Attach = true → (updateBitmap a s st).2.bitmaps s.next =
        some { compatibleBitmap st.sizeDest with pixel := st.bufs.dest.px }) := by
  have hne : s.next ≠ h := by
    intro heq
    rw [← heq, s.fresh s.next (Nat.le_refl _)] at halive
    cases halive
  unfold updateBitmap Gdi.CreateCompatibleBitmap
  rw [hcreate, hheader, hpixels]
  cases hattach : a.Attach with
  | false =>
    simp [Gdi.GetObject, Gdi.SetDIBits, Gdi.GetDC, Gdi.ReleaseDC, Gdi.DeleteObject, Gdi.DeleteHandle, Gdi.Attach, hobj]
  | true =>
    simp [Gdi.GetObject, Gdi.SetDIBits, Gdi.GetDC, Gdi.ReleaseDC, Gdi.DeleteObject, Gdi.DeleteHandle, Gdi.Attach, hobj,
      Function.update_of_ne hne]

theorem updateBitmap_made (hobj : s.m_hObject = some h) (halive : s.bitmaps h = some bm)
    (hupdate : a.Update st.sizeDest) :
    (updateBitmap a s st).1 = true ∧ s.Made st (updateBitmap a s st).2 := by
  obtain ⟨hret, hheld, hnew⟩ : (updateBitmap a s st).1 = a.Attach ∧ _ ∧ _ :=
    updateBitmap_late hobj halive hupdate.created hupdate.header hupdate.pixels
  rw [hupdate.attached] at hret hheld
  refine ⟨hret, s.next, _, hheld, s.fresh s.next (Nat.le_refl _), hnew hupdate.attached, ?_, fun i _ => rfl⟩
  exact compatibleBitmap_size hupdate.size

/-- What the object holds is the new bitmap or the old one, and the old one does not count as new. -/
theorem Answers.Update.of_processed (hobj : s.m_hObject = some h) (halive : s.bitmaps h = some bm)
    (hmade : (updateBitmap a s st).1 = true → s.Made st (updateBitmap a s st).2)
    (hkept : (updateBitmap a s st).1 = false → s.Kept (updateBitmap a s st).2) : a.Update st.sizeDest := by
  have hcalls : a.CreateCompatibleBitmap = true ∧ a.GetObjectNew = true ∧ a.SetDIBits = true := by
    by_contra hfails
    obtain ⟨hret, hheld⟩ : (updateBitmap a s st).1 = true ∧ _ := updateBitmap_early hfails
    obtain ⟨k, _, hk, hnone, _⟩ := hmade hret
    rw [hheld, hobj, Option.some.injEq] at hk
    rw [← hk, halive] at hnone
    cases hnone
  obtain ⟨hcreate, hheader, hpixels⟩ := hcalls
  obtain ⟨hret, hheld, _⟩ : (updateBitmap a s st).1 = a.Attach ∧ _ ∧ _ :=
    updateBitmap_late hobj halive hcreate hheader hpixels
  cases hattach : a.Attach with
  | true =>
    rw [hattach] at hret
    exact ⟨(hmade hret).size_pos, hcreate, hheader, hpixels, hattach⟩
  | false =>
    rw [hattach] at hret hheld
    have hlost := (hkept hret).attached
    rw [hheld, hobj] at hlost
    cases hlost

end Update

/-! ## The whole call -/

section ProcessImage
variable {a : Answers} {s : Gdi} {crBkgnd crMask : COLORREF} {aProcessors : List Processor}

theorem ReachesUpdate.ne_nil {st : Stage} (h : ReachesUpdate a s crBkgnd crMask aProcessors st) : aProcessors ≠ [] := by
  obtain ⟨_, _, _, _, _, _, _, hstages, _⟩ := h
  intro hnil
  rw [hnil] at hstages
  cases hstages

theorem processImage_reached {st : Stage} (h : ReachesUpdate a s crBkgnd crMask aProcessors st) :
    processImage a s crBkgnd crMask aProcessors = updateBitmap a s st := by
  have hne := h.ne_nil
  obtain ⟨k, bm, hobj, halive, hbitmap, hobject, hbits, hstages, hres⟩ := h
  have hread : (s.GetDIBits32 a k).1 = true := (Gdi.getDIBits32_read a halive).2 ⟨hobject, hbits⟩
  have hget : s.GetObject a.GetBitmap k = some bm := Gdi.getObject_eq_some.2 ⟨hbitmap, halive⟩
  unfold processImage
  simp [hobj, hne, hget, hread, hstages, hres, Gdi.getDIBits32_state]

/-- Where the update is not reached, the state is as before. -/
theorem processImage_not_reached (h : ∀ st, ¬ ReachesUpdate a s crBkgnd crMask aProcessors st) :
    (processImage a s crBkgnd crMask aProcessors).2 = s ∧
      ((processImage a s crBkgnd crMask aProcessors).1 = true → aProcessors = []) := by
  unfold processImage
  cases hobj : s.m_hObject with
  | none => exact ⟨rfl, fun hret => absurd hret Bool.false_ne_true⟩
  | some k =>
    cases aProcessors with
    | nil => exact ⟨rfl, fun _ => rfl⟩
    | cons p ps =>
      cases hget : s.GetObject a.GetBitmap k with
      | none => simp [hget]
      | some bm =>
        obtain ⟨hbitmap, halive⟩ := Gdi.getObject_eq_some.1 hget
        by_cases hread : (s.GetDIBits32 a k).1 = true
        · obtain ⟨hobject, hbits⟩ := (Gdi.getDIBits32_read a halive).1 hread
          obtain ⟨st, hstages⟩ : ∃ st, (processStages bm crBkgnd crMask (p :: ps)).2 = some st := ⟨_, rfl⟩
          have hres : ¬ st.bRes = true := fun hres => h st ⟨k, bm, hobj, halive, hbitmap, hobject, hbits, hstages, hres⟩
          simp [hget, hread, hstages, hres, Gdi.getDIBits32_state]
        · simp [hget, hread, Gdi.getDIBits32_state]

/-- `ProcessImage` keeps its word for an object, a list of processors and a pattern of answers, if and only if,
where the update is reached, all of its calls succeed and the size is one that a bitmap can have. -/
theorem imageProcessed_iff (a : Answers) (s : Gdi) (crBkgnd crMask : COLORREF) (aProcessors : List Processor) :
    ImageProcessed s crBkgnd crMask aProcessors (processImage a s crBkgnd crMask aProcessors) ↔
      ∀ st, ReachesUpdate a s crBkgnd crMask aProcessors st → a.Update st.sizeDest := by
  constructor
  · intro hok st hreach
    have heq := processImage_reached hreach
    have hne := hreach.ne_nil
    obtain ⟨k, bm, hobj, halive, _, _, _, hstages, _⟩ := hreach
    rw [heq] at hok
    refine Answers.Update.of_processed hobj halive (fun hret => ?_) (fun hret => hok.kept (Or.inl hret))
    obtain ⟨k', bm', st', hobj', halive', hstages', hmade⟩ := hok.made hret hne
    rw [hobj, Option.some.injEq] at hobj'
    rw [← hobj', halive, Option.some.injEq] at halive'
    rw [← halive', hstages, Option.some.injEq] at hstages'
    rw [← hstages'] at hmade
    exact hmade
  · intro hall
    by_cases hreach : ∃ st, ReachesUpdate a s crBkgnd crMask aProcessors st
    · obtain ⟨st, hreach⟩ := hreach
      have hupdate := hall st hreach
      have heq := processImage_reached hreach
      have hne := hreach.ne_nil
      obtain ⟨k, bm, hobj, halive, _, _, _, hstages, _⟩ := hreach
      obtain ⟨hret, hmade⟩ := updateBitmap_made hobj halive hupdate
      rw [heq]
      refine ⟨fun _ _ => ⟨k, bm, st, hobj, halive, hstages, hmade⟩, fun h => ?_⟩
      cases h with
      | inl hfalse =>
        rw [hret] at hfalse
        cases hfalse
      | inr hnil => exact absurd hnil hne
    · have hnot : ∀ st, ¬ ReachesUpdate a s crBkgnd crMask aProcessors st := fun st h => hreach ⟨st, h⟩
      obtain ⟨hstate, hret⟩ := processImage_not_reached hnot
      refine ⟨fun htrue hne => absurd (hret htrue) hne, fun _ => ?_⟩
      rw [hstate]
      exact Gdi.Kept.refl s

end ProcessImage

/-- An object with `sampleBitmap`. -/
def sampleGdi : Gdi where
  bitmaps := Function.update (fun _ => none) 0 (some sampleBitmap)
  next := 1
  m_hObject := some 0
  dcs := 0
  fresh := fun k hk => Function.update_of_ne (by omega) _ _

/-- `CreateCompatibleBitmap` fails, and the rest would succeed: `TRUE` is returned for the old bitmap, and the device
context is still in use. -/
theorem creation_failure_unnoticed :
    ¬ ∀ (a : Answers) (s : Gdi) (crBkgnd crMask : COLORREF) (aProcessors : List Processor),
      ImageProcessed s crBkgnd crMask aProcessors (processImage a s crBkgnd crMask aProcessors) := by
  intro h
  have hok := h ⟨true, true, true, false, true, true, true⟩ sampleGdi 0xffffff 0xffffffff [sysColorMapperOf fun _ => 0]
  obtain ⟨k, _, _, _, _, _, hmade⟩ := hok.made rfl (List.cons_ne_nil _ _)
  obtain ⟨k', _, hheld, hnone, _⟩ := hmade
  have hzero : k' = 0 := (Option.some.inj hheld).symm
  rw [hzero] at hnone
  cases hnone

end StarLib.ImageProcessors
