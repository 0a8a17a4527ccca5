import StarLib.Foundations.Loop
import StarLib.Foundations.Words

/-! # Pixels and the buffers that hold them

A buffer has a length, pixels, and a record of whether every access so far was inside it. Widths and heights
are natural numbers; a number of bytes is what is left of it in 32 bits, both in what `new` is asked for and
in what the copying functions are given.
-/

namespace StarLib.ImageProcessors
open Foundations
set_option autoImplicit false
set_option maxHeartbeats 250000
set_option maxRecDepth 120000

/-! ## Colours -/

abbrev COLORREF := DWord

def GetRValue (rgb : COLORREF) : Byte := rgb.setWidth 8

def GetGValue (rgb : COLORREF) : Byte := (rgb >>> 8).setWidth 8

def GetBValue (rgb : COLORREF) : Byte := (rgb >>> 16).setWidth 8

structure RGBX where
  btBlue : Byte
  btGreen : Byte
  btRed : Byte
  btUnused : Byte
  deriving DecidableEq

namespace RGBX

/-- `RGBX()`. -/
def zero : RGBX := ⟨0, 0, 0, 0⟩

/-- `RGBX(const COLORREF& color)`. -/
def ofColor (color : COLORREF) : RGBX := ⟨GetBValue color, GetGValue color, GetRValue color, 0⟩

/-- What `operator=` puts into the left side. -/
def assigned (rgb : RGBX) : RGBX := { rgb with btUnused := 0 }

/-- `operator==`. -/
def same (a b : RGBX) : Bool := a.btRed == b.btRed && a.btGreen == b.btGreen && a.btBlue == b.btBlue

theorem same_iff {a b : RGBX} : a.same b = true ↔ a.assigned = b.assigned := by
  obtain ⟨blue, green, red, unused⟩ := a
  obtain ⟨blue', green', red', unused'⟩ := b
  unfold same assigned
  simp only [Bool.and_eq_true, beq_iff_eq, mk.injEq]
  constructor
  · rintro ⟨⟨rfl, rfl⟩, rfl⟩
    exact ⟨rfl, rfl, rfl, trivial⟩
  · rintro ⟨rfl, rfl, rfl, -⟩
    exact ⟨⟨rfl, rfl⟩, rfl⟩

@[simp] theorem assigned_assigned (a : RGBX) : a.assigned.assigned = a.assigned := rfl

@[simp] theorem assigned_ofColor (color : COLORREF) : (ofColor color).assigned = ofColor color := rfl

theorem same_refl (a : RGBX) : a.same a = true := same_iff.2 rfl

end RGBX

/-! ## Sizes -/

/-- `CSize`. -/
structure Size where
  cx : ℕ
  cy : ℕ
  deriving DecidableEq

/-- The pixels that `4 * n` bytes amount to, as a number of 32 bits. -/
def amount (n : ℕ) : ℕ := 4 * n % 2 ^ 32 / 4

theorem amount_of_lt {n : ℕ} (h : 4 * n < 2 ^ 32) : amount n = n := by
  unfold amount
  rw [Nat.mod_eq_of_lt h, Nat.mul_div_cancel_left n (by omega)]

theorem four_mul_amount_lt (n : ℕ) : 4 * amount n < 2 ^ 32 := by
  unfold amount
  omega

def Size.pixels (size : Size) : ℕ := size.cx * size.cy

/-! ## Buffers -/

structure Buffer where
  len : ℕ
  px : ℕ → RGBX
  inRange : Bool
  fits : 4 * len < 2 ^ 32

/-- `new RGBX[n]`. -/
def newPixels (n : ℕ) : Buffer := ⟨amount n, fun _ => RGBX.zero, true, four_mul_amount_lt n⟩

namespace Buffer

/-- The cells from `off` to `off + n` are read or written. -/
def touch (b : Buffer) (off n : ℕ) : Buffer := { b with inRange := b.inRange && decide (n = 0 ∨ off + n ≤ b.len) }

/-- The `n` cells from `off` on are written. -/
def write (b : Buffer) (off n : ℕ) (g : ℕ → RGBX) : Buffer := { b.touch off n with px := fillAt off n g b.px }

def store (b : Buffer) (i : ℕ) (v : RGBX) : Buffer := { b.touch i 1 with px := Function.update b.px i v }

@[simp] theorem touch_len (b : Buffer) (off n : ℕ) : (b.touch off n).len = b.len := rfl

@[simp] theorem touch_px (b : Buffer) (off n : ℕ) : (b.touch off n).px = b.px := rfl

@[simp] theorem write_len (b : Buffer) (off n : ℕ) (g : ℕ → RGBX) : (b.write off n g).len = b.len := rfl

@[simp] theorem store_len (b : Buffer) (i : ℕ) (v : RGBX) : (b.store i v).len = b.len := rfl

@[simp] theorem store_px (b : Buffer) (i : ℕ) (v : RGBX) : (b.store i v).px = Function.update b.px i v := rfl

theorem touch_inRange {b : Buffer} {off n : ℕ} (h : n = 0 ∨ off + n ≤ b.len) : (b.touch off n).inRange = b.inRange := by
  unfold touch
  simp only [decide_eq_true h, Bool.and_true]

theorem write_inRange {b : Buffer} {off n : ℕ} (h : n = 0 ∨ off + n ≤ b.len) (g : ℕ → RGBX) :
    (b.write off n g).inRange = b.inRange := touch_inRange h

theorem store_inRange {b : Buffer} {i : ℕ} (h : i < b.len) (v : RGBX) : (b.store i v).inRange = b.inRange :=
  touch_inRange (Or.inr h)

theorem write_px (b : Buffer) (off n : ℕ) (g : ℕ → RGBX) (p : ℕ) :
    (b.write off n g).px p = if off ≤ p ∧ p < off + n then g (p - off) else b.px p := fillAt_apply off n g b.px p

end Buffer

/-- The two buffers that a processor is given. -/
structure Buffers where
  src : Buffer
  dest : Buffer

/-- `CopyMemory(pDest, pSrc, 4 * n)`. -/
def Buffers.copyMemory (b : Buffers) (n : ℕ) : Buffers :=
  ⟨b.src.touch 0 (amount n), b.dest.write 0 (amount n) b.src.px⟩

end StarLib.ImageProcessors
