import StarLib.Foundations.Raster

/-! # Pictures

A picture has a width, a height and a cell for each column and row; what its function says elsewhere does not matter.
Changing every cell on its own and turning the picture around commute, so that any succession of the two comes down to one
turn and one change.
-/

namespace Foundations
set_option autoImplicit false
set_option maxHeartbeats 250000
set_option maxRecDepth 120000

structure Picture (α : Type*) where
  cx : ℕ
  cy : ℕ
  cell : ℕ → ℕ → α

namespace Picture
variable {α : Type*} {p q r : Picture α}

/-- The same size and the same cells. -/
structure Agrees (p q : Picture α) : Prop where
  cx : p.cx = q.cx
  cy : p.cy = q.cy
  cell : ∀ x < p.cx, ∀ y < p.cy, p.cell x y = q.cell x y

theorem Agrees.refl (p : Picture α) : Agrees p p := ⟨rfl, rfl, fun _ _ _ _ => rfl⟩

theorem Agrees.symm (h : Agrees p q) : Agrees q p :=
  ⟨h.cx.symm, h.cy.symm, fun x hx y hy => (h.cell x (h.cx ▸ hx) y (h.cy ▸ hy)).symm⟩

theorem Agrees.trans (h : Agrees p q) (h' : Agrees q r) : Agrees p r :=
  ⟨h.cx.trans h'.cx, h.cy.trans h'.cy, fun x hx y hy => (h.cell x hx y hy).trans (h'.cell x (h.cx ▸ hx) y (h.cy ▸ hy))⟩

/-- What a picture is made into depends on its cells alone. -/
def Respects (f : Picture α → Picture α) : Prop := ∀ p q, Agrees p q → Agrees (f p) (f q)

theorem respects_foldl {fs : List (Picture α → Picture α)} (hfs : ∀ f ∈ fs, Respects f) (h : Agrees p q) :
    Agrees (fs.foldl (fun p f => f p) p) (fs.foldl (fun p f => f p) q) := by
  induction fs generalizing p q with
  | nil => exact h
  | cons f fs ih =>
    exact ih (fun g hg => hfs g (List.mem_cons_of_mem f hg)) (hfs f List.mem_cons_self p q h)

/-! ## Changes and turns -/

def map (f : α → α) (p : Picture α) : Picture α := ⟨p.cx, p.cy, fun x y => f (p.cell x y)⟩

def flip (horz vert : Bool) (p : Picture α) : Picture α :=
  ⟨p.cx, p.cy, fun x y => p.cell (mirror horz p.cx x) (mirror vert p.cy y)⟩

theorem respects_map (f : α → α) : Respects (map f) := fun _ _ h =>
  ⟨h.cx, h.cy, fun x hx y hy => congrArg f (h.cell x hx y hy)⟩

theorem respects_flip (horz vert : Bool) : Respects (flip (α := α) horz vert) := fun p q h => by
  refine ⟨h.cx, h.cy, fun x hx y hy => ?_⟩
  show p.cell (mirror horz p.cx x) (mirror vert p.cy y) = q.cell (mirror horz q.cx x) (mirror vert q.cy y)
  rw [← h.cx, ← h.cy]
  exact h.cell _ (mirror_lt horz hx) _ (mirror_lt vert hy)

theorem flip_flip (horz vert horz' vert' : Bool) (p : Picture α) :
    Agrees ((p.flip horz vert).flip horz' vert') (p.flip (xor horz horz') (xor vert vert')) := by
  refine ⟨rfl, rfl, fun x hx y hy => ?_⟩
  have hcx : mirror horz p.cx (mirror horz' p.cx x) = mirror (xor horz horz') p.cx x := mirror_mirror horz horz' hx
  have hcy : mirror vert p.cy (mirror vert' p.cy y) = mirror (xor vert vert') p.cy y := mirror_mirror vert vert' hy
  exact congrArg₂ p.cell hcx hcy

/-! ## Successions of them -/

inductive Op (α : Type*)
  | map (f : α → α)
  | flip (horz vert : Bool)

def Op.apply : Op α → Picture α → Picture α
  | .map f => Picture.map f
  | .flip horz vert => Picture.flip horz vert

/-- The directions that are turned around an odd number of times. -/
def turn : List (Op α) → Bool × Bool
  | [] => (false, false)
  | .map _ :: ops => turn ops
  | .flip horz vert :: ops => (xor horz (turn ops).1, xor vert (turn ops).2)

/-- The changes of a cell, the first one first. -/
def change : List (Op α) → α → α
  | [], a => a
  | .map f :: ops, a => change ops (f a)
  | .flip _ _ :: ops, a => change ops a

/-- One turn and one change. -/
theorem foldl_apply (ops : List (Op α)) (p : Picture α) :
    Agrees (ops.foldl (fun p op => op.apply p) p) ((p.flip (turn ops).1 (turn ops).2).map (change ops)) := by
  induction ops generalizing p with
  | nil => exact Agrees.refl p
  | cons op ops ih =>
    rw [List.foldl_cons]
    cases op with
    | map f => exact ih (p.map f)
    | flip horz vert =>
      refine (ih (p.flip horz vert)).trans ?_
      exact respects_map (change ops) _ _ (flip_flip horz vert (turn ops).1 (turn ops).2 p)

end Picture

end Foundations
