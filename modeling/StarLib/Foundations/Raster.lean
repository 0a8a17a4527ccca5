import StarLib.Foundations.Loop

/-! # Loops over the pixels of a rectangle

`raster cx cy body` runs `body x y` column by column. A loop that writes the cell `y * w + x`, with no
column wider than `w`, writes every cell of the rectangle once and nothing else.
-/

namespace Foundations
set_option autoImplicit false
set_option maxHeartbeats 250000
set_option maxRecDepth 120000

variable {σ α : Type*}

/-- `for (x = 0; x < cx; x++) for (y = 0; y < cy; y++) s = body(x, y, s)`. -/
def raster (cx cy : ℕ) (body : ℕ → ℕ → σ → σ) (s : σ) : σ :=
  forRange 0 cx (fun x s => forRange 0 cy (fun y s => body x y s) s) s

/-- `P x y` holds when the columns before `x` and the rows before `y` of column `x` are done. -/
theorem raster_inv {cx cy : ℕ} {f : ℕ → ℕ → σ → σ} {s : σ} (P : ℕ → ℕ → σ → Prop) (h0 : P 0 0 s)
    (hrow : ∀ x y s, x < cx → y < cy → P x y s → P x (y + 1) (f x y s))
    (hcolumn : ∀ x s, x < cx → P x cy s → P (x + 1) 0 s) : P cx 0 (raster cx cy f s) := by
  refine forRange_inv (P := fun x s => P x 0 s) (Nat.zero_le cx) h0 ?_
  intro x s _ hx hs
  refine hcolumn x _ hx ?_
  exact forRange_inv (P := fun y s => P x y s) (Nat.zero_le cy) hs fun y s _ hy hs => hrow x y s hx hy hs

theorem cell_inj {w x y x' y' : ℕ} (hx : x < w) (hx' : x' < w) (h : y * w + x = y' * w + x') : x = x' ∧ y = y' := by
  have hw : 0 < w := by omega
  have hmod := congrArg (fun p => p % w) h
  have hdiv := congrArg (fun p => p / w) h
  simp only [Nat.mul_add_mod_of_lt hx, Nat.mul_add_mod_of_lt hx'] at hmod
  simp only [Nat.mul_comm _ w, Nat.mul_add_div hw, Nat.div_eq_of_lt hx, Nat.div_eq_of_lt hx', Nat.add_zero] at hdiv
  exact ⟨hmod, hdiv⟩

/-- The cells after a loop over a rectangle that writes one cell of its own in each turn. `keep` is what the turns
rely on and leave alone. -/
theorem raster_scatter {cx cy : ℕ} (cell : ℕ → ℕ → ℕ) (f : ℕ → ℕ → σ → σ) (s : σ) (cells : σ → ℕ → α) (keep : σ → Prop)
    (g : ℕ → ℕ → α)
    (hcell : ∀ x < cx, ∀ y < cy, ∀ x' < cx, ∀ y' < cy, cell x y = cell x' y' → x = x' ∧ y = y') (hkeep : keep s)
    (hstep : ∀ x y s, x < cx → y < cy → keep s →
      keep (f x y s) ∧ cells (f x y s) = Function.update (cells s) (cell x y) (g x y)) :
    keep (raster cx cy f s) ∧ (∀ x < cx, ∀ y < cy, cells (raster cx cy f s) (cell x y) = g x y) ∧
      ∀ p, (∀ x < cx, ∀ y < cy, p ≠ cell x y) → cells (raster cx cy f s) p = cells s p := by
  suffices h : keep (raster cx cy f s) ∧
      (∀ x < cx, ∀ y < cy, x < cx ∨ x = cx ∧ y < 0 → cells (raster cx cy f s) (cell x y) = g x y) ∧
      ∀ p, (∀ x < cx, ∀ y < cy, p ≠ cell x y) → cells (raster cx cy f s) p = cells s p from
    ⟨h.1, fun x hx y hy => h.2.1 x hx y hy (Or.inl hx), h.2.2⟩
  refine raster_inv (P := fun X Y t => keep t ∧
      (∀ x < cx, ∀ y < cy, x < X ∨ x = X ∧ y < Y → cells t (cell x y) = g x y) ∧
      ∀ p, (∀ x < cx, ∀ y < cy, p ≠ cell x y) → cells t p = cells s p) ?_ ?_ ?_
  · exact ⟨hkeep, fun x _ y _ hdone => by omega, fun _ _ => rfl⟩
  · intro X Y t hX hY ht
    obtain ⟨hk, hdone, hrest⟩ := ht
    obtain ⟨hk', hcells⟩ := hstep X Y t hX hY hk
    refine ⟨hk', fun x hx y hy hlast => ?_, fun p hp => ?_⟩
    · rw [hcells]
      by_cases hsame : cell x y = cell X Y
      · obtain ⟨rfl, rfl⟩ := hcell x hx y hy X hX Y hY hsame
        rw [Function.update_self]
      · rw [Function.update_of_ne hsame]
        refine hdone x hx y hy ?_
        rcases hlast with hlt | ⟨rfl, hlt⟩
        · exact Or.inl hlt
        · have hne : y ≠ Y := fun h => hsame (by rw [h])
          exact Or.inr ⟨rfl, by omega⟩
    · rw [hcells, Function.update_of_ne (hp X hX Y hY), hrest p hp]
  · intro X t hX ht
    obtain ⟨hk, hdone, hrest⟩ := ht
    refine ⟨hk, fun x hx y hy hlast => hdone x hx y hy ?_, hrest⟩
    rcases hlast with hlt | ⟨_, hlt⟩
    · rcases Nat.lt_or_ge x X with h | h
      · exact Or.inl h
      · exact Or.inr ⟨by omega, hy⟩
    · exact absurd hlt (Nat.not_lt_zero y)

/-- Each turn writes the cell of its own column and row. -/
theorem raster_writes {cx w : ℕ} (cy : ℕ) (f : ℕ → ℕ → σ → σ) (s : σ) (cells : σ → ℕ → α) (keep : σ → Prop)
    (g : ℕ → ℕ → α) (hw : cx ≤ w) (hkeep : keep s)
    (hstep : ∀ x y s, x < cx → y < cy → keep s →
      keep (f x y s) ∧ cells (f x y s) = Function.update (cells s) (y * w + x) (g x y)) :
    keep (raster cx cy f s) ∧ (∀ x < cx, ∀ y < cy, cells (raster cx cy f s) (y * w + x) = g x y) ∧
      ∀ p, (∀ x < cx, ∀ y < cy, p ≠ y * w + x) → cells (raster cx cy f s) p = cells s p :=
  raster_scatter (fun x y => y * w + x) f s cells keep g
    (fun x hx y _ x' hx' y' _ h => cell_inj (by omega) (by omega) h) hkeep hstep

/-! ## Rectangles turned around -/

/-- A coordinate counted from the other end. -/
def mirror (back : Bool) (n i : ℕ) : ℕ := if back then n - 1 - i else i

theorem mirror_lt {n i : ℕ} (back : Bool) (h : i < n) : mirror back n i < n := by
  unfold mirror
  split <;> omega

theorem mirror_mirror {n i : ℕ} (back back' : Bool) (h : i < n) :
    mirror back n (mirror back' n i) = mirror (xor back back') n i := by
  cases back <;> cases back' <;> simp only [mirror, Bool.xor_true, Bool.xor_false, Bool.not_true, Bool.not_false,
    Bool.false_eq_true, if_true, if_false]
  omega

/-- The cell of a rectangle that is opposite to `p`, in its row and in its column where they are turned around. -/
def opposite (horz vert : Bool) (cx cy p : ℕ) : ℕ := mirror vert cy (p / cx) * cx + mirror horz cx (p % cx)

section Opposite
variable {cx cy p : ℕ}

theorem width_pos (h : p < cx * cy) : 0 < cx := by
  apply Nat.pos_of_ne_zero
  intro hzero
  rw [hzero, Nat.zero_mul] at h
  omega

theorem cell_lt {x y : ℕ} (hx : x < cx) (hy : y < cy) : y * cx + x < cx * cy := by
  have h : (y + 1) * cx ≤ cy * cx := Nat.mul_le_mul_right cx hy
  rw [Nat.add_mul, Nat.one_mul] at h
  rw [Nat.mul_comm cx]
  omega

theorem opposite_cell {x y : ℕ} (horz vert : Bool) (hx : x < cx) :
    opposite horz vert cx cy (y * cx + x) = mirror vert cy y * cx + mirror horz cx x := by
  have hpos : 0 < cx := by omega
  have hdiv : (y * cx + x) / cx = y := by
    rw [Nat.mul_comm, Nat.mul_add_div hpos, Nat.div_eq_of_lt hx, Nat.add_zero]
  have hmod : (y * cx + x) % cx = x := Nat.mul_add_mod_of_lt hx
  simp only [opposite, hdiv, hmod]

theorem opposite_lt (horz vert : Bool) (h : p < cx * cy) : opposite horz vert cx cy p < cx * cy := by
  apply cell_lt
  · exact mirror_lt horz (Nat.mod_lt p (width_pos h))
  · exact mirror_lt vert (Nat.div_lt_of_lt_mul h)

/-- Turning around twice. -/
theorem opposite_opposite (horz vert horz' vert' : Bool) (h : p < cx * cy) :
    opposite horz vert cx cy (opposite horz' vert' cx cy p) = opposite (xor horz horz') (xor vert vert') cx cy p := by
  have hx := Nat.mod_lt p (width_pos h)
  have hy := Nat.div_lt_of_lt_mul h
  have houter : opposite horz vert cx cy (mirror vert' cy (p / cx) * cx + mirror horz' cx (p % cx)) = _ :=
    opposite_cell horz vert (mirror_lt horz' hx)
  simp only [opposite] at houter ⊢
  rw [houter, mirror_mirror horz horz' hx, mirror_mirror vert vert' hy]

theorem opposite_self (horz vert : Bool) (h : p < cx * cy) : opposite horz vert cx cy (opposite horz vert cx cy p) = p := by
  rw [opposite_opposite horz vert horz vert h]
  simp only [Bool.xor_self, opposite, mirror, Bool.false_eq_true, if_false]
  rw [Nat.mul_comm]
  exact Nat.div_add_mod p cx

end Opposite

/-- The cells of a rectangle, each put in the place of its opposite. -/
def turned (horz vert : Bool) (cx cy : ℕ) : Equiv.Perm (Fin (cx * cy)) :=
  Function.Involutive.toPerm (fun p => ⟨opposite horz vert cx cy p, opposite_lt horz vert p.isLt⟩)
    fun p => Fin.ext (opposite_self horz vert p.isLt)

end Foundations
