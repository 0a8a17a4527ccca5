import StarLib.LicenseLib.Md5
import StarLib.Md5.Digest

/-! # The body of LicenseLib and the transformation

`md5.c` of LicenseLib writes its steps with other formulas, in a loop, and has the four words the other way round.
-/

namespace StarLib.Md5
open Foundations StarLib.LicenseLib
set_option autoImplicit false
set_option maxHeartbeats 250000
set_option maxRecDepth 120000

/-! ## The functions -/

theorem F_select (x y z : DWord) : z ^^^ (x &&& (y ^^^ z)) = F x y z := by
  apply BitVec.eq_of_getLsbD_eq
  intro i hi
  simp only [F, BitVec.getLsbD_xor, BitVec.getLsbD_and, BitVec.getLsbD_or, BitVec.getLsbD_not, hi, decide_true,
    Bool.true_and]
  cases x.getLsbD i <;> cases y.getLsbD i <;> cases z.getLsbD i <;> rfl

theorem G_select (x y z : DWord) : y ^^^ (z &&& (y ^^^ x)) = G x y z := by
  apply BitVec.eq_of_getLsbD_eq
  intro i hi
  simp only [G, BitVec.getLsbD_xor, BitVec.getLsbD_and, BitVec.getLsbD_or, BitVec.getLsbD_not, hi, decide_true,
    Bool.true_and]
  cases x.getLsbD i <;> cases y.getLsbD i <;> cases z.getLsbD i <;> rfl

/-! ## The lines -/

/-- Line `i`, by the tables and the places that the loop uses. -/
def line (i : ℕ) : Line :=
  if i < 32 then
    if i < 16 then ⟨.FF, i % 16, (md5S.getD (i / 16) []).getD (i % 4) 0, md5T.getD i 0⟩
    else ⟨.GG, (1 + 5 * i) % 16, (md5S.getD (i / 16) []).getD (i % 4) 0, md5T.getD i 0⟩
  else
    if i < 48 then ⟨.HH, (5 + 3 * i) % 16, (md5S.getD (i / 16) []).getD (i % 4) 0, md5T.getD i 0⟩
    else ⟨.II, 7 * i % 16, (md5S.getD (i / 16) []).getD (i % 4) 0, md5T.getD i 0⟩

theorem lines_eq : lines = (List.range' 0 64).map line := by decide

/-- The words of a step as the registers of a line. -/
def registers (s : ABCD) : Buf := ⟨s.a0, s.a1, s.a2, s.a3⟩

theorem core_line (X : ℕ → DWord) (i : ℕ) (s : ABCD) : registers (md5Step X i s) = (line i).run X (registers s) := by
  have hstep : md5CORE X i s.a0 s.a1 s.a2 s.a3 =
      rotl (s.a0 + ((line i).macroName.function s.a1 s.a2 s.a3 + X (line i).k + (line i).ac)) (line i).s + s.a1 := by
    unfold md5CORE line
    by_cases h32 : i < 32
    · by_cases h16 : i < 16
      · simp only [if_pos h32, if_pos h16, Macro.function, ← F_select, rotl]
        ac_rfl
      · simp only [if_pos h32, if_neg h16, Macro.function, ← G_select, rotl]
        ac_rfl
    · by_cases h48 : i < 48
      · simp only [if_neg h32, if_pos h48, Macro.function, H, rotl]
        ac_rfl
      · simp only [if_neg h32, if_neg h48, Macro.function, I, rotl]
        ac_rfl
  unfold md5Step registers Line.run
  rw [hstep]

theorem core_lines (X : ℕ → DWord) (s : ABCD) :
    registers (forRange 0 64 (md5Step X) s) = lines.foldl (Line.run X) (registers s) := by
  have hrun : ∀ (is : List ℕ) (s : ABCD), registers (is.foldl (fun s i => md5Step X i s) s) =
      (is.map line).foldl (Line.run X) (registers s) := by
    intro is
    induction is with
    | nil => exact fun s => rfl
    | cons i is ih =>
      intro s
      rw [List.foldl_cons, ih, List.map_cons, List.foldl_cons, core_line]
  rw [lines_eq]
  exact hrun (List.range' 0 64) s

/-- `body` is `Transform` with the words in the other order, except that it leaves the last one as it was. -/
theorem body_transform (abcd : ABCD) (X : ℕ → DWord) :
    md5Body abcd X = ⟨(Transform ⟨abcd.a3, abcd.a2, abcd.a1, abcd.a0⟩ X).d,
      (Transform ⟨abcd.a3, abcd.a2, abcd.a1, abcd.a0⟩ X).c,
      (Transform ⟨abcd.a3, abcd.a2, abcd.a1, abcd.a0⟩ X).b, abcd.a3⟩ := by
  have hlines := core_lines X ⟨abcd.a3, abcd.a2, abcd.a1, abcd.a0⟩
  have hb := congrArg Buf.b hlines
  have hc := congrArg Buf.c hlines
  have hd := congrArg Buf.d hlines
  simp only [registers] at hb hc hd
  unfold md5Body Transform
  simp only [hb, hc, hd]

end StarLib.Md5
