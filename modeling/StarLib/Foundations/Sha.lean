import StarLib.Foundations.Loop
import StarLib.Foundations.Words

/-! # The original SHA compression function

80 steps on five registers, on a schedule that is expanded from a block of 16 words without a rotation. Steps can be
undone, so that runs from different registers stay different.
-/

namespace Foundations.Sha
set_option autoImplicit false
set_option maxHeartbeats 250000
set_option maxRecDepth 120000

@[ext]
structure Registers where
  a : DWord
  b : DWord
  c : DWord
  d : DWord
  e : DWord
  deriving DecidableEq

/-! ## Steps -/

def ch (x y z : DWord) : DWord := (x &&& y) ||| (~~~x &&& z)

def parity (x y z : DWord) : DWord := x ^^^ y ^^^ z

def maj (x y z : DWord) : DWord := (x &&& y) ||| (x &&& z) ||| (y &&& z)

def f (n : ℕ) : DWord → DWord → DWord → DWord :=
  if n < 20 then ch else if n < 40 then parity else if n < 60 then maj else parity

def k (n : ℕ) : DWord :=
  if n < 20 then 0x5a827999 else if n < 40 then 0x6ed9eba1 else if n < 60 then 0x8f1bbcdc else 0xca62c1d6

def step (n : ℕ) (w : DWord) (s : Registers) : Registers :=
  ⟨rotl s.a 5 + f n s.b s.c s.d + s.e + w + k n, s.a, rotl s.b 30, s.c, s.d⟩

theorem rotl_thirty_inj {x y : DWord} (h : rotl x 30 = rotl y 30) : x = y := by
  rw [← rotl_rotl x (by decide) (by decide : 30 + 2 = 32), h, rotl_rotl y (by decide) rfl]

theorem step_inj {n : ℕ} {w : DWord} {s t : Registers} (h : step n w s = step n w t) : s = t := by
  obtain ⟨a, b, c, d, e⟩ := s
  obtain ⟨a', b', c', d', e'⟩ := t
  simp only [step, Registers.mk.injEq] at h
  obtain ⟨hsum, rfl, hb, rfl, rfl⟩ := h
  obtain rfl := rotl_thirty_inj hb
  simpa using hsum

/-! ## Runs -/

def schedule (block : ℕ → DWord) (n : ℕ) : DWord :=
  if n < 16 then block n
  else schedule block (n - 3) ^^^ schedule block (n - 8) ^^^ schedule block (n - 14) ^^^ schedule block (n - 16)
termination_by n

theorem schedule_first (block : ℕ → DWord) {n : ℕ} (hn : n < 16) : schedule block n = block n := by
  rw [schedule, if_pos hn]

theorem schedule_next (block : ℕ → DWord) {n : ℕ} (hn : 16 ≤ n) : schedule block n =
    schedule block (n - 3) ^^^ schedule block (n - 8) ^^^ schedule block (n - 14) ^^^ schedule block (n - 16) := by
  rw [schedule, if_neg (by omega)]

/-- The schedule of a block with one word `x` in some places has `x` or 0 everywhere. -/
theorem schedule_places {block : ℕ → DWord} {x : DWord} {m : ℕ → Bool} {hi : ℕ} (hfirst : ∀ n < 16, block n = if m n then x else 0)
    (hnext : ∀ n, 16 ≤ n → n < hi → m n = (m (n - 3) ^^ m (n - 8) ^^ m (n - 14) ^^ m (n - 16))) {n : ℕ} (hn : n < hi) :
    schedule block n = if m n then x else 0 := by
  induction n using Nat.strong_induction_on with
  | _ n ih =>
    by_cases h16 : n < 16
    · rw [schedule_first block h16, hfirst n h16]
    · rw [schedule_next block (by omega), hnext n (by omega) hn, ih (n - 3) (by omega) (by omega),
        ih (n - 8) (by omega) (by omega), ih (n - 14) (by omega) (by omega), ih (n - 16) (by omega) (by omega)]
      cases m (n - 3) <;> cases m (n - 8) <;> cases m (n - 14) <;> cases m (n - 16) <;> simp

/-- The registers after `n` steps. -/
def registers (block : ℕ → DWord) (s : Registers) (n : ℕ) : Registers :=
  forRange 0 n (fun n => step n (schedule block n)) s

theorem registers_succ (block : ℕ → DWord) (s : Registers) (n : ℕ) :
    registers block s (n + 1) = step n (schedule block n) (registers block s n) :=
  forRange_succ (Nat.zero_le n) _ s

theorem registers_inj {block : ℕ → DWord} {s t : Registers} {n : ℕ} (h : registers block s n = registers block t n) :
    s = t := by
  induction n with
  | zero => exact h
  | succ n ih =>
    rw [registers_succ, registers_succ] at h
    exact ih (step_inj h)

/-- The five words that a block makes of five words. -/
def compress (block : ℕ → DWord) (s : Registers) : List DWord :=
  let r := registers block s 80
  [s.a + r.a, s.b + r.b, s.c + r.c, s.d + r.d, s.e + r.e]

end Foundations.Sha
