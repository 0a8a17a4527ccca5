import StarLib.SerialManager.Des

/-! # The DES variant round by round

`des_desfunc` as sixteen Feistel rounds between two networks of exchanges, and beside its round function the
one without the two slips of the source: sub-keys cooked from both raw words of a round, and the sixth table
with its digit in place. Where the slips change no value that a block meets, they change nothing.
-/

namespace StarLib.SerialManager
open Foundations
set_option autoImplicit false
set_option maxHeartbeats 250000
set_option maxRecDepth 120000

/-! ## Rounds between two networks -/

/-- The block function up to the rounds. -/
def initialNet (block : DWord × DWord) : DWord × DWord :=
  let p := exchange 4 0x0f0f0f0f block.1 block.2
  let p := exchange 16 0x0000ffff p.1 p.2
  let p := exchange 2 0x33333333 p.2 p.1
  let p := exchange 8 0x00ff00ff p.1 p.2
  let p := exchange 0 0xaaaaaaaa p.2 ((p.1 <<< 1) ||| ((p.1 >>> 31) &&& 1))
  ((p.1 <<< 1) ||| ((p.1 >>> 31) &&& 1), p.2)

/-- The block function after the rounds. -/
def finalNet (s : DWord × DWord) : DWord × DWord :=
  let p := exchange 0 0xaaaaaaaa s.1 ((s.2 <<< 31) ||| (s.2 >>> 1))
  let p := exchange 8 0x00ff00ff ((p.1 <<< 31) ||| (p.1 >>> 1)) p.2
  let p := exchange 2 0x33333333 p.1 p.2
  let p := exchange 16 0x0000ffff p.2 p.1
  exchange 4 0x0f0f0f0f p.1 p.2

/-- A Feistel round with the halves exchanged. -/
def halfRound (f : DWord → DWord) (s : DWord × DWord) : DWord × DWord := (s.2, s.1 ^^^ f s.2)

/-- The round function of round `i`. -/
def codeRound (keys : ℕ → DWord) (i : ℕ) (r : DWord) : DWord :=
  fval (((r <<< 28) ||| (r >>> 4)) ^^^ keys (2 * i)) (r ^^^ keys (2 * i + 1))

theorem desRounds_eq (keys : ℕ → DWord) (s : DWord × DWord) (n : ℕ) :
    forRange 0 n (desRound keys) s = forRange 0 (2 * n) (fun i => halfRound (codeRound keys i)) s := by
  induction n with
  | zero => rfl
  | succ n ih =>
    rw [Nat.mul_succ, forRange_succ (Nat.zero_le n), ih, forRange_succ (Nat.zero_le _), forRange_succ (Nat.zero_le _)]
    unfold desRound halfRound codeRound
    simp only [Nat.mul_add, Nat.mul_one, ← Nat.mul_assoc, Nat.reduceMul]

theorem desDesfunc_rounds (block : DWord × DWord) (keys : ℕ → DWord) :
    desDesfunc block keys =
      finalNet (forRange 0 16 (fun i => halfRound (codeRound keys i)) (initialNet block)) := by
  rw [← desRounds_eq keys (initialNet block) 8]
  rfl

/-! ## Without the slips -/

/-- The sixth table with `0x20000010` where the source has `0x02000010`. -/
def standardSP6 : List DWord := SP6.set 44 0x20000010

def standardFval (work work' : DWord) : DWord :=
  entrySP SP7 work ||| entrySP SP5 (work >>> 8) ||| entrySP SP3 (work >>> 16) ||| entrySP SP1 (work >>> 24) |||
    entrySP SP8 work' ||| entrySP standardSP6 (work' >>> 8) ||| entrySP SP4 (work' >>> 16) |||
    entrySP SP2 (work' >>> 24)

/-- The round function with the sub-keys from the raw words `2 * i` and `2 * i + 1`. -/
def standardRound (key : List Byte) (i : ℕ) (r : DWord) : DWord :=
  standardFval (((r <<< 28) ||| (r >>> 4)) ^^^ cook0 (rawKey key (2 * i)) (rawKey key (2 * i + 1)))
    (r ^^^ cook1 (rawKey key (2 * i)) (rawKey key (2 * i + 1)))

/-- The halves before round `n`. -/
def standardHalves (key : List Byte) (block : DWord × DWord) (n : ℕ) : DWord × DWord :=
  forRange 0 n (fun i => halfRound (standardRound key i)) (initialNet block)

def standardDesfunc (key : List Byte) (block : DWord × DWord) : DWord × DWord :=
  finalNet (standardHalves key block 16)

/-- In no round do the sub-keys and the table of the source change the value that the round function has on
the half it is applied to. -/
def Unaffected (key : List Byte) (block : DWord × DWord) : Prop :=
  ∀ i < 16, codeRound (scheduleWord key) i (standardHalves key block i).2 =
    standardRound key i (standardHalves key block i).2

def codeHalves (key : List Byte) (block : DWord × DWord) (n : ℕ) : DWord × DWord :=
  forRange 0 n (fun i => halfRound (codeRound (scheduleWord key) i)) (initialNet block)

/-- The condition is exactly that the halves agree before and after every round. -/
theorem unaffected_iff_halves (key : List Byte) (block : DWord × DWord) :
    Unaffected key block ↔ ∀ n ≤ 16, codeHalves key block n = standardHalves key block n := by
  have hcode : ∀ n, codeHalves key block (n + 1) = halfRound (codeRound (scheduleWord key) n) (codeHalves key block n) :=
    fun n => forRange_succ (Nat.zero_le n) ..
  have hstandard : ∀ n, standardHalves key block (n + 1) = halfRound (standardRound key n) (standardHalves key block n) :=
    fun n => forRange_succ (Nat.zero_le n) ..
  constructor
  · intro h n hn
    induction n with
    | zero =>
      unfold codeHalves standardHalves
      rw [forRange_of_le (Nat.le_refl 0), forRange_of_le (Nat.le_refl 0)]
    | succ n ih =>
      rw [hcode, hstandard, ih (by omega)]
      unfold halfRound
      rw [h n (by omega)]
  · intro h i hi
    have hnext := h (i + 1) (by omega)
    rw [hcode, hstandard, h i (by omega)] at hnext
    exact BitVec.xor_right_inj _ |>.mp (congrArg Prod.snd hnext)

theorem desDesfunc_of_unaffected {key : List Byte} {block : DWord × DWord} (h : Unaffected key block) :
    desDesfunc block (scheduleWord key) = standardDesfunc key block := by
  rw [desDesfunc_rounds, standardDesfunc, ← (unaffected_iff_halves key block).mp h 16 (Nat.le_refl 16)]
  rfl

end StarLib.SerialManager
