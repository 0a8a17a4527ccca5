import StarLib.Foundations.Loop
import StarLib.Rijndael.TableFacts

/-! # `CRijndael::MakeKey`

The object, and the key expansion as the source runs it: the `KC` words of the last phase in `tk`,
every word copied into both round key arrays as soon as it exists, and the inverse of MixColumn
applied in place afterwards. Words hold the first row of a column in their most significant byte.
-/

namespace StarLib.Rijndael
open Foundations
set_option autoImplicit false
set_option maxHeartbeats 250000
set_option maxRecDepth 120000

/-- The object. Its work arrays `tk`, `a` and `t` are written before they are read in every method,
so they are local to the methods here. -/
structure CRijndael where
  bKeyInit : Bool
  Ke : ℕ → ℕ → DWord
  Kd : ℕ → ℕ → DWord
  keylength : ℕ
  blockSize : ℕ
  iROUNDS : ℕ
  chain0 : List Byte
  chain : List Byte

def construct (memory : CRijndael) : CRijndael := { memory with bKeyInit := false }

def szErrorMsg1 : String := "Object not Initialized"

def szErrorMsg2 : String := "Data not multiple of Block Size"

/-! ## Words -/

/-- `(tt >> n) & 0xFF` on an `int`, as a table index. -/
def byteIndex (tt : DWord) (n : ℕ) : Byte := ((tt.sshiftRight n) &&& 0xFF).setWidth 8

def loadWord (l : List Byte) (i : ℕ) : DWord :=
  ((l.getD (4 * i) 0).setWidth 32 <<< 24) ||| ((l.getD (4 * i + 1) 0).setWidth 32 <<< 16) |||
    ((l.getD (4 * i + 2) 0).setWidth 32 <<< 8) ||| (l.getD (4 * i + 3) 0).setWidth 32

def setCell (m : ℕ → ℕ → DWord) (i j : ℕ) (v : DWord) : ℕ → ℕ → DWord :=
  Function.update m i (Function.update (m i) j v)

/-! ## The expansion -/

structure Expansion where
  t : ℕ
  rconpointer : ℕ
  tk : ℕ → DWord
  Ke : ℕ → ℕ → DWord
  Kd : ℕ → ℕ → DWord

/-- `for(j=0; (j<KC)&&(t<ROUND_KEY_COUNT); j++,t++)`: the words of a phase go into both arrays. -/
def copyKeys (BC KC rounds count : ℕ) (e : Expansion) : Expansion :=
  forRange 0 (min KC (count - e.t)) (fun j e =>
    { e with Ke := setCell e.Ke (e.t / BC) (e.t % BC) (e.tk j),
             Kd := setCell e.Kd (rounds - e.t / BC) (e.t % BC) (e.tk j), t := e.t + 1 }) e

def chainKeys (lo hi : ℕ) (tk : ℕ → DWord) : ℕ → DWord :=
  forRange lo hi (fun i tk => Function.update tk i (tk i ^^^ tk (i - 1))) tk

/-- The round key evolution function. -/
def phi (KC rconpointer : ℕ) (tk : ℕ → DWord) : ℕ → DWord :=
  let tt := tk (KC - 1)
  let tk := Function.update tk 0 (tk 0 ^^^
    ((entry smS (byteIndex tt 16)).setWidth 32 <<< 24 ^^^ (entry smS (byteIndex tt 8)).setWidth 32 <<< 16 ^^^
      (entry smS (byteIndex tt 0)).setWidth 32 <<< 8 ^^^ (entry smS (byteIndex tt 24)).setWidth 32 ^^^
      (smRcon.getD rconpointer 0).setWidth 32 <<< 24))
  if KC ≠ 8 then chainKeys 1 KC tk
  else
    let tk := chainKeys 1 (KC / 2) tk
    let tt := tk (KC / 2 - 1)
    let tk := Function.update tk (KC / 2) (tk (KC / 2) ^^^
      ((entry smS (byteIndex tt 0)).setWidth 32 ^^^ (entry smS (byteIndex tt 8)).setWidth 32 <<< 8 ^^^
        (entry smS (byteIndex tt 16)).setWidth 32 <<< 16 ^^^ (entry smS (byteIndex tt 24)).setWidth 32 <<< 24))
    chainKeys (KC / 2 + 1) KC tk

/-- `while(t < ROUND_KEY_COUNT)`, which needs at most `count` turns. -/
def expand (BC KC rounds count : ℕ) (e : Expansion) : Expansion :=
  whileFuel (fun e => decide (e.t < count))
    (fun e => copyKeys BC KC rounds count
      { e with tk := phi KC e.rconpointer e.tk, rconpointer := e.rconpointer + 1 }) count e

def unmixWord (tt : DWord) : DWord :=
  entry smU1 (byteIndex tt 24) ^^^ entry smU2 (byteIndex tt 16) ^^^ entry smU3 (byteIndex tt 8) ^^^
    entry smU4 (byteIndex tt 0)

def unmixKeys (BC rounds : ℕ) (Kd : ℕ → ℕ → DWord) : ℕ → ℕ → DWord :=
  forRange 1 rounds (fun r Kd => forRange 0 BC (fun j Kd => setCell Kd r j (unmixWord (Kd r j))) Kd) Kd

def zeroKeys (BC rounds : ℕ) (m : ℕ → ℕ → DWord) : ℕ → ℕ → DWord :=
  forRange 0 (rounds + 1) (fun i m => forRange 0 BC (fun j m => setCell m i j 0) m) m

def startExpansion (BC KC rounds : ℕ) (key : List Byte) (o : CRijndael) : Expansion :=
  { t := 0, rconpointer := 0, tk := fill KC (loadWord key) (fun _ => 0),
    Ke := zeroKeys BC rounds o.Ke, Kd := zeroKeys BC rounds o.Kd }

def roundCount (keylength blockSize : ℕ) : ℕ :=
  match keylength with
  | 16 => if blockSize = 16 then 10 else if blockSize = 24 then 12 else 14
  | 24 => if blockSize ≠ 32 then 12 else 14
  | _ => 14

/-- `MakeKey`. A missing `key` is the null pointer. -/
def makeKey (key : Option (List Byte)) (chain : List Byte) (keylength blockSize : ℕ) (o : CRijndael) :
    Except String CRijndael :=
  match key with
  | none => .error "Empty key"
  | some key =>
    if ¬ (keylength = 16 ∨ keylength = 24 ∨ keylength = 32) then .error "Incorrect key length"
    else if ¬ (blockSize = 16 ∨ blockSize = 24 ∨ blockSize = 32) then .error "Incorrect block length"
    else
      let rounds := roundCount keylength blockSize
      let BC := blockSize / 4
      let count := (rounds + 1) * BC
      let KC := keylength / 4
      let e := copyKeys BC KC rounds count (startExpansion BC KC rounds key o)
      let e := expand BC KC rounds count e
      .ok { bKeyInit := true, Ke := e.Ke, Kd := unmixKeys BC rounds e.Kd, keylength := keylength,
            blockSize := blockSize, iROUNDS := rounds, chain0 := chain.take blockSize,
            chain := chain.take blockSize }

/-! ## Columns of words -/

def beColumn (w : DWord) : Column Byte := ⟨byteAt w 3, byteAt w 2, byteAt w 1, byteAt w 0⟩

theorem beColumn_xor (a b : DWord) : beColumn (a ^^^ b) = (beColumn a).xor (beColumn b) := by
  simp [beColumn, Column.xor]

theorem beColumn_beWord (c : Column Byte) : beColumn (beWord c) = c := by
  simp [beColumn, beWord]

theorem byteIndex_eq (tt : DWord) (k : ℕ) (hk : k < 4) : byteIndex tt (8 * k) = byteAt tt k := by
  apply BitVec.eq_of_getLsbD_eq
  intro i hi
  have hmask : (0xFF : DWord).getLsbD i = true := by
    interval_cases i <;> rfl
  have hin : 8 * k + i < 32 := by omega
  have hnot : ¬ 32 ≤ i := by omega
  simp only [byteIndex, getLsbD_byteAt, BitVec.getLsbD_setWidth, BitVec.getLsbD_and,
    BitVec.getLsbD_sshiftRight, hi, hin, hnot, hmask, decide_true, decide_false, Bool.true_and,
    Bool.and_true, Bool.not_false, if_true]

theorem byteIndex_zero (tt : DWord) : byteIndex tt 0 = byteAt tt 0 := byteIndex_eq tt 0 (by omega)
theorem byteIndex_one (tt : DWord) : byteIndex tt 8 = byteAt tt 1 := byteIndex_eq tt 1 (by omega)
theorem byteIndex_two (tt : DWord) : byteIndex tt 16 = byteAt tt 2 := byteIndex_eq tt 2 (by omega)
theorem byteIndex_three (tt : DWord) : byteIndex tt 24 = byteAt tt 3 := byteIndex_eq tt 3 (by omega)

theorem loadWord_eq (l : List Byte) (i : ℕ) : beColumn (loadWord l i) = columnAt l i := by
  unfold loadWord
  rw [pack_or]
  simp [beColumn, columnAt]

theorem beColumn_unmixWord (tt : DWord) : beColumn (unmixWord tt) = Column.invMix double (beColumn tt) := by
  unfold unmixWord
  rw [unmix_tables, beColumn_beWord, byteIndex_zero, byteIndex_one, byteIndex_two, byteIndex_three]
  rfl

theorem setCell_apply (m : ℕ → ℕ → DWord) (i j : ℕ) (v : DWord) (p q : ℕ) :
    setCell m i j v p q = if p = i ∧ q = j then v else m p q := by
  unfold setCell
  by_cases hp : p = i
  · subst hp
    by_cases hq : q = j <;> simp [hq]
  · simp [hp]

end StarLib.Rijndael
