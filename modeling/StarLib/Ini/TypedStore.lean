import StarLib.Foundations.Layouts
import StarLib.Ini.DataBlockRuns
import StarLib.Ini.Integers

/-! # A store of typed values

The typed functions of `CIni` together, over one file: integers, flags, points, rectangles and blocks of data under any
names. What they do comes to a map from names to values. Names count up to case.
-/

namespace StarLib.Ini
open Foundations
set_option autoImplicit false
set_option maxHeartbeats 250000
set_option maxRecDepth 120000

/-! ## Flags -/

/-- `_tcstol(s, NULL, base)`, saturating. -/
def tcstol (s : CString) (base : ℕ) : ℤ :=
  let signed := skipSign (s.dropWhile isSpace)
  let digits := (skipHex base signed.2).takeWhile fun c => decide (digitValue c < base)
  let n := numeralValue base (digits.map digitValue)
  if signed.1 then max (-0x80000000) (-n) else min 0x7fffffff n

def trueText : CString := "true".toList.map Char.toNat

def yesText : CString := "yes".toList.map Char.toNat

/-- `CIni::StringToBool`. -/
def stringToBool (lpString : CString) (bDefault : ℤ) : ℤ :=
  if lpString = [] then bDefault
  else if fold lpString = trueText ∨ fold lpString = yesText ∨ tcstol lpString 10 ≠ 0 then 1
  else 0

def getBool (build : Build) (fuel : ℕ) (f : Profile) (lpSection lpKey : Option CString) (bDefault : ℤ) : Option ℤ :=
  (getString build fuel f lpSection lpKey (some (emptyArray (numLen + 1))) numLen none).bind fun r =>
    r.2.map fun sz => stringToBool (numberText sz) bDefault

def writeBool (build : Build) (f : Profile) (lpSection lpKey : Option CString) (bValue : ℤ) : Option (Bool × Profile) :=
  writeInt build f lpSection lpKey (if bValue ≠ 0 then 1 else 0) 10

def invertBool (build : Build) (fuel : ℕ) (f : Profile) (lpSection lpKey : Option CString) : Option (Bool × Profile) :=
  (getBool build fuel f lpSection lpKey 0).bind fun b => writeBool build f lpSection lpKey (if b ≠ 0 then 0 else 1)

/-! ## Structures as blocks -/

structure POINT where
  x : DWORD
  y : DWORD
  deriving DecidableEq

structure RECT where
  left : DWORD
  top : DWORD
  right : DWORD
  bottom : DWORD
  deriving DecidableEq

def pointLayout : Layout POINT :=
  (Layout.word.pair Layout.word).along ⟨fun pt => (pt.x, pt.y), fun p => ⟨p.1, p.2⟩, fun _ => rfl, fun _ => rfl⟩

def rectLayout : Layout RECT :=
  ((Layout.word.pair Layout.word).pair (Layout.word.pair Layout.word)).along
    ⟨fun rc => ((rc.left, rc.top), (rc.right, rc.bottom)), fun p => ⟨p.1.1, p.1.2, p.2.1, p.2.2⟩, fun _ => rfl,
      fun _ => rfl⟩

section Structures
variable {β : Type} (L : Layout β)

/-- The bytes of a structure. -/
def structBytes (x : β) : List Byte := (List.range L.size).map (L.byte x)

def writeStruct (build : Build) (old : CString) (f : Profile) (lpSection lpKey : Option CString) (x : β) :
    Option (Bool × Profile) :=
  writeDataBlock build old f lpSection lpKey (some (structBytes L x))

/-- The structure is read over what is in memory there. -/
def getStruct (fuel : ℕ) (memory : ℕ → Byte) (f : Profile) (lpSection lpKey : Option CString) (xDefault : β) : Option β :=
  (getDataBlock fuel f lpSection lpKey (some ⟨L.size, memory, true⟩) L.size 0).bind fun r =>
    r.2.map fun b => if r.1 ≠ L.size then xDefault else L.ofBytes b.cell

end Structures

def writePoint (build : Build) (old : CString) (f : Profile) (lpSection lpKey : Option CString) (pt : POINT) :
    Option (Bool × Profile) :=
  writeStruct pointLayout build old f lpSection lpKey pt

def getPoint (fuel : ℕ) (memory : ℕ → Byte) (f : Profile) (lpSection lpKey : Option CString) (ptDefault : POINT) :
    Option POINT :=
  getStruct pointLayout fuel memory f lpSection lpKey ptDefault

def writeRect (build : Build) (old : CString) (f : Profile) (lpSection lpKey : Option CString) (rc : RECT) :
    Option (Bool × Profile) :=
  writeStruct rectLayout build old f lpSection lpKey rc

def getRect (fuel : ℕ) (memory : ℕ → Byte) (f : Profile) (lpSection lpKey : Option CString) (rcDefault : RECT) :
    Option RECT :=
  getStruct rectLayout fuel memory f lpSection lpKey rcDefault

/-- The file with something else, or nothing, under a name. -/
def Profile.put (f : Profile) (sec key : CString) (cell : Option CString) : Profile :=
  Function.update f sec (Function.update (f sec) key cell)

/-- `CIni::DeleteKey`. -/
def Profile.deleteKey (f : Profile) (lpSection lpKey : CString) : Bool × Profile := (true, f.put lpSection lpKey none)

/-! ## Requests -/

inductive Request where
  | writeInt (nValue : DWORD) (nBase : ℤ)
  | writeUInt (nValue : DWORD) (nBase : ℤ)
  | increaseInt (nIncrease : DWORD) (nBase : ℤ)
  | increaseUInt (nIncrease : DWORD) (nBase : ℤ)
  | writeBool (bValue : ℤ)
  | invertBool
  | writePoint (pt : POINT)
  | writeRect (rc : RECT)
  | writeDataBlock (data : List Byte)
  | appendDataBlock (data : List Byte)
  | deleteKey

/-- A request under a name; `old` is what its buffer is over. -/
structure Step where
  sec : CString
  key : CString
  request : Request
  old : CString

def Request.run (build : Build) (fuel : ℕ) (sec key old : CString) (f : Profile) : Request → Option (Bool × Profile)
  | .writeInt nValue nBase => Ini.writeInt build f (some sec) (some key) nValue nBase
  | .writeUInt nValue nBase => Ini.writeUInt build f (some sec) (some key) nValue nBase
  | .increaseInt nIncrease nBase => Ini.increaseInt build fuel f (some sec) (some key) nIncrease nBase
  | .increaseUInt nIncrease nBase => Ini.increaseUInt build fuel f (some sec) (some key) nIncrease nBase
  | .writeBool bValue => Ini.writeBool build f (some sec) (some key) bValue
  | .invertBool => Ini.invertBool build fuel f (some sec) (some key)
  | .writePoint pt => Ini.writePoint build old f (some sec) (some key) pt
  | .writeRect rc => Ini.writeRect build old f (some sec) (some key) rc
  | .writeDataBlock data => Ini.writeDataBlock build old f (some sec) (some key) (some data)
  | .appendDataBlock data => Ini.appendDataBlock build old fuel f (some sec) (some key) (some data)
  | .deleteKey => some (f.deleteKey sec key)

/-- Requests one after the other, and whether every one of them returned `TRUE`. -/
def session (build : Build) (fuel : ℕ) : List Step → Profile → Option (Bool × Profile)
  | [], f => some (true, f)
  | s :: steps, f =>
    (s.request.run build fuel (fold s.sec) (fold s.key) s.old f).bind fun r =>
      (session build fuel steps r.2).map fun q => (r.1 && q.1, q.2)

/-! ## The map of values -/

inductive Value where
  | number (nBase : ℤ) (v : DWORD)
  | flag (b : Bool)
  | point (pt : POINT)
  | rect (rc : RECT)
  | block (data : List Byte)

abbrev Store := CString → CString → Option Value

/-- There is a text for the bytes that can be read. -/
def fits (data : List Byte) : Bool := decide (data ≠ []) && decide (2 * data.length + 1 < 2 ^ 32 - threshold)

/-- The number that is there, where no number was 0. -/
def Value.numberIn (nBase : ℤ) : Option Value → Option DWORD
  | none => some 0
  | some (.number nBase' v) => if validateBase nBase' = validateBase nBase then some v else none
  | some _ => none

def Value.flagIn : Option Value → Option Bool
  | none => some false
  | some (.flag b) => some b
  | some _ => none

def Value.blockIn : Option Value → Option (List Byte)
  | none => some []
  | some (.block data) => some data
  | some _ => none

/-- Whether a number can be printed. -/
def printable (build : Build) (nBase : ℤ) : Bool := !(decide (build = .plain) && decide (nBase = 16))

/-- What a request makes of the value under its name; `none` where it is not meant for such a value. -/
def Request.next (build : Build) (value : Option Value) : Request → Option (Option Value)
  | .writeInt nValue nBase | .writeUInt nValue nBase =>
    if printable build nBase then some (some (.number nBase nValue)) else none
  | .increaseInt nIncrease nBase | .increaseUInt nIncrease nBase =>
    if printable build nBase then (Value.numberIn nBase value).map fun v => some (.number nBase (v + nIncrease)) else none
  | .writeBool bValue => some (some (.flag (decide (bValue ≠ 0))))
  | .invertBool => (Value.flagIn value).map fun b => some (.flag !b)
  | .writePoint pt => some (some (.point pt))
  | .writeRect rc => some (some (.rect rc))
  | .writeDataBlock data => if fits data then some (some (.block data)) else none
  | .appendDataBlock data =>
    (Value.blockIn value).bind fun start =>
      if data ≠ [] ∧ fits (start ++ data) then some (some (.block (start ++ data))) else none
  | .deleteKey => some none

def Store.run (build : Build) : List Step → Store → Option Store
  | [], σ => some σ
  | s :: steps, σ =>
    (s.request.next build (σ (fold s.sec) (fold s.key))).bind fun value =>
      Store.run build steps (Function.update σ (fold s.sec) (Function.update (σ (fold s.sec)) (fold s.key) value))

/-! ## The texts of values -/

/-- A text that stands for a flag, whatever the default is. -/
structure FlagText (b : Bool) (text : CString) : Prop where
  fits : text.length < numLen
  plain : ∀ c ∈ text, c ≠ 0
  value : ∀ bDefault, stringToBool text bDefault = if b then 1 else 0

inductive Value.Text : Value → CString → Prop
  | number {nBase : ℤ} {v : DWORD} {text : CString} (h : NumberText (validateBase nBase) v text) :
    Text (.number nBase v) text
  | flag {b : Bool} {text : CString} (h : FlagText b text) : Text (.flag b) text
  | point (pt : POINT) : Text (.point pt) (hexOf (structBytes pointLayout pt))
  | rect (rc : RECT) : Text (.rect rc) (hexOf (structBytes rectLayout rc))
  | block {data : List Byte} (h : Readable (hexOf data)) : Text (.block data) (hexOf data)

/-- What a file has under a name, for a value or none. -/
inductive Value.Stored : Option Value → Option CString → Prop
  | absent : Stored none none
  | text {v : Value} {text : CString} (h : v.Text text) : Stored (some v) (some text)

def Represents (f : Profile) (σ : Store) : Prop := ∀ sec key, Value.Stored (σ sec key) (f sec key)

theorem Represents.put {f : Profile} {σ : Store} (h : Represents f σ) (sec key : CString) {value : Option Value}
    {cell : Option CString} (hcell : Value.Stored value cell) :
    Represents (f.put sec key cell) (Function.update σ sec (Function.update (σ sec) key value)) := by
  intro s k
  unfold Profile.put
  by_cases hs : s = sec
  · subst hs
    simp only [Function.update_self]
    by_cases hk : k = key
    · subst hk
      simpa only [Function.update_self] using hcell
    · simpa only [Function.update_of_ne hk] using h s k
  · simpa only [Function.update_of_ne hs] using h s k

/-! ## Reading -/

section Reading
variable (build : Build) {f : Profile} {sec key text : CString}

/-- A short text, or none, comes into an array as it is. -/
theorem shortText_read (htext : (f sec key).getD [] = text) (hfits : text.length < numLen) (hplain : ∀ c ∈ text, c ≠ 0) :
    ∃ sz : Buf TCHAR, ∃ n turns, (∀ fuel, turns ≤ fuel →
      getString build fuel f (some sec) (some key) (some (emptyArray (numLen + 1))) numLen none = some (n, some sz)) ∧
      numberText sz = text ∧ (sz.cell 0 = 0 ↔ text = []) := by
  have hnum : numLen = 64 := rfl
  have hthreshold : threshold = 512 := rfl
  have hread : Readable text := by
    unfold Readable
    omega
  obtain ⟨turns, hturns⟩ : ∃ turns, ∀ fuel, turns ≤ fuel →
      getString build fuel f (some sec) (some key) (some (emptyArray (numLen + 1))) numLen none = _ :=
    getString_readable htext hread
  have hroom : numLen ≤ ((emptyArray (numLen + 1)).put 0 0).len := Nat.le_succ numLen
  obtain ⟨sz, hsz, -, hin, hbegins⟩ := boundedCopy_short build hroom rfl hfits
  rw [hsz, Option.map_some] at hturns
  refine ⟨sz, _, turns, hturns, (hbegins.holds hin).readStr (begins_terminated_iff.1 hbegins).1 hplain 0, ?_⟩
  have hcell := hbegins.2 0 (by rw [List.length_append]; exact Nat.succ_pos _)
  cases text with
  | nil => exact iff_of_true (Option.some.inj hcell).symm rfl
  | cons c rest =>
    refine iff_of_false ?_ (List.cons_ne_nil c rest)
    rw [← Option.some.inj hcell]
    exact hplain c List.mem_cons_self

theorem getInt_read (htext : (f sec key).getD [] = text) (hfits : text.length < numLen) (hplain : ∀ c ∈ text, c ≠ 0)
    (nDefault : DWORD) (nBase : ℤ) :
    EndsWith (fun fuel => getInt build fuel f (some sec) (some key) nDefault nBase)
      (if text = [] then nDefault else tcstoul text (validateBase nBase)) := by
  obtain ⟨sz, n, turns, hturns, hstring, hfirst⟩ := shortText_read build htext hfits hplain
  refine ⟨turns, fun fuel hfuel => ?_⟩
  simp only [getInt, hturns fuel hfuel, Option.bind_some, Option.map_some, hfirst, hstring]

theorem getBool_read (htext : (f sec key).getD [] = text) (hfits : text.length < numLen) (hplain : ∀ c ∈ text, c ≠ 0)
    (bDefault : ℤ) :
    EndsWith (fun fuel => getBool build fuel f (some sec) (some key) bDefault) (stringToBool text bDefault) := by
  obtain ⟨sz, n, turns, hturns, hstring, -⟩ := shortText_read build htext hfits hplain
  refine ⟨turns, fun fuel hfuel => ?_⟩
  simp only [getBool, hturns fuel hfuel, Option.bind_some, Option.map_some, hstring]

/-- With enough turns a text is read whole. -/
theorem dynamic_read (htext : (f sec key).getD [] = text) (hread : Readable text) :
    EndsWith (fun fuel => getStringDynamic fuel f (some sec) (some key) none) text := by
  refine ⟨text.length + 1, fun fuel hfuel => getStringDynamic_readable htext hread ?_⟩
  have hthreshold : threshold = 512 := rfl
  rw [hthreshold]
  omega

theorem structBytes_length {β : Type} (L : Layout β) (x : β) : (structBytes L x).length = L.size := by simp [structBytes]

theorem structBytes_getD {β : Type} (L : Layout β) (x : β) {i : ℕ} (hi : i < L.size) (c : Byte) :
    (structBytes L x).getD i c = L.byte x i := by
  simp [structBytes, List.getD_eq_getElem?_getD, hi]

theorem structText_readable {β : Type} (L : Layout β) (hsize : L.size < 2 ^ 16) (x : β) :
    Readable (hexOf (structBytes L x)) := by
  unfold Readable
  rw [hexOf_length, structBytes_length]
  have hthreshold : threshold = 512 := rfl
  omega

theorem getStruct_read {β : Type} (L : Layout β) {x : β} (hread : Readable (hexOf (structBytes L x)))
    (htext : f sec key = some (hexOf (structBytes L x))) (memory : ℕ → Byte) (xDefault : β) :
    EndsWith (fun fuel => getStruct L fuel memory f (some sec) (some key) xDefault) x := by
  obtain ⟨turns, hturns⟩ := dynamic_read (stored_text htext) hread
  refine ⟨turns, fun fuel hfuel => ?_⟩
  have hlength := structBytes_length L x
  have hall : ((structBytes L x).drop 0).take L.size = structBytes L x := by
    rw [List.drop_zero, List.take_of_length_le hlength.le]
  have hroom : L.size ≤ (⟨L.size, memory, true⟩ : Buf Byte).len := le_rfl
  obtain ⟨b, hb, hwindow⟩ := getDataBlock_window (hturns fuel hfuel) hread L.size 0 hroom
  rw [hall] at hb hwindow
  have hvalue : L.ofBytes b.cell = x := by
    refine L.ext fun i hi => ?_
    rw [L.byte_ofBytes _ i hi, hwindow.cells, structBytes_getD L x hi]
  simp only [getStruct, hb, Option.bind_some, Option.map_some, hlength, ne_eq, not_true_eq_false, if_false, hvalue]

theorem getStruct_absent {β : Type} (L : Layout β) (hsize : L.size ≠ 0) (htext : f sec key = none) (memory : ℕ → Byte)
    (xDefault : β) : EndsWith (fun fuel => getStruct L fuel memory f (some sec) (some key) xDefault) xDefault := by
  have hempty : (f sec key).getD [] = [] := by rw [htext]; rfl
  obtain ⟨turns, hturns⟩ := dynamic_read hempty (by unfold Readable; decide)
  refine ⟨turns, fun fuel hfuel => ?_⟩
  have hstring := hturns fuel hfuel
  simp only at hstring
  simp [getStruct, getDataBlock, hstring, hsize.symm]

end Reading

/-! ## Writing -/

section Writing
variable {build : Build} {f : Profile} {sec key : CString}

/-- The request ends, returns `TRUE`, and leaves `cell` under the name. -/
def Puts (build : Build) (sec key old : CString) (f : Profile) (r : Request) (cell : Option CString) : Prop :=
  EndsWith (fun fuel => r.run build fuel sec key old f) (true, f.put sec key cell)

theorem printable_iff {nBase : ℤ} : printable build nBase = true ↔ ¬ (build = .plain ∧ nBase = 16) := by
  unfold printable
  rw [← Bool.decide_and, ← decide_not]
  exact decide_eq_true_iff

theorem writeInt_puts {nBase : ℤ} (h : printable build nBase = true) (f : Profile) (sec key : CString) (v : DWORD) :
    ∃ text, writeInt build f (some sec) (some key) v nBase = some (true, f.put sec key (some text)) ∧
      NumberText (validateBase nBase) v text := by
  obtain ⟨text, b, hb, -, hstring, hnumber⟩ := (intToString_printed (printable_iff.1 h) v).string
  refine ⟨text, ?_, hnumber⟩
  rw [writeInt, hb, Option.map_some, hstring]
  rfl

theorem writeUInt_puts {nBase : ℤ} (h : printable build nBase = true) (f : Profile) (sec key : CString) (v : DWORD) :
    ∃ text, writeUInt build f (some sec) (some key) v nBase = some (true, f.put sec key (some text)) ∧
      NumberText (validateBase nBase) v text := by
  obtain ⟨text, b, hb, -, hstring, hnumber⟩ := (uIntToString_printed (printable_iff.1 h) v).string
  refine ⟨text, ?_, hnumber⟩
  rw [writeUInt, hb, Option.map_some, hstring]
  rfl

/-- The default counts for the empty string only. -/
theorem stringToBool_default {text : CString} (h : text ≠ []) (bDefault : ℤ) :
    stringToBool text bDefault = stringToBool text 0 := by
  unfold stringToBool
  rw [if_neg h, if_neg h]

/-- `WriteBool` writes a single digit. -/
theorem writeBool_puts (build : Build) (f : Profile) (sec key : CString) (bValue : ℤ) :
    ∃ text, writeBool build f (some sec) (some key) bValue = some (true, f.put sec key (some text)) ∧
      FlagText (decide (bValue ≠ 0)) text := by
  have hdigit : ∀ d : DWORD, (signedText d).length < numLen → (∀ c ∈ signedText d, c ≠ 0) →
      writeInt build f (some sec) (some key) d 10 = some (true, f.put sec key (some (signedText d))) := by
    intro d hfits hplain
    have hprint : intToString build d (emptyArray (numLen + 1)) 10 =
        stprintf build (emptyArray (numLen + 1)) (signedText d) := rfl
    obtain ⟨b, hb, hholds⟩ := stprintf_holds build (emptyArray_holds (numLen + 1)) hfits
    have hstring : numberText b = signedText d := hholds.readStr (hfits.trans (Nat.lt_succ_self _)) hplain 0
    rw [writeInt, hprint, hb, Option.map_some, hstring]
    rfl
  by_cases hzero : bValue = 0
  · refine ⟨signedText 0, ?_, ?_⟩
    · rw [writeBool, if_neg (not_not.2 hzero)]
      exact hdigit 0 (by decide) (by decide)
    · rw [decide_eq_false (not_not.2 hzero)]
      exact ⟨by decide, by decide, fun d => (stringToBool_default (by decide) d).trans (by decide)⟩
  · refine ⟨signedText 1, ?_, ?_⟩
    · rw [writeBool, if_pos hzero]
      exact hdigit 1 (by decide) (by decide)
    · rw [decide_eq_true hzero]
      exact ⟨by decide, by decide, fun d => (stringToBool_default (by decide) d).trans (by decide)⟩

theorem writeDataBlock_puts (build : Build) (old : CString) (f : Profile) (sec key : CString) {data : List Byte}
    (hne : data ≠ []) (hlength : data.length < 2 ^ 31) :
    writeDataBlock build old f (some sec) (some key) (some data) = some (true, f.put sec key (some (hexOf data))) := by
  simp only [writeDataBlock]
  rw [hexString_nonempty build old hne hlength, Option.map_some]
  rfl

theorem writeStruct_puts {β : Type} (L : Layout β) (hsize : 0 < L.size ∧ L.size < 2 ^ 31) (build : Build) (old : CString)
    (f : Profile) (sec key : CString) (x : β) :
    writeStruct L build old f (some sec) (some key) x = some (true, f.put sec key (some (hexOf (structBytes L x)))) := by
  refine writeDataBlock_puts build old f sec key (List.ne_nil_of_length_pos ?_) ?_
  · rw [structBytes_length]
    exact hsize.1
  · rw [structBytes_length]
    exact hsize.2

theorem fits_iff {data : List Byte} : fits data = true ↔ data ≠ [] ∧ Readable (hexOf data) := by
  unfold fits Readable
  rw [hexOf_length, ← Bool.decide_and]
  exact decide_eq_true_iff

theorem fits_length {data : List Byte} (h : fits data = true) : data.length < 2 ^ 31 := by
  have hread := (fits_iff.1 h).2
  unfold Readable at hread
  rw [hexOf_length] at hread
  omega

/-- What is appended to nothing becomes the text. -/
theorem appendDataBlock_puts (build : Build) (old : CString) {text : CString} (htext : (f sec key).getD [] = text)
    {data : List Byte} (hne : data ≠ []) (hlength : data.length < 2 ^ 31) (hread : Readable (text ++ hexOf data)) :
    EndsWith (fun fuel => appendDataBlock build old fuel f (some sec) (some key) (some data))
      (true, f.put sec key (some (text ++ hexOf data))) := by
  obtain ⟨turns, hturns⟩ := dynamic_read htext hread.start
  refine ⟨turns, fun fuel hfuel => ?_⟩
  have hstring := hturns fuel hfuel
  have hmax : (text ++ hexOf data).length + 1 < 2 ^ 32 - threshold := hread
  have hsum : (text ++ hexOf data).length = text.length + (hexOf data).length := List.length_append
  simp only at hstring ⊢
  simp only [appendDataBlock, hexString_nonempty build old hne hlength, Option.bind_some, appendString, hstring]
  rw [dword_of_lt (by omega), if_pos (by omega)]
  rfl

end Writing

/-! ## One request -/

section Requests
variable {build : Build} {f : Profile} {sec key : CString} {value : Option Value}

theorem number_read (hcell : Value.Stored value (f sec key)) {nBase : ℤ} {v : DWORD}
    (hv : Value.numberIn nBase value = some v) :
    EndsWith (fun fuel => getInt build fuel f (some sec) (some key) 0 nBase) v := by
  generalize hc : f sec key = cell at hcell
  cases hcell with
  | absent =>
    cases hv
    have hempty : (f sec key).getD [] = [] := by rw [hc]; rfl
    exact getInt_read build hempty (by decide) (by decide) 0 nBase
  | text h =>
    cases h with
    | number h =>
      obtain ⟨hbase, hv⟩ := Option.ite_none_right_eq_some.1 hv
      cases hv
      rw [hbase] at h
      exact getInt_text hc h 0
    | flag h => exact absurd hv (Option.some_ne_none v).symm
    | point pt => exact absurd hv (Option.some_ne_none v).symm
    | rect rc => exact absurd hv (Option.some_ne_none v).symm
    | block h => exact absurd hv (Option.some_ne_none v).symm

theorem flag_read (hcell : Value.Stored value (f sec key)) {b : Bool} (hb : Value.flagIn value = some b) :
    EndsWith (fun fuel => getBool build fuel f (some sec) (some key) 0) (if b then 1 else 0) := by
  generalize hc : f sec key = cell at hcell
  cases hcell with
  | absent =>
    cases hb
    have hempty : (f sec key).getD [] = [] := by rw [hc]; rfl
    exact getBool_read build hempty (by decide) (by decide) 0
  | text h =>
    cases h with
    | flag h =>
      cases hb
      rw [← h.value 0]
      exact getBool_read build (by rw [hc]; rfl) h.fits h.plain 0
    | number h => exact absurd hb (Option.some_ne_none b).symm
    | point pt => exact absurd hb (Option.some_ne_none b).symm
    | rect rc => exact absurd hb (Option.some_ne_none b).symm
    | block h => exact absurd hb (Option.some_ne_none b).symm

theorem block_text (hcell : Value.Stored value (f sec key)) {start : List Byte}
    (hstart : Value.blockIn value = some start) :
    (f sec key).getD [] = hexOf start := by
  generalize f sec key = cell at hcell
  cases hcell with
  | absent =>
    cases hstart
    rfl
  | text h =>
    cases h with
    | block h =>
      cases hstart
      rfl
    | number h => exact absurd hstart (Option.some_ne_none start).symm
    | flag h => exact absurd hstart (Option.some_ne_none start).symm
    | point pt => exact absurd hstart (Option.some_ne_none start).symm
    | rect rc => exact absurd hstart (Option.some_ne_none start).symm

theorem EndsWith.const {α : Type} (a : α) : EndsWith (fun _ => some a) a := ⟨0, fun _ _ => rfl⟩

/-- A result that is handed on. -/
theorem EndsWith.bind {α β : Type} {loop : ℕ → Option α} {next : ℕ → α → Option β} {a : α} {b : β} (h : EndsWith loop a)
    (hnext : EndsWith (fun fuel => next fuel a) b) : EndsWith (fun fuel => (loop fuel).bind (next fuel)) b := by
  obtain ⟨turns, hturns⟩ := h
  obtain ⟨turns', hturns'⟩ := hnext
  refine ⟨max turns turns', fun fuel hfuel => ?_⟩
  have hfirst := hturns fuel ((Nat.le_max_left _ _).trans hfuel)
  have hsecond := hturns' fuel ((Nat.le_max_right _ _).trans hfuel)
  simp only at hfirst hsecond ⊢
  rw [hfirst]
  exact hsecond

theorem request_puts (hcell : Value.Stored value (f sec key)) (old : CString) {r : Request} {value' : Option Value}
    (hnext : r.next build value = some value') :
    ∃ cell, Puts build sec key old f r cell ∧ Value.Stored value' cell := by
  cases r with
  | writeInt nValue nBase =>
    obtain ⟨hprint, hvalue⟩ := Option.ite_none_right_eq_some.1 hnext
    obtain ⟨text, hwrite, hnumber⟩ := writeInt_puts hprint f sec key nValue
    cases hvalue
    exact ⟨some text, ⟨0, fun _ _ => hwrite⟩, .text (.number hnumber)⟩
  | writeUInt nValue nBase =>
    obtain ⟨hprint, hvalue⟩ := Option.ite_none_right_eq_some.1 hnext
    obtain ⟨text, hwrite, hnumber⟩ := writeUInt_puts hprint f sec key nValue
    cases hvalue
    exact ⟨some text, ⟨0, fun _ _ => hwrite⟩, .text (.number hnumber)⟩
  | increaseInt nIncrease nBase =>
    obtain ⟨hprint, hmap⟩ := Option.ite_none_right_eq_some.1 hnext
    obtain ⟨v, hv, hvalue⟩ := Option.map_eq_some_iff.1 hmap
    obtain ⟨text, hwrite, hnumber⟩ := writeInt_puts hprint f sec key (v + nIncrease)
    cases hvalue
    refine ⟨some text, ?_, .text (.number hnumber)⟩
    exact (number_read hcell hv).bind ⟨0, fun _ _ => hwrite⟩
  | increaseUInt nIncrease nBase =>
    obtain ⟨hprint, hmap⟩ := Option.ite_none_right_eq_some.1 hnext
    obtain ⟨v, hv, hvalue⟩ := Option.map_eq_some_iff.1 hmap
    obtain ⟨text, hwrite, hnumber⟩ := writeUInt_puts hprint f sec key (v + nIncrease)
    cases hvalue
    refine ⟨some text, ?_, .text (.number hnumber)⟩
    exact (number_read hcell hv).bind ⟨0, fun _ _ => hwrite⟩
  | writeBool bValue =>
    obtain ⟨text, hwrite, hflag⟩ := writeBool_puts build f sec key bValue
    cases hnext
    exact ⟨some text, ⟨0, fun _ _ => hwrite⟩, .text (.flag hflag)⟩
  | invertBool =>
    obtain ⟨b, hb, hvalue⟩ := Option.map_eq_some_iff.1 hnext
    obtain ⟨text, hwrite, hflag⟩ := writeBool_puts build f sec key (if (if b then (1 : ℤ) else 0) ≠ 0 then 0 else 1)
    cases hvalue
    refine ⟨some text, (flag_read hcell hb).bind ⟨0, fun _ _ => hwrite⟩, .text (.flag ?_)⟩
    cases b with
    | true => exact hflag
    | false => exact hflag
  | writePoint pt =>
    cases hnext
    exact ⟨_, ⟨0, fun _ _ => writeStruct_puts pointLayout (by decide) build old f sec key pt⟩, .text (.point pt)⟩
  | writeRect rc =>
    cases hnext
    exact ⟨_, ⟨0, fun _ _ => writeStruct_puts rectLayout (by decide) build old f sec key rc⟩, .text (.rect rc)⟩
  | writeDataBlock data =>
    obtain ⟨hfits, hvalue⟩ := Option.ite_none_right_eq_some.1 hnext
    cases hvalue
    obtain ⟨hne, hread⟩ := fits_iff.1 hfits
    exact ⟨_, ⟨0, fun _ _ => writeDataBlock_puts build old f sec key hne (fits_length hfits)⟩, .text (.block hread)⟩
  | appendDataBlock data =>
    obtain ⟨start, hstart, hrest⟩ := Option.bind_eq_some_iff.1 hnext
    obtain ⟨⟨hne, hfits⟩, hvalue⟩ := Option.ite_none_right_eq_some.1 hrest
    cases hvalue
    have hread := (fits_iff.1 hfits).2
    have hlength := fits_length hfits
    rw [List.length_append] at hlength
    have hputs := appendDataBlock_puts build old (block_text hcell hstart) hne (by omega) (by rwa [← hexOf_append])
    rw [← hexOf_append] at hputs
    exact ⟨_, hputs, .text (.block hread)⟩
  | deleteKey =>
    cases hnext
    exact ⟨none, EndsWith.const _, .absent⟩

end Requests

/-! ## Sessions -/

section Sessions
variable {build : Build} {f : Profile} {σ σ' : Store}

theorem session_represents {steps : List Step} (h : Represents f σ) (hrun : σ.run build steps = some σ') :
    ∃ f', EndsWith (fun fuel => session build fuel steps f) (true, f') ∧ Represents f' σ' := by
  induction steps generalizing f σ with
  | nil =>
    cases hrun
    exact ⟨f, EndsWith.const _, h⟩
  | cons s steps ih =>
    obtain ⟨value, hnext, hrest⟩ := Option.bind_eq_some_iff.1 hrun
    obtain ⟨cell, hputs, hcell⟩ := request_puts (h (fold s.sec) (fold s.key)) s.old hnext
    obtain ⟨f', hsession, hrep⟩ := ih (h.put (fold s.sec) (fold s.key) hcell) hrest
    refine ⟨f', hputs.bind ?_, hrep⟩
    obtain ⟨turns, hturns⟩ := hsession
    refine ⟨turns, fun fuel hfuel => ?_⟩
    have hlater := hturns fuel hfuel
    simp only at hlater ⊢
    rw [hlater]
    rfl

/-- What the functions that read return for a name with this value. -/
inductive Answers (build : Build) (f : Profile) (sec key : CString) : Option Value → Prop
  | absent
      (int : ∀ n nBase, EndsWith (fun fuel => getInt build fuel f (some sec) (some key) n nBase) n)
      (uint : ∀ n nBase, EndsWith (fun fuel => getUInt build fuel f (some sec) (some key) n nBase) n)
      (bool : ∀ b, EndsWith (fun fuel => getBool build fuel f (some sec) (some key) b) b)
      (point : ∀ memory pt, EndsWith (fun fuel => getPoint fuel memory f (some sec) (some key) pt) pt)
      (rect : ∀ memory rc, EndsWith (fun fuel => getRect fuel memory f (some sec) (some key) rc) rc) :
      Answers build f sec key none
  | number {nBase : ℤ} {v : DWORD}
      (int : ∀ n nBase', validateBase nBase' = validateBase nBase →
        EndsWith (fun fuel => getInt build fuel f (some sec) (some key) n nBase') v)
      (uint : ∀ n nBase', validateBase nBase' = validateBase nBase →
        EndsWith (fun fuel => getUInt build fuel f (some sec) (some key) n nBase') v) :
      Answers build f sec key (some (.number nBase v))
  | flag {b : Bool}
      (bool : ∀ d, EndsWith (fun fuel => getBool build fuel f (some sec) (some key) d) (if b then 1 else 0)) :
      Answers build f sec key (some (.flag b))
  | point {pt : POINT}
      (point : ∀ memory d, EndsWith (fun fuel => getPoint fuel memory f (some sec) (some key) d) pt) :
      Answers build f sec key (some (.point pt))
  | rect {rc : RECT} (rect : ∀ memory d, EndsWith (fun fuel => getRect fuel memory f (some sec) (some key) d) rc) :
      Answers build f sec key (some (.rect rc))
  | block {data : List Byte} (block : ∀ (n k : ℕ) (dest : Buf Byte), n ≤ dest.len → ∃ dest',
      EndsWith (fun fuel => getDataBlock fuel f (some sec) (some key) (some dest) n k)
        (((data.drop k).take n).length, some dest') ∧ Window ((data.drop k).take n) dest dest') :
      Answers build f sec key (some (.block data))

theorem Represents.answers (h : Represents f σ) (build : Build) (sec key : CString) :
    Answers build f sec key (σ sec key) := by
  have hcell := h sec key
  generalize hc : f sec key = cell at hcell
  generalize σ sec key = value at hcell
  cases hcell with
  | absent =>
    have hempty : (f sec key).getD [] = [] := by rw [hc]; rfl
    refine .absent (fun n nBase => ?_) (fun n nBase => ?_) (fun b => ?_) (fun memory pt => ?_) fun memory rc => ?_
    · exact getInt_read build hempty (by decide) (by decide) n nBase
    · exact getInt_read build hempty (by decide) (by decide) n nBase
    · exact getBool_read build hempty (by decide) (by decide) b
    · exact getStruct_absent pointLayout (by decide) hc memory pt
    · exact getStruct_absent rectLayout (by decide) hc memory rc
  | text htext =>
    cases htext with
    | number hnumber =>
      refine .number (fun n nBase' hbase => ?_) fun n nBase' hbase => ?_
      · exact getInt_text hc (by rw [hbase]; exact hnumber) n
      · exact getInt_text hc (by rw [hbase]; exact hnumber) n
    | flag hflag =>
      refine .flag fun d => ?_
      rw [← hflag.value d]
      exact getBool_read build (by rw [hc]; rfl) hflag.fits hflag.plain d
    | point pt =>
      have hread := structText_readable pointLayout (by decide) pt
      exact .point fun memory d => getStruct_read pointLayout hread hc memory d
    | rect rc =>
      have hread := structText_readable rectLayout (by decide) rc
      exact .rect fun memory d => getStruct_read rectLayout hread hc memory d
    | block hread =>
      refine .block fun n k dest hn => ?_
      obtain ⟨turns, hturns⟩ := dynamic_read (stored_text hc) hread
      obtain ⟨dest', hdest, hwindow⟩ := getDataBlock_window (hturns turns le_rfl) hread n k hn
      refine ⟨dest', ⟨turns, fun fuel hfuel => ?_⟩, hwindow⟩
      have hfirst := hturns turns le_rfl
      have hlater := hturns fuel hfuel
      simp only at hfirst hlater ⊢
      rw [← hdest]
      simp only [getDataBlock, hfirst, hlater]

end Sessions

/-- A counter, a flag and a point in an empty file; the second name of the counter is in capitals. -/
def sampleSteps : List Step :=
  [⟨[0x73], [0x6e], .increaseInt 5 10, []⟩, ⟨[0x53], [0x4e], .increaseUInt 0xffffffff 7, []⟩,
    ⟨[0x73], [0x66], .invertBool, []⟩, ⟨[0x73], [0x70], .writePoint ⟨1, 0xffffffff⟩, [0x30]⟩,
    ⟨[0x73], [0x66], .invertBool, []⟩]

def sampleStore : Store := (Store.run .secure sampleSteps fun _ _ => none).getD fun _ _ => none

example : sampleStore [0x73] [0x6e] = some (.number 7 4) ∧ sampleStore [0x73] [0x66] = some (.flag false) := ⟨rfl, rfl⟩

end StarLib.Ini
