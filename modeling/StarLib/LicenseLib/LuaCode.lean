import Mathlib.Algebra.Order.Ring.Int
import Mathlib.Data.List.Induction
import StarLib.Foundations.Arrays
import StarLib.Foundations.Crc
import StarLib.Foundations.Words

/-! # The two codes of a machine code

`get_luacode_c` folds the machine code into a CRC and three parts. The script `do_calc` does the same on
Lua numbers, with tables that start at 1, a bit library on signed 32-bit integers, and `c_do` for the
index. `c_do` adds 1 to an index held in an `unsigned char`: the index 256 of the last table entry
becomes 0, the entry read is `nil`, and comparing it raises an error.

Lua numbers are doubles; all numbers here are integers far below `2^53`, and are integers in the model.
A double is converted to `unsigned int` modulo `2^32`.
-/

namespace StarLib.LicenseLib
open Foundations
set_option autoImplicit false
set_option maxHeartbeats 250000
set_option maxRecDepth 120000

/-- The hundred bytes of a machine code. -/
structure MachineCode where
  buffer : List Byte
  length_eq : buffer.length = 100

/-- The table of the C function; the script has the same 257 numbers. -/
def AV_CRC_32_IEEE : List DWord :=
  [0x00000000, 0x77073096, 0xee0e612c, 0x990951ba, 0x076dc419, 0x706af48f, 0xe963a535, 0x9e6495a3,
   0x0edb8832, 0x79dcb8a4, 0xe0d5e91e, 0x97d2d988, 0x09b64c2b, 0x7eb17cbd, 0xe7b82d07, 0x90bf1d91,
   0x1db71064, 0x6ab020f2, 0xf3b97148, 0x84be41de, 0x1adad47d, 0x6ddde4eb, 0xf4d4b551, 0x83d385c7,
   0x136c9856, 0x646ba8c0, 0xfd62f97a, 0x8a65c9ec, 0x14015c4f, 0x63066cd9, 0xfa0f3d63, 0x8d080df5,
   0x3b6e20c8, 0x4c69105e, 0xd56041e4, 0xa2677172, 0x3c03e4d1, 0x4b04d447, 0xd20d85fd, 0xa50ab56b,
   0x35b5a8fa, 0x42b2986c, 0xdbbbc9d6, 0xacbcf940, 0x32d86ce3, 0x45df5c75, 0xdcd60dcf, 0xabd13d59,
   0x26d930ac, 0x51de003a, 0xc8d75180, 0xbfd06116, 0x21b4f4b5, 0x56b3c423, 0xcfba9599, 0xb8bda50f,
   0x2802b89e, 0x5f058808, 0xc60cd9b2, 0xb10be924, 0x2f6f7c87, 0x58684c11, 0xc1611dab, 0xb6662d3d,
   0x76dc4190, 0x01db7106, 0x98d220bc, 0xefd5102a, 0x71b18589, 0x06b6b51f, 0x9fbfe4a5, 0xe8b8d433,
   0x7807c9a2, 0x0f00f934, 0x9609a88e, 0xe10e9818, 0x7f6a0dbb, 0x086d3d2d, 0x91646c97, 0xe6635c01,
   0x6b6b51f4, 0x1c6c6162, 0x856530d8, 0xf262004e, 0x6c0695ed, 0x1b01a57b, 0x8208f4c1, 0xf50fc457,
   0x65b0d9c6, 0x12b7e950, 0x8bbeb8ea, 0xfcb9887c, 0x62dd1ddf, 0x15da2d49, 0x8cd37cf3, 0xfbd44c65,
   0x4db26158, 0x3ab551ce, 0xa3bc0074, 0xd4bb30e2, 0x4adfa541, 0x3dd895d7, 0xa4d1c46d, 0xd3d6f4fb,
   0x4369e96a, 0x346ed9fc, 0xad678846, 0xda60b8d0, 0x44042d73, 0x33031de5, 0xaa0a4c5f, 0xdd0d7cc9,
   0x5005713c, 0x270241aa, 0xbe0b1010, 0xc90c2086, 0x5768b525, 0x206f85b3, 0xb966d409, 0xce61e49f,
   0x5edef90e, 0x29d9c998, 0xb0d09822, 0xc7d7a8b4, 0x59b33d17, 0x2eb40d81, 0xb7bd5c3b, 0xc0ba6cad,
   0xedb88320, 0x9abfb3b6, 0x03b6e20c, 0x74b1d29a, 0xead54739, 0x9dd277af, 0x04db2615, 0x73dc1683,
   0xe3630b12, 0x94643b84, 0x0d6d6a3e, 0x7a6a5aa8, 0xe40ecf0b, 0x9309ff9d, 0x0a00ae27, 0x7d079eb1,
   0xf00f9344, 0x8708a3d2, 0x1e01f268, 0x6906c2fe, 0xf762575d, 0x806567cb, 0x196c3671, 0x6e6b06e7,
   0xfed41b76, 0x89d32be0, 0x10da7a5a, 0x67dd4acc, 0xf9b9df6f, 0x8ebeeff9, 0x17b7be43, 0x60b08ed5,
   0xd6d6a3e8, 0xa1d1937e, 0x38d8c2c4, 0x4fdff252, 0xd1bb67f1, 0xa6bc5767, 0x3fb506dd, 0x48b2364b,
   0xd80d2bda, 0xaf0a1b4c, 0x36034af6, 0x41047a60, 0xdf60efc3, 0xa867df55, 0x316e8eef, 0x4669be79,
   0xcb61b38c, 0xbc66831a, 0x256fd2a0, 0x5268e236, 0xcc0c7795, 0xbb0b4703, 0x220216b9, 0x5505262f,
   0xc5ba3bbe, 0xb2bd0b28, 0x2bb45a92, 0x5cb36a04, 0xc2d7ffa7, 0xb5d0cf31, 0x2cd99e8b, 0x5bdeae1d,
   0x9b64c2b0, 0xec63f226, 0x756aa39c, 0x026d930a, 0x9c0906a9, 0xeb0e363f, 0x72076785, 0x05005713,
   0x95bf4a82, 0xe2b87a14, 0x7bb12bae, 0x0cb61b38, 0x92d28e9b, 0xe5d5be0d, 0x7cdcefb7, 0x0bdbdf21,
   0x86d3d2d4, 0xf1d4e242, 0x68ddb3f8, 0x1fda836e, 0x81be16cd, 0xf6b9265b, 0x6fb077e1, 0x18b74777,
   0x88085ae6, 0xff0f6a70, 0x66063bca, 0x11010b5c, 0x8f659eff, 0xf862ae69, 0x616bffd3, 0x166ccf45,
   0xa00ae278, 0xd70dd2ee, 0x4e048354, 0x3903b3c2, 0xa7672661, 0xd06016f7, 0x4969474d, 0x3e6e77db,
   0xaed16a4a, 0xd9d65adc, 0x40df0b66, 0x37d83bf0, 0xa9bcae53, 0xdebb9ec5, 0x47b2cf7f, 0x30b5ffe9,
   0xbdbdf21c, 0xcabac28a, 0x53b39330, 0x24b4a3a6, 0xbad03605, 0xcdd70693, 0x54de5729, 0x23d967bf,
   0xb3667a2e, 0xc4614ab8, 0x5d681b02, 0x2a6f2b94, 0xb40bbe37, 0xc30c8ea1, 0x5a05df1b, 0x2d02ef8d,
   0x00000001]

/-! ## The C function -/

structure CodeFold where
  code1 : DWord
  max_value : DWord

def codeFoldStep (s : CodeFold) (b : Byte) : CodeFold :=
  let idx : Byte := (s.code1 ^^^ b.signExtend 32).setWidth 8
  let entry := AV_CRC_32_IEEE.getD idx.toNat 0
  let max_value := if s.max_value.toNat < entry.toNat then entry else s.max_value
  let tt := s.code1 >>> 8
  ⟨entry ^^^ tt, max_value⟩

/-- `code2`, from the maximum and the first six characters. -/
def codeParts (max_value : DWord) (buffer : List Byte) : DWord :=
  let char := fun i => (buffer.getD i 0).signExtend 32
  let part0 := max_value >>> 24
  let part1 := (part0 &&& char 0) ||| char 1
  let part2 := (part1 &&& char 2) ||| char 3
  let part3 := (part2 &&& char 4) ||| char 5
  part1 + part2 * 256 + part3 * 65536

/-- `get_luacode_c`. -/
def getLuacodeC (mc : MachineCode) : DWord × DWord :=
  let s := mc.buffer.foldl codeFoldStep ⟨0, 0⟩
  (s.code1, codeParts s.max_value mc.buffer)

/-! ## Lua -/

/-- A Lua value as far as the script makes them. -/
inductive LuaValue where
  | nil
  | number (n : ℤ)

/-- `t[i]`, for a table filled from index 1 on. -/
def luaIndex (t : List ℤ) (i : ℤ) : LuaValue :=
  if 1 ≤ i then
    match t[(i - 1).toNat]? with
    | some n => .number n
    | none => .nil
  else .nil

/-- `(unsigned int) lua_tonumber`. -/
def toUnsigned (n : ℤ) : DWord := BitVec.ofInt 32 n

/-- `c_do`. -/
def cDo (x y : ℤ) : ℤ :=
  let value := toUnsigned x ^^^ toUnsigned y
  let idx : Byte := value.setWidth 8
  let idx := idx + 1
  (idx.toNat : ℤ)

def BIT_MAX : ℤ := 0x7fffffff

def BIT_MIN : ℤ := -0x80000000

def BIT_UMAX : ℤ := 0xffffffff

/-- `TOBIT`: the number modulo `2^32` (`fmod` keeps the sign), moved into the range of `lua_Integer`. -/
def TOBIT (n : ℤ) : DWord :=
  let res := n.tmod (BIT_UMAX + 1)
  let res := if BIT_MAX < res then res - BIT_UMAX - 1 else if res < BIT_MIN then res + BIT_UMAX + 1 else res
  BitVec.ofInt 32 res

def bitBand (a b : ℤ) : ℤ := (TOBIT a &&& TOBIT b).toInt

def bitBor (a b : ℤ) : ℤ := (TOBIT a ||| TOBIT b).toInt

def bitBxor (a b : ℤ) : ℤ := (TOBIT a ^^^ TOBIT b).toInt

def bitRshift (a : ℤ) (n : ℕ) : ℤ := (TOBIT a >>> n).toInt

def AV_CRC_32_IEEE_LE : List ℤ := AV_CRC_32_IEEE.map fun x => (x.toNat : ℤ)

structure LuaFold where
  value1 : ℤ
  max_value : ℤ

/-- The loop body of `do_calc`, for the number `data[i]`. -/
def doCalcStep (s : LuaFold) (d : ℤ) : Except String LuaFold :=
  match luaIndex AV_CRC_32_IEEE_LE (cDo s.value1 d) with
  | .nil => .error "attempt to compare number with nil"
  | .number entry =>
    let max_value := if s.max_value < entry then entry else s.max_value
    .ok ⟨bitBxor entry (bitRshift s.value1 8), max_value⟩

/-- An argument of a function of the bit library. -/
def checkNumber : LuaValue → Except String ℤ
  | .nil => .error "number expected, got nil"
  | .number n => .ok n

/-- The script `do_calc`. -/
def doCalc (data : List ℤ) : Except String (ℤ × ℤ) := do
  let s ← data.foldlM doCalcStep ⟨0, 0⟩
  if 3 < data.length then
    let part0 := bitRshift s.max_value 24
    let part1 := bitBor (bitBand part0 (← checkNumber (luaIndex data 1))) (← checkNumber (luaIndex data 2))
    let part2 := bitBor (bitBand part1 (← checkNumber (luaIndex data 3))) (← checkNumber (luaIndex data 4))
    let part3 := bitBor (bitBand part2 (← checkNumber (luaIndex data 5))) (← checkNumber (luaIndex data 6))
    return (s.value1, part1 + part2 * 256 + part3 * 65536)
  else
    return (s.value1, 0)

/-- The number of ones, as the sources count it. -/
def countOnes (x : DWord) : DWord :=
  let x := (x &&& 0x55555555) + ((x >>> 1) &&& 0x55555555)
  let x := (x &&& 0x33333333) + ((x >>> 2) &&& 0x33333333)
  let x := (x &&& 0x0f0f0f0f) + ((x >>> 4) &&& 0x0f0f0f0f)
  let x := (x &&& 0x00ff00ff) + ((x >>> 8) &&& 0x00ff00ff)
  (x &&& 0x0000ffff) + ((x >>> 16) &&& 0x0000ffff)

/-- What `get_luacode_core` leaves in `code1` and `code2` before it calls the script. -/
def junkCodes (underDebug : Bool) : DWord × DWord :=
  let code1 : DWord := 0xa86a7bc3
  let code2 : DWord := 0xfe6a8bc3
  let (code1, code2) :=
    if underDebug then (code1, code2)
    else
      let code1 := code1 ^^^ code2
      (code1, (code2 >>> 8) % 255 + code1)
  let code1 := forRange 0 100 (fun i code1 => code1 + BitVec.ofNat 32 i) code1
  let code2 := forRange 0 100 (fun i code2 => code2 - BitVec.ofNat 32 i) code2
  if underDebug then (code1, code2) else (countOnes code2, code2)

/-- `get_luacode_core`: the error of the script, if it raises one, and the two codes. -/
def getLuacodeCore (underDebug : Bool) (mc : MachineCode) : Option String × (DWord × DWord) :=
  match doCalc (mc.buffer.map BitVec.toInt) with
  | .error message => (some message, junkCodes underDebug)
  | .ok (value1, value2) => (none, (toUnsigned value1, toUnsigned value2))

/-! ## The numbers of the script -/

theorem toUnsigned_toInt (x : DWord) : toUnsigned x.toInt = x := BitVec.ofInt_toInt

theorem toUnsigned_char (b : Byte) : toUnsigned b.toInt = b.signExtend 32 := rfl

theorem toUnsigned_toNat (x : DWord) : toUnsigned (x.toNat : ℤ) = x := by
  unfold toUnsigned
  rw [BitVec.ofInt_natCast, BitVec.ofNat_toNat, BitVec.setWidth_eq]

theorem TOBIT_eq (n : ℤ) : TOBIT n = toUnsigned n := by
  have hsplit := Int.mul_tdiv_add_tmod n (BIT_UMAX + 1)
  apply BitVec.eq_of_toNat_eq
  unfold TOBIT toUnsigned
  simp only [BitVec.toNat_ofInt]
  congr 1
  unfold BIT_UMAX BIT_MAX BIT_MIN at *
  generalize n.tmod (0xffffffff + 1) = r at hsplit ⊢
  generalize n.tdiv (0xffffffff + 1) = q at hsplit
  split
  · omega
  · split
    · omega
    · omega

theorem toUnsigned_band (a b : ℤ) : toUnsigned (bitBand a b) = toUnsigned a &&& toUnsigned b := by
  rw [bitBand, toUnsigned_toInt, TOBIT_eq, TOBIT_eq]

theorem toUnsigned_bor (a b : ℤ) : toUnsigned (bitBor a b) = toUnsigned a ||| toUnsigned b := by
  rw [bitBor, toUnsigned_toInt, TOBIT_eq, TOBIT_eq]

theorem toUnsigned_bxor (a b : ℤ) : toUnsigned (bitBxor a b) = toUnsigned a ^^^ toUnsigned b := by
  rw [bitBxor, toUnsigned_toInt, TOBIT_eq, TOBIT_eq]

theorem toUnsigned_rshift (a : ℤ) (n : ℕ) : toUnsigned (bitRshift a n) = toUnsigned a >>> n := by
  rw [bitRshift, toUnsigned_toInt, TOBIT_eq]

theorem toUnsigned_add (a b : ℤ) : toUnsigned (a + b) = toUnsigned a + toUnsigned b := BitVec.ofInt_add ..

theorem toUnsigned_mul (a b : ℤ) : toUnsigned (a * b) = toUnsigned a * toUnsigned b := BitVec.ofInt_mul ..

/-! ## One turn of the loops -/

/-- The index of the C function in the table. -/
def tableIndex (code1 : DWord) (b : Byte) : Byte := (code1 ^^^ b.signExtend 32).setWidth 8

theorem AV_CRC_32_IEEE_length : AV_CRC_32_IEEE.length = 257 := by decide

theorem cDo_eq {x : ℤ} {code1 : DWord} (hx : toUnsigned x = code1) (b : Byte) :
    cDo x b.toInt = if tableIndex code1 b = 0xff then 0 else ((tableIndex code1 b).toNat : ℤ) + 1 := by
  unfold cDo
  simp only
  rw [hx, toUnsigned_char]
  show (((tableIndex code1 b + 1).toNat : ℕ) : ℤ) = _
  by_cases hlast : tableIndex code1 b = 0xff
  · rw [if_pos hlast, hlast]
    rfl
  · have hne : (tableIndex code1 b).toNat ≠ 255 := fun h => hlast (BitVec.eq_of_toNat_eq h)
    have hlt := (tableIndex code1 b).isLt
    have hone : (1 : Byte).toNat = 1 := rfl
    rw [if_neg hlast, BitVec.toNat_add, hone, Nat.mod_eq_of_lt (by omega)]
    push_cast
    rfl

theorem luaIndex_table (idx : Byte) :
    luaIndex AV_CRC_32_IEEE_LE ((idx.toNat : ℤ) + 1) = .number ((AV_CRC_32_IEEE.getD idx.toNat 0).toNat : ℤ) := by
  have hlt : idx.toNat < AV_CRC_32_IEEE.length := by
    rw [AV_CRC_32_IEEE_length]
    have := idx.isLt
    omega
  have hpos : (1 : ℤ) ≤ (idx.toNat : ℤ) + 1 := by omega
  have hback : ((idx.toNat : ℤ) + 1 - 1).toNat = idx.toNat := by omega
  unfold luaIndex AV_CRC_32_IEEE_LE
  rw [if_pos hpos, hback, List.getElem?_map, List.getElem?_eq_getElem hlt, List.getD_eq_getElem _ _ hlt]
  rfl

/-- The two loops hold the same numbers. -/
structure SameFold (c : CodeFold) (l : LuaFold) : Prop where
  value : toUnsigned l.value1 = c.code1
  max : l.max_value = (c.max_value.toNat : ℤ)

theorem doCalcStep_last {c : CodeFold} {l : LuaFold} (h : SameFold c l) {b : Byte}
    (hlast : tableIndex c.code1 b = 0xff) :
    doCalcStep l b.toInt = .error "attempt to compare number with nil" := by
  unfold doCalcStep
  rw [cDo_eq h.value, if_pos hlast]
  rfl

theorem doCalcStep_same {c : CodeFold} {l : LuaFold} (h : SameFold c l) {b : Byte}
    (hlast : tableIndex c.code1 b ≠ 0xff) :
    ∃ l', doCalcStep l b.toInt = .ok l' ∧ SameFold (codeFoldStep c b) l' := by
  unfold doCalcStep
  rw [cDo_eq h.value, if_neg hlast, luaIndex_table]
  refine ⟨_, rfl, ?_, ?_⟩
  · show toUnsigned (bitBxor _ (bitRshift l.value1 8)) = _
    rw [toUnsigned_bxor, toUnsigned_rshift, toUnsigned_toNat, h.value]
    rfl
  · show (if l.max_value < _ then _ else l.max_value) = _
    unfold codeFoldStep tableIndex
    simp only [h.max, Nat.cast_lt]
    split
    · rfl
    · rfl

/-! ## The loops -/

/-- The index of the C function at byte `i`. -/
def indexAt (c : CodeFold) (bytes : List Byte) (i : ℕ) : Byte :=
  tableIndex ((bytes.take i).foldl codeFoldStep c).code1 (bytes.getD i 0)

theorem foldlM_same (bytes : List Byte) {c : CodeFold} {l : LuaFold} (h : SameFold c l)
    (hindex : ∀ i < bytes.length, indexAt c bytes i ≠ 0xff) :
    ∃ l', (bytes.map BitVec.toInt).foldlM doCalcStep l = .ok l' ∧ SameFold (bytes.foldl codeFoldStep c) l' := by
  induction bytes generalizing c l with
  | nil => exact ⟨l, rfl, h⟩
  | cons b bytes ih =>
    have hfirst : tableIndex c.code1 b ≠ 0xff := hindex 0 (Nat.succ_pos _)
    obtain ⟨l', hstep, hsame⟩ := doCalcStep_same h hfirst
    obtain ⟨l'', hrest, hsame'⟩ := ih hsame fun i hi => hindex (i + 1) (Nat.succ_lt_succ hi)
    refine ⟨l'', ?_, hsame'⟩
    rw [List.map_cons, List.foldlM_cons, hstep]
    exact hrest

theorem foldlM_last (bytes : List Byte) {c : CodeFold} {l : LuaFold} (h : SameFold c l) {i : ℕ}
    (hi : i < bytes.length) (hindex : indexAt c bytes i = 0xff) :
    (bytes.map BitVec.toInt).foldlM doCalcStep l = .error "attempt to compare number with nil" := by
  induction bytes generalizing c l i with
  | nil => exact absurd hi (Nat.not_lt_zero i)
  | cons b bytes ih =>
    rw [List.map_cons, List.foldlM_cons]
    by_cases hlast : tableIndex c.code1 b = 0xff
    · rw [doCalcStep_last h hlast]
      rfl
    · obtain ⟨l', hstep, hsame⟩ := doCalcStep_same h hlast
      rw [hstep]
      cases i with
      | zero => exact absurd hindex hlast
      | succ i => exact ih hsame (Nat.lt_of_succ_lt_succ hi) hindex

/-! ## The checksum -/

def crcPoly : DWord := 0xedb88320

theorem table_crc : ∀ n < 256, AV_CRC_32_IEEE.getD n 0 = crcShifts crcPoly 8 ((BitVec.ofNat 8 n).setWidth 32) := by
  have hlist : AV_CRC_32_IEEE.take 256 =
      (List.range 256).map fun n => crcShifts crcPoly 8 ((BitVec.ofNat 8 n).setWidth 32) := by
    decide
  intro n hn
  rw [List.getD_eq_getElem?_getD, ← List.getElem?_take_of_lt hn, hlist, List.getElem?_map, List.getElem?_range hn]
  rfl

theorem setWidth_xor_char (r : DWord) (b : Byte) : (r ^^^ b.signExtend 32).setWidth 8 = r.setWidth 8 ^^^ b := by
  have hlow : (b.signExtend 32).setWidth 8 = b := by
    apply BitVec.eq_of_getLsbD_eq
    intro i hi
    have h32 : i < 32 := by omega
    rw [BitVec.getLsbD_setWidth, BitVec.getLsbD_signExtend, if_pos hi]
    simp only [hi, h32, decide_true, Bool.true_and]
  rw [BitVec.setWidth_xor, hlow]

/-- The C function computes the CRC-32 of the machine code, with zero at the start and no complement. -/
theorem codeFoldStep_code1 (s : CodeFold) (b : Byte) : (codeFoldStep s b).code1 = crcByte crcPoly s.code1 b := by
  have htable : ∀ i : Byte, AV_CRC_32_IEEE.getD i.toNat 0 = crcShifts crcPoly 8 (i.setWidth 32) := by
    intro i
    rw [table_crc i.toNat i.isLt, BitVec.ofNat_toNat, BitVec.setWidth_eq]
  rw [crcByte_table crcPoly s.code1 (by decide) b _ htable, ← setWidth_xor_char]
  rfl

theorem foldl_code1 (bytes : List Byte) : (bytes.foldl codeFoldStep ⟨0, 0⟩).code1 = crc crcPoly bytes := by
  induction bytes using List.reverseRecOn with
  | nil => rfl
  | append_singleton bytes b ih => rw [List.foldl_append, crc_concat, ← ih, ← codeFoldStep_code1]; rfl

/-! ## The two codes -/

theorem toUnsigned_parts (s : LuaFold) (max_value : DWord) (hmax : s.max_value = (max_value.toNat : ℤ))
    (data : List Byte) :
    let char := fun i => (data.getD i 0).toInt
    let part0 := bitRshift s.max_value 24
    let part1 := bitBor (bitBand part0 (char 0)) (char 1)
    let part2 := bitBor (bitBand part1 (char 2)) (char 3)
    let part3 := bitBor (bitBand part2 (char 4)) (char 5)
    toUnsigned (part1 + part2 * 256 + part3 * 65536) = codeParts max_value data := by
  simp only [toUnsigned_add, toUnsigned_mul, toUnsigned_bor, toUnsigned_band, toUnsigned_rshift, hmax,
    toUnsigned_toNat, toUnsigned_char]
  rfl

theorem luaIndex_data (data : List Byte) {i : ℕ} (hi : i < data.length) :
    checkNumber (luaIndex (data.map BitVec.toInt) ((i : ℤ) + 1)) = .ok (data.getD i 0).toInt := by
  have hpos : (1 : ℤ) ≤ (i : ℤ) + 1 := by omega
  have hback : ((i : ℤ) + 1 - 1).toNat = i := by omega
  unfold luaIndex
  rw [if_pos hpos, hback, List.getElem?_map, List.getElem?_eq_getElem hi, List.getD_eq_getElem _ _ hi]
  rfl

/-- After a loop that ended well the script returns both codes. -/
theorem doCalc_ok (data : List Byte) (hlen : 6 ≤ data.length) {l : LuaFold} {max_value : DWord}
    (hfold : (data.map BitVec.toInt).foldlM doCalcStep ⟨0, 0⟩ = .ok l) (hmax : l.max_value = (max_value.toNat : ℤ)) :
    ∃ value2, doCalc (data.map BitVec.toInt) = .ok (l.value1, value2) ∧
      toUnsigned value2 = codeParts max_value data := by
  have h1 : checkNumber (luaIndex (data.map BitVec.toInt) 1) = .ok (data.getD 0 0).toInt :=
    luaIndex_data data (by omega)
  have h2 : checkNumber (luaIndex (data.map BitVec.toInt) 2) = .ok (data.getD 1 0).toInt :=
    luaIndex_data data (by omega)
  have h3 : checkNumber (luaIndex (data.map BitVec.toInt) 3) = .ok (data.getD 2 0).toInt :=
    luaIndex_data data (by omega)
  have h4 : checkNumber (luaIndex (data.map BitVec.toInt) 4) = .ok (data.getD 3 0).toInt :=
    luaIndex_data data (by omega)
  have h5 : checkNumber (luaIndex (data.map BitVec.toInt) 5) = .ok (data.getD 4 0).toInt :=
    luaIndex_data data (by omega)
  have h6 : checkNumber (luaIndex (data.map BitVec.toInt) 6) = .ok (data.getD 5 0).toInt :=
    luaIndex_data data (by omega)
  have hlong : 3 < (data.map BitVec.toInt).length := by
    rw [List.length_map]
    omega
  refine ⟨_, ?_, toUnsigned_parts l max_value hmax data⟩
  unfold doCalc
  rw [hfold]
  simp only [hlong, if_true, h1, h2, h3, h4, h5, h6, bind, Except.bind, pure, Except.pure]

/-- When no index is the last one the script ends without an error, with the codes of the C function. -/
theorem getLuacodeCore_same (underDebug : Bool) (mc : MachineCode)
    (hindex : ∀ i < mc.buffer.length, indexAt ⟨0, 0⟩ mc.buffer i ≠ 0xff) :
    getLuacodeCore underDebug mc = (none, getLuacodeC mc) := by
  have hlen := mc.length_eq
  have hstart : SameFold ⟨0, 0⟩ ⟨0, 0⟩ := ⟨rfl, rfl⟩
  obtain ⟨l, hfold, hsame⟩ := foldlM_same mc.buffer hstart hindex
  obtain ⟨value2, hcalc, hvalue2⟩ := doCalc_ok mc.buffer (by omega) hfold hsame.max
  unfold getLuacodeCore
  rw [hcalc]
  show (none, (toUnsigned l.value1, toUnsigned value2)) = _
  rw [hsame.value, hvalue2]
  rfl

theorem getLuacodeCore_error (underDebug : Bool) (mc : MachineCode) {i : ℕ} (hi : i < mc.buffer.length)
    (hindex : indexAt ⟨0, 0⟩ mc.buffer i = 0xff) :
    getLuacodeCore underDebug mc = (some "attempt to compare number with nil", junkCodes underDebug) := by
  have hstart : SameFold ⟨0, 0⟩ ⟨0, 0⟩ := ⟨rfl, rfl⟩
  have hfold := foldlM_last mc.buffer hstart hi hindex
  unfold getLuacodeCore doCalc
  rw [hfold]
  rfl

theorem indexAt_crc (bytes : List Byte) (i : ℕ) :
    indexAt ⟨0, 0⟩ bytes i = (crc crcPoly (bytes.take i)).setWidth 8 ^^^ bytes.getD i 0 := by
  unfold indexAt tableIndex
  rw [foldl_code1, setWidth_xor_char]

/-- The script raises no error and returns the pair of the C function if and only if no byte of the machine
code is the complement of the low byte of the CRC of the bytes before it. -/
theorem luacode_agree_iff (underDebug : Bool) (mc : MachineCode) :
    getLuacodeCore underDebug mc = (none, getLuacodeC mc) ↔
      ∀ i < 100, (crc crcPoly (mc.buffer.take i)).setWidth 8 ^^^ mc.buffer.getD i 0 ≠ 0xff := by
  have hlen := mc.length_eq
  refine ⟨fun hsame i hi hlast => ?_, fun hindex => ?_⟩
  · rw [← indexAt_crc] at hlast
    rw [getLuacodeCore_error underDebug mc (by omega) hlast] at hsame
    exact absurd (congrArg Prod.fst hsame) (by simp)
  · refine getLuacodeCore_same underDebug mc fun i hi => ?_
    rw [indexAt_crc]
    exact hindex i (by omega)

/-- A machine code that starts with the byte 255. -/
def startsWithLast : MachineCode := ⟨0xff :: List.replicate 99 0, by decide⟩

theorem startsWithLast_differs :
    getLuacodeCore false startsWithLast = (some "attempt to compare number with nil", junkCodes false) ∧
      junkCodes false ≠ getLuacodeC startsWithLast :=
  ⟨getLuacodeCore_error false startsWithLast (by decide : 0 < _) (by decide), by decide⟩

end StarLib.LicenseLib
