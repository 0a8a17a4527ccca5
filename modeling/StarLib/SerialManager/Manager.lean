import Mathlib.Data.List.TakeWhile
import StarLib.Foundations.Ascii
import StarLib.SerialManager.Serial

/-! # The object `CSerialManager`

The members, the two constructors, `MakeMachineCode`, `Serialize` and `ValidateSerial`. The members are
public and can be assigned between the calls. `ValidateSerial` derives the serial into the member
`m_strSerial` and ignores the return code: after a derivation that failed it compares the candidate with
what the member held before.

The random text of a constructor and the address of the network adapter come from functions outside the
repository, and are arguments here.
-/

namespace StarLib.SerialManager
open Foundations
set_option autoImplicit false
set_option maxHeartbeats 250000
set_option maxRecDepth 120000

/-! ## Strings -/

/-- The characters that a C function sees, up to the first zero. -/
def CString.cStr (s : CString) : List Byte := s.takeWhile (· ≠ 0)

/-- `a.CompareNoCase(b) == 0`. -/
def CString.equalNoCase (a b : CString) : Bool := a.cStr.map toLower = b.cStr.map toLower

/-- `s.Mid(nFirst, nCount)`. -/
def CString.mid (s : CString) (nFirst nCount : ℕ) : CString := (s.drop nFirst).take nCount

/-- `s.Left(nCount)`. -/
def CString.left (s : CString) (nCount : ℕ) : CString := s.take nCount

/-! ## The object -/

/-- The public members, without the unused `m_dwBoring1`. -/
structure Members where
  strBoring1 : CString
  strBoring2 : CString
  strSerial : CString
  strBoring3 : CString
  strBoring4 : CString
  strBoring5 : CString
  strMachineCode : CString
  strBoring6 : CString

structure Manager extends Members where
  strPrevfix : CString

/-- The texts `ad`, `qu`, `eh`, … for the digits. -/
def code : List CString :=
  [[0x61, 0x64], [0x71, 0x75], [0x65, 0x68], [0x6e, 0x70], [0x7a, 0x63], [0x72, 0x75], [0x76, 0x79], [0x67, 0x6b],
   [0x70, 0x74], [0x66, 0x6a], [0x78, 0x62], [0x6f, 0x78], [0x77, 0x61], [0x65, 0x69], [0x6e, 0x72], [0x69, 0x6d]]

/-- `code[num]`; `beyond` is what an index outside the array reads. -/
def codeAt (beyond : ℤ → CString) (num : ℤ) : CString :=
  if 0 ≤ num ∧ num < 16 then code.getD num.toNat [] else beyond num

def digitNum (p : Byte) : ℤ :=
  if (0x61 : Byte).toInt ≤ p.toInt ∧ p.toInt ≤ (0x66 : Byte).toInt then p.toInt - 0x61 + 10 else p.toInt - 0x30

/-- `MakeMachineCode`, for the adapter's address `strmachine`. -/
def makeMachineCode (beyond : ℤ → CString) (strmachine : CString) (m : Manager) : Manager :=
  let stred := strmachine.map toLower
  let nLen := if stred.length < 10 then stred.length else 10
  let reg := forRange 0 nLen (fun i reg => reg ++ codeAt beyond (digitNum (stred.getD i 0))) []
  { m with strMachineCode := m.strPrevfix ++ reg.map toUpper }

/-- The default constructor. -/
def defaultManager : Manager where
  strBoring1 := []
  strBoring2 := []
  strSerial := []
  strBoring3 := []
  strBoring4 := []
  strBoring5 := []
  strMachineCode := []
  strBoring6 := []
  strPrevfix := []

/-- The constructor with a prefix, for the random text `strText`. -/
def prefixManager (beyond : ℤ → CString) (strmachine strText lpszPrefix : CString) : Manager :=
  let nDelta := strText.length / 8
  let m : Manager :=
    { strBoring1 := strText.mid 0 nDelta
      strBoring2 := strText.mid nDelta (nDelta * 2)
      strSerial := strText.mid (nDelta * 2) (nDelta * 3)
      strBoring3 := strText.mid (nDelta * 3) (nDelta * 4)
      strBoring4 := strText.mid (nDelta * 4) (nDelta * 5)
      strBoring5 := strText.mid (nDelta * 5) (nDelta * 6)
      strMachineCode := strText.mid (nDelta * 6) (nDelta * 7)
      strBoring6 := strText.drop (nDelta * 7)
      strPrevfix := lpszPrefix }
  let m := makeMachineCode beyond strmachine m
  { m with strSerial := m.strSerial.left 20 }

/-- `Serialize` when it stores. -/
def serializeStore (m : Members) : List CString :=
  [m.strBoring1, m.strBoring2, m.strSerial, m.strBoring3, m.strBoring4, m.strBoring5, m.strMachineCode, m.strBoring6]

/-- `Serialize` when it loads. At the end of the archive it throws, and the members still to come stay. -/
def serializeLoad (ar : List CString) (m : Members) : Members where
  strBoring1 := ar.getD 0 m.strBoring1
  strBoring2 := ar.getD 1 m.strBoring2
  strSerial := ar.getD 2 m.strSerial
  strBoring3 := ar.getD 3 m.strBoring3
  strBoring4 := ar.getD 4 m.strBoring4
  strBoring5 := ar.getD 5 m.strBoring5
  strMachineCode := ar.getD 6 m.strMachineCode
  strBoring6 := ar.getD 7 m.strBoring6

/-- What is stored is what is loaded. -/
theorem serializeLoad_store (m m' : Members) : serializeLoad (serializeStore m) m' = m := rfl

/-- `ValidateSerial`: the answer, and the object afterwards. -/
def validateSerial (mem : Memory) (m : Manager) (strSerial : CString) : Bool × Manager :=
  let m := { m with strSerial := (getFinalDataCString mem m.strMachineCode m.strSerial).2 }
  (strSerial.equalNoCase m.strSerial, m)

/-! ## Runs -/

inductive Construction where
  | byDefault
  | byPrefix (beyond : ℤ → CString) (strmachine strText lpszPrefix : CString)

inductive Call where
  | assign (members : Members)
  | makeMachineCode (beyond : ℤ → CString) (strmachine : CString)
  | load (ar : List CString)
  | validateSerial (mem : Memory) (strSerial : CString)

def construct : Construction → Manager
  | .byDefault => defaultManager
  | .byPrefix beyond strmachine strText lpszPrefix => prefixManager beyond strmachine strText lpszPrefix

def perform (m : Manager) : Call → Manager
  | .assign members => { m with toMembers := members }
  | .makeMachineCode beyond strmachine => makeMachineCode beyond strmachine m
  | .load ar => { m with toMembers := serializeLoad ar m.toMembers }
  | .validateSerial mem strSerial => (validateSerial mem m strSerial).2

/-- The object after a sequence of calls. -/
def runCalls (start : Construction) (calls : List Call) : Manager := calls.foldl perform (construct start)

/-! ## Comparison -/

/-- A candidate without zero characters and without lower-case letters. -/
def Plain (s : CString) : Prop := ∀ b ∈ s, b ≠ 0 ∧ ¬ (0x61 ≤ b ∧ b ≤ 0x7a)

theorem Plain.cStr {s : CString} (h : Plain s) : s.cStr = s := by
  unfold CString.cStr
  rw [List.takeWhile_eq_self_iff]
  intro b hb
  simpa using (h b hb).1

theorem eq_of_equalNoCase {a b : CString} (ha : Plain a) (hb : Plain b) (h : a.equalNoCase b = true) : a = b := by
  unfold CString.equalNoCase at h
  rw [ha.cStr, hb.cStr, decide_eq_true_iff] at h
  have hlen : a.length = b.length := by
    have := congrArg List.length h
    simpa using this
  refine List.ext_getElem hlen fun i hia hib => ?_
  have hi : toLower a[i] = toLower b[i] := by
    have hget := List.getElem_of_eq h (by simpa using hia)
    simpa using hget
  exact toLower_inj (ha _ (List.getElem_mem hia)).2 (hb _ (List.getElem_mem hib)).2 hi

theorem equalNoCase_self (s : CString) : s.equalNoCase s = true := by
  unfold CString.equalNoCase
  exact decide_eq_true rfl

/-- Every string is matched by a plain one. -/
theorem exists_plain (s : CString) : ∃ t, Plain t ∧ t.equalNoCase s = true := by
  have hplain : Plain (s.cStr.map toUpper) := by
    intro b hb
    obtain ⟨c, hc, rfl⟩ := List.mem_map.mp hb
    have hc0 : c ≠ 0 := by
      have := List.mem_takeWhile_imp hc
      simpa using this
    exact ⟨toUpper_ne_zero hc0, toUpper_not_lower c⟩
  refine ⟨s.cStr.map toUpper, hplain, ?_⟩
  unfold CString.equalNoCase
  rw [decide_eq_true_iff, hplain.cStr, List.map_map]
  exact List.map_congr_left fun b _ => toLower_toUpper b

/-! ## What `ValidateSerial` accepts -/

theorem charIndex_lt (d : Byte) : (charIndex d).toNat < 36 := by
  have hd := d.isLt
  have hindex : 36 * d.toNat / 256 < 36 := by omega
  unfold charIndex
  rw [BitVec.toNat_ofNat]
  exact lt_of_le_of_lt (Nat.mod_le _ _) hindex

theorem serial_mem (mem : Memory) (data : ℕ → Byte) (n : ℕ) : ∀ b ∈ firstBytes n (serialChar mem data), b ∈ stringdata := by
  intro b hb
  obtain ⟨i, -, rfl⟩ := List.mem_map.mp hb
  have hlt : (charIndex (encipher mem data i)).toNat < stringdata.length := charIndex_lt _
  unfold serialChar
  rw [List.getD_eq_getElem _ _ hlt]
  exact List.getElem_mem hlt

theorem serial_plain (mem : Memory) (data : ℕ → Byte) (n : ℕ) : Plain (firstBytes n (serialChar mem data)) := by
  have halphabet : ∀ b ∈ stringdata, b ≠ 0 ∧ ¬ (0x61 ≤ b ∧ b ≤ 0x7a) := by simp [stringdata]
  exact fun b hb => halphabet b (serial_mem mem data n b hb)

/-- The derivation succeeded, and `s` is the serial that it derived. -/
def IsDerived (mem : Memory) (m : Manager) (s : CString) : Prop := getFinalDataCString mem m.strMachineCode [] = (1, s)

theorem validateSerial_short (mem : Memory) {m : Manager} (hle : m.strMachineCode.length ≤ 24) (s : CString) :
    ∃ t, Plain t ∧ IsDerived mem m t ∧ (validateSerial mem m s).1 = s.equalNoCase t := by
  refine ⟨_, serial_plain mem _ 20, getFinalDataCString_eq mem hle [], ?_⟩
  unfold validateSerial
  simp only
  rw [getFinalDataCString_eq mem hle]

/-- After a derivation that failed the candidate is compared with the old content of the member. -/
theorem validateSerial_long (mem : Memory) {m : Manager} (hlong : 24 < m.strMachineCode.length) (s : CString) :
    validateSerial mem m s = (s.equalNoCase m.strSerial, m) := by
  unfold validateSerial
  simp only
  rw [getFinalDataCString_long mem hlong]

theorem not_isDerived_of_long (mem : Memory) {m : Manager} (hlong : 24 < m.strMachineCode.length) (s : CString) :
    ¬ IsDerived mem m s := by
  unfold IsDerived
  rw [getFinalDataCString_long mem hlong]
  intro heq
  have hcode : (-1 : ℤ) = 1 := congrArg Prod.fst heq
  exact absurd hcode (by decide)

/-- `STAR-` before the ten digits of an address. -/
def longPrefix : Construction :=
  .byPrefix (fun _ => []) [0x30, 0x31, 0x32, 0x33, 0x34, 0x35, 0x36, 0x37, 0x38, 0x39] (List.replicate 2048 0x20)
    [0x53, 0x54, 0x41, 0x52, 0x2d]

end StarLib.SerialManager
