import StarLib.SerialManager.Manager

/-! # Registration

`CRegSoftDlg::OnBnClickedOk` checks the serial that the user enters and stores the object in the registration file;
`IsRregistered` loads it again and checks it. The random texts of the constructors and the content of the memory are
others in every call.
-/

namespace StarLib.RegSoftDlg
open Foundations SerialManager
set_option autoImplicit false
set_option maxHeartbeats 250000
set_option maxRecDepth 120000

/-- The address of the adapter and the prefix, which is a C string; `beyond` is what an index outside the array of
`MakeMachineCode` reads there. -/
structure Machine where
  strmachine : CString
  lpszPrefix : CString
  beyond : ℤ → CString
  lpszPrefix_ne : ∀ b ∈ lpszPrefix, b ≠ 0
  beyond_ne : ∀ num, ∀ b ∈ beyond num, b ≠ 0

/-- `CSerialManager sm(HARDCODEPREFIX)`. -/
def Machine.manager (machine : Machine) (strText : CString) : Manager :=
  prefixManager machine.beyond machine.strmachine strText machine.lpszPrefix

/-- The machine code, which does not depend on the random text. -/
def Machine.code (machine : Machine) : CString := (machine.manager []).strMachineCode

def isspace (b : Byte) : Bool := b = 0x20 || (0x09 ≤ b && b ≤ 0x0d)

/-- `s.Trim()`. -/
def trim (s : CString) : CString := (s.reverse.dropWhile isspace).reverse.dropWhile isspace

/-- `a.Compare(b) == 0`. -/
def equal (a b : CString) : Bool := a.cStr = b.cStr

/-- The registration file holds what `Serialize` stores. -/
abbrev RegFile := Option (List CString)

/-- `OnBnClickedOk`: whether the serial is accepted, and the registration file afterwards. -/
def onBnClickedOk (machine : Machine) (strText : CString) (mem : Memory) (m_strSerial : CString) (file : RegFile) : Bool × RegFile :=
  if (trim m_strSerial).isEmpty then (false, file)
  else
    let sm := validateSerial mem (machine.manager strText) (trim m_strSerial)
    if sm.1 then (true, some (serializeStore sm.2.toMembers)) else (false, file)

def isRregistered (machine : Machine) (strText₁ strText₂ : CString) (mem : Memory) (file : RegFile) : Bool :=
  let sm1 := machine.manager strText₁
  let sm1 := { sm1.toMembers with strMachineCode := [], strSerial := [] }
  match file with
  | none => false
  | some ar =>
    let sm1 := serializeLoad ar sm1
    let sm2 := machine.manager strText₂
    if equal sm2.strMachineCode sm1.strMachineCode then (validateSerial mem sm2 sm1.strSerial).1 else false

/-- A click in a later run of the program. -/
structure Click where
  strText : CString
  mem : Memory
  m_strSerial : CString

def Click.run (machine : Machine) (file : RegFile) (click : Click) : RegFile :=
  (onBnClickedOk machine click.strText click.mem click.m_strSerial file).2

/-! ## The object on a machine -/

/-- The serial of the machine, from a memory of zeros. -/
def Machine.serial (machine : Machine) : CString := (getFinalDataCString (Memory.withData fun _ => 0) machine.code []).2

variable {machine machine' : Machine}

theorem manager_code (strText : CString) : (machine.manager strText).strMachineCode = machine.code := rfl

theorem validateSerial_code (strText : CString) (mem : Memory) (s : CString) :
    (validateSerial mem (machine.manager strText) s).2.strMachineCode = machine.code := rfl

/-- A click changes the file when it accepts the serial, and then stores the object. -/
theorem onBnClickedOk_cases (machine : Machine) (strText : CString) (mem : Memory) (m_strSerial : CString) (file : RegFile) :
    onBnClickedOk machine strText mem m_strSerial file = (false, file) ∨
      onBnClickedOk machine strText mem m_strSerial file =
        (true, some (serializeStore (validateSerial mem (machine.manager strText) (trim m_strSerial)).2.toMembers)) := by
  unfold onBnClickedOk
  by_cases hempty : (trim m_strSerial).isEmpty = true
  · exact Or.inl (if_pos hempty)
  · rw [if_neg hempty]
    by_cases hyes : (validateSerial mem (machine.manager strText) (trim m_strSerial)).1 = true
    · exact Or.inr (if_pos hyes)
    · exact Or.inl (if_neg hyes)

/-- The machine code and the serial in the file are those of the machine. -/
def Holds (machine : Machine) (file : RegFile) : Prop :=
  ∃ m : Members, m.strMachineCode = machine.code ∧ m.strSerial = machine.serial ∧ file = some (serializeStore m)

/-! ## Machine codes that `CalculateSerial` can work on -/

section
variable (h₂ : 2 ≤ machine.code.length) (h₂₄ : machine.code.length ≤ 24)
include h₂ h₂₄

theorem getFinalDataCString_serial (mem : Memory) (finaldata : CString) :
    (getFinalDataCString mem machine.code finaldata).2 = machine.serial := by
  unfold Machine.serial
  rw [getFinalDataCString_eq mem h₂₄, getFinalDataCString_eq _ h₂₄]
  exact serialChar_same mem _ h₂ h₂₄

/-- On every object of the machine a candidate is compared with the serial of the machine. -/
theorem validateSerial_machine (strText : CString) (mem : Memory) (s : CString) :
    validateSerial mem (machine.manager strText) s =
      (s.equalNoCase machine.serial, { machine.manager strText with strSerial := machine.serial }) := by
  unfold validateSerial
  rw [manager_code, getFinalDataCString_serial h₂ h₂₄]
  rfl

theorem holds_click {strText m_strSerial : CString} {mem : Memory} {file : RegFile}
    (h : Holds machine file ∨ (onBnClickedOk machine strText mem m_strSerial file).1 = true) :
    Holds machine (onBnClickedOk machine strText mem m_strSerial file).2 := by
  rcases onBnClickedOk_cases machine strText mem m_strSerial file with hno | hyes
  · rw [hno] at h ⊢
    exact h.resolve_right Bool.false_ne_true
  · rw [hyes]
    refine ⟨_, validateSerial_code strText mem (trim m_strSerial), ?_, rfl⟩
    rw [validateSerial_machine h₂ h₂₄]

theorem holds_run {file : RegFile} (h : Holds machine file) (clicks : List Click) : Holds machine (clicks.foldl (Click.run machine) file) := by
  induction clicks generalizing file with
  | nil => exact h
  | cons click clicks ih => exact ih (holds_click h₂ h₂₄ (Or.inl h))

theorem isRregistered_holds {file : RegFile} (h : Holds machine file) (strText₁ strText₂ : CString) (mem : Memory) :
    isRregistered machine strText₁ strText₂ mem file = true := by
  obtain ⟨m, hcode, hserial, rfl⟩ := h
  unfold isRregistered
  dsimp only
  rw [serializeLoad_store, hcode, hserial, manager_code, validateSerial_machine h₂ h₂₄]
  have hequal : equal machine.code machine.code = true := decide_eq_true rfl
  rw [if_pos hequal]
  exact equalNoCase_self machine.serial

end

/-! ## Machine codes of several machines -/

theorem codeAt_ne (num : ℤ) : ∀ b ∈ codeAt machine.beyond num, b ≠ 0 := by
  have htable : ∀ s ∈ SerialManager.code, ∀ b ∈ s, b ≠ 0 := by simp [SerialManager.code]
  unfold codeAt
  split
  · next hin =>
    have hlt : num.toNat < SerialManager.code.length := by
      show num.toNat < 16
      omega
    rw [List.getD_eq_getElem _ _ hlt]
    exact htable _ (List.getElem_mem hlt)
  · exact machine.beyond_ne num

theorem code_ne : ∀ b ∈ machine.code, b ≠ 0 := by
  intro b hb
  rcases List.mem_append.1 (show b ∈ machine.lpszPrefix ++ (forRange 0 _ (fun i reg => reg ++ codeAt machine.beyond
    (digitNum ((machine.strmachine.map toLower).getD i 0))) []).map toUpper from hb) with hb | hb
  · exact machine.lpszPrefix_ne b hb
  · obtain ⟨c, hc, rfl⟩ := List.mem_map.1 hb
    refine toUpper_ne_zero (forRange_inv (P := fun _ (reg : CString) => ∀ b ∈ reg, b ≠ 0) (Nat.zero_le _) ?_ ?_ c hc)
    · exact fun _ hnil => absurd hnil List.not_mem_nil
    · intro i reg _ _ hreg b hb
      rcases List.mem_append.1 hb with hb | hb
      · exact hreg b hb
      · exact codeAt_ne _ b hb

theorem cStr_eq {s : CString} (h : ∀ b ∈ s, b ≠ 0) : s.cStr = s := by
  unfold CString.cStr
  rw [List.takeWhile_eq_self_iff]
  exact fun b hb => decide_eq_true (h b hb)

theorem equal_code : equal machine.code machine'.code = true ↔ machine.code = machine'.code := by
  unfold equal
  rw [decide_eq_true_iff, cStr_eq code_ne, cStr_eq code_ne]

theorem isRregistered_elsewhere (hne : machine.code ≠ machine'.code) {strText m_strSerial : CString} {mem : Memory} {file : RegFile}
    (h : (onBnClickedOk machine' strText mem m_strSerial file).1 = true) (strText₁ strText₂ : CString) (mem' : Memory) :
    isRregistered machine strText₁ strText₂ mem' (onBnClickedOk machine' strText mem m_strSerial file).2 = false := by
  rcases onBnClickedOk_cases machine' strText mem m_strSerial file with hno | hyes
  · rw [hno] at h
    exact absurd h Bool.false_ne_true
  · rw [hyes]
    unfold isRregistered
    dsimp only
    rw [serializeLoad_store, validateSerial_code, manager_code]
    exact if_neg fun hequal => hne (equal_code.1 hequal)

/-! ## What a user enters -/

theorem serial_eq (h₂₄ : machine.code.length ≤ 24) :
    machine.serial.length = 20 ∧ ∀ b ∈ machine.serial, b ∈ stringdata := by
  unfold Machine.serial
  rw [getFinalDataCString_eq _ h₂₄]
  exact ⟨firstBytes_length 20 _, serial_mem _ _ 20⟩

theorem trim_eq {s : CString} (h : ∀ b ∈ s, isspace b = false) : trim s = s := by
  have hdrop : ∀ l : CString, (∀ b ∈ l, isspace b = false) → l.dropWhile isspace = l := fun l hl =>
    List.dropWhile_eq_self_iff.2 fun hpos hspace => Bool.noConfusion (hspace.symm.trans (hl _ (List.getElem_mem hpos)))
  unfold trim
  rw [hdrop s.reverse fun b hb => h b (List.mem_reverse.1 hb), List.reverse_reverse, hdrop s h]

theorem onBnClickedOk_serial (h₂ : 2 ≤ machine.code.length) (h₂₄ : machine.code.length ≤ 24) (strText : CString) (mem : Memory)
    (file : RegFile) : (onBnClickedOk machine strText mem machine.serial file).1 = true := by
  obtain ⟨hlength, hmem⟩ := serial_eq h₂₄
  have halphabet : ∀ b ∈ stringdata, isspace b = false := by simp [stringdata, isspace]
  have hempty : ¬ machine.serial.isEmpty = true := by
    rw [List.isEmpty_iff_length_eq_zero]
    omega
  unfold onBnClickedOk
  rw [trim_eq fun b hb => halphabet b (hmem b hb), if_neg hempty, validateSerial_machine h₂ h₂₄]
  dsimp only
  rw [if_pos (equalNoCase_self machine.serial)]

/-- Two machines without a prefix, of which the addresses have ten digits. -/
def home : Machine := ⟨[0x30, 0x31, 0x32, 0x33, 0x34, 0x35, 0x36, 0x37, 0x38, 0x39], [], fun _ => [], nofun, fun _ _ => nofun⟩

def away : Machine := ⟨[0x30, 0x31, 0x32, 0x33, 0x34, 0x35, 0x36, 0x37, 0x38, 0x61], [], fun _ => [], nofun, fun _ _ => nofun⟩

def enterSerial : Click := ⟨[0x20], Memory.withData fun _ => 7, home.serial⟩

def enterA : Click := ⟨[0x21], Memory.withData fun _ => 8, [0x41]⟩

end StarLib.RegSoftDlg
