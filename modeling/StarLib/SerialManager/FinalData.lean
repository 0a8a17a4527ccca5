import StarLib.SerialManager.Des
import StarLib.SerialManager.Rc5
import StarLib.SerialManager.Seal

/-! # `CSerialManager::GetFinalData`

The serial of a card number: the number is extended to 24 bytes by a feedback loop, enciphered three
times with an exchange of bytes in between, folded to ten words, and mapped to an alphabet of 36
characters. The two overloads differ in how they read the number and store the characters; everything
in between is the same text, and is `encipher` here. The local arrays and the contexts from `new` are
not initialised: a call gets them as a `Memory`.
-/

namespace StarLib.SerialManager
open Foundations
set_option autoImplicit false
set_option maxHeartbeats 250000
set_option maxRecDepth 120000

/-- A `CString` of a multi-byte build: any bytes, zero included. -/
abbrev CString := List Byte

/-- `CString::Insert`, which moves an index past the end to the end. -/
def CString.insert (s : CString) (nIndex : ℕ) (ch : Byte) : CString := s.insertIdx (min nIndex s.length) ch

/-- What a call finds in the memory that it does not initialise. `data` has 24 cells; the cells past them
are what is behind the array. -/
structure Memory where
  data : ℕ → Byte
  des : DesMemory
  dc : DesCtx
  ldata : ℕ → DWord
  xk : ℕ → DWord
  pk : ℕ → DWord
  sc : SealCtx
  w : ℕ → ℕ → DWord
  fdata : ℕ → DWord
  sdata : ℕ → Byte
  chardataindex : ℕ → Byte

/-- A memory with `data` as it is given and zeros elsewhere. -/
def Memory.withData (data : ℕ → Byte) : Memory where
  data := data
  des := ⟨fun _ => 0, fun _ => 0, fun _ => 0, fun _ => 0, fun _ => 0⟩
  dc := ⟨fun _ => 0, fun _ => 0⟩
  ldata := fun _ => 0
  xk := fun _ => 0
  pk := fun _ => 0
  sc := ⟨fun _ => 0, fun _ => 0, fun _ => 0, 0, fun _ => 0, 0⟩
  w := fun _ _ => 0
  fdata := fun _ => 0
  sdata := fun _ => 0
  chardataindex := fun _ => 0

/-! ## The card number -/

/-- `while (i < nSize) { data[i] = data[j] ^ data[j + 1]; i++; j++; }` from `i = len`, `j = 0`. -/
def feedback (len nSize : ℕ) (data : ℕ → Byte) : ℕ → Byte :=
  forRange len nSize (fun i data => Function.update data i (data (i - len) ^^^ data (i - len + 1))) data

def swapBytes (i j : ℕ) (data : ℕ → Byte) : ℕ → Byte :=
  Function.update (Function.update data i (data j)) j (data i)

/-- The loop on `i = 1, 3, … < nSize / 2` and `j = nSize / 2, nSize / 2 + 2, …`. -/
def swapLoop (nSize : ℕ) (data : ℕ → Byte) : ℕ → Byte :=
  forRange 0 (nSize / 2 / 2) (fun k data => swapBytes (2 * k + 1) (nSize / 2 + 2 * k) data) data

/-- `CardNumToData` of a `BYTE` array. -/
def cardNumToDataArray (cardnum data : ℕ → Byte) (narcardSize ndataSize : ℕ) : ℕ → Byte :=
  let data := fill narcardSize cardnum data
  swapLoop ndataSize (feedback narcardSize ndataSize data)

/-- `CardNumToData` of a `CString`. -/
def cardNumToDataCString (cardnum : CString) (data : ℕ → Byte) (nSize : ℕ) : ℕ → Byte :=
  let len := cardnum.length
  let data := fill len (fun i => cardnum.getD i 0) data
  swapLoop nSize (feedback len nSize data)

/-! ## From 24 bytes to 20 -/

def desKeyBytes : List Byte := [0x84, 0x79, 0x06, 0x91, 0x26, 0x8c, 0x1a, 0x3f]

def rckey : List Byte := [0x49, 0x3c, 0x91, 0xa5, 0xf0]

def sealkey : List Byte :=
  [0xa5, 0x61, 0x8f, 0x0d, 0x63, 0x9e, 0xfa, 0x22, 0x1c, 0x48, 0xe3, 0x57, 0x04, 0x73, 0xde, 0x8b, 0xf4, 0x92,
   0x6a, 0x9c]

def charToLong (olddata : ℕ → Byte) (oldSize : ℕ) (newdata : ℕ → DWord) : ℕ → DWord :=
  fill ((oldSize + 1) / 2) (fun k =>
    (olddata (2 * k + 1)).setWidth 32 |||
      (((((olddata (2 * k)).setWidth 32) &&& 0x0000ffff) <<< 16) &&& 0xffff0000)) newdata

def longToChar (olddata : ℕ → DWord) (oldSize : ℕ) (newdata : ℕ → Byte) : ℕ → Byte :=
  fillPairs oldSize (fun i => ((olddata i >>> 16) &&& 0x0000ffff).setWidth 8)
    (fun i => (olddata i &&& 0x0000ffff).setWidth 8) newdata

/-- Twelve words folded to the ten of `fdata`. -/
def foldWords (ldata fdata : ℕ → DWord) : ℕ → DWord :=
  let fdata := fill 10 ldata fdata
  let fdata := Function.update fdata 2 (ldata 2 ^^^ ldata 7)
  let fdata := Function.update fdata 4 (ldata 4 ^^^ ldata 9)
  let fdata := Function.update fdata 7 (ldata 8)
  let fdata := Function.update fdata 8 (ldata 10)
  Function.update fdata 9 (ldata 11)

/-- The words after RC5. -/
def mixedWords (mem : Memory) (data : ℕ → Byte) : ℕ → DWord :=
  let nSize := 24
  let data := desEncrypt mem.des mem.dc desKeyBytes (nSize / 8) data
  let data := swapLoop nSize data
  rc5Enc mem.xk mem.pk 15 rckey (charToLong data 24 mem.ldata) (12 / 2)

/-- The body that the two overloads share, from `data` to `sdata`. Before SEAL it has the exchange loop once
more, with `nSize = 12`; there `i` still is 13 and the loop does not run. -/
def encipher (mem : Memory) (data : ℕ → Byte) : ℕ → Byte :=
  let ldata := sealEnc mem.w mem.sc sealkey (mixedWords mem data) 12
  longToChar (foldWords ldata mem.fdata) 10 mem.sdata

/-! ## The characters -/

/-- `(BYTE)((charsum * data[i]) / numsum)`; 36 times a byte over 256 is exact in a `FLOAT`. -/
def charIndex (d : Byte) : Byte := BitVec.ofNat 8 (36 * d.toNat / 256)

def dataToStringArray (chardataindex data finaldata : ℕ → Byte) (dataSize : ℕ) : ℕ → Byte :=
  let chardataindex := fill dataSize (fun i => charIndex (data i)) chardataindex
  fill dataSize (fun i => stringdata.getD (chardataindex i).toNat 0) finaldata

def dataToStringCString (chardataindex data : ℕ → Byte) (finaldata : CString) (nSize : ℕ) : CString :=
  let chardataindex := fill nSize (fun i => charIndex (data i)) chardataindex
  forRange 0 nSize (fun i finaldata => finaldata.insert (i + 1) (stringdata.getD (chardataindex i).toNat 0))
    finaldata

/-! ## The overloads -/

/-- `GetFinalData` of `BYTE` arrays: the return code, and `finaldata` afterwards. -/
def getFinalDataArray (mem : Memory) (cardnum finaldata : ℕ → Byte) (narcardSize narfinalSize : ℕ) :
    ℤ × (ℕ → Byte) :=
  if 24 < narcardSize then (-1, finaldata)
  else if narfinalSize ≠ 20 then (-2, finaldata)
  else
    let sdata := encipher mem (cardNumToDataArray cardnum mem.data narcardSize 24)
    (1, dataToStringArray mem.chardataindex sdata finaldata (10 * 2))

/-- `GetFinalData` of `CString`s. -/
def getFinalDataCString (mem : Memory) (cardnum finaldata : CString) : ℤ × CString :=
  if 24 < cardnum.length then (-1, finaldata)
  else
    let sdata := encipher mem (cardNumToDataCString cardnum mem.data 24)
    (1, dataToStringCString mem.chardataindex sdata [] (10 * 2))

/-! ## What the stages read -/

/-- Character `i` of the serial, from the extended card number. -/
def serialChar (mem : Memory) (data : ℕ → Byte) (i : ℕ) : Byte :=
  stringdata.getD (charIndex (encipher mem data i)).toNat 0

/-- The first `n` bytes of an array, as a string. -/
def firstBytes (n : ℕ) (a : ℕ → Byte) : CString := (List.range n).map a

theorem firstBytes_length (n : ℕ) (a : ℕ → Byte) : (firstBytes n a).length = n := by
  simp [firstBytes]

theorem firstBytes_congr {n : ℕ} {a b : ℕ → Byte} (h : AgreeBelow n a b) : firstBytes n a = firstBytes n b :=
  List.map_congr_left fun i hi => h i (List.mem_range.mp hi)

theorem firstBytes_getD {n i : ℕ} (hi : i < n) (a : ℕ → Byte) : (firstBytes n a).getD i 0 = a i := by
  simp [firstBytes, List.getD_eq_getElem?_getD, hi]

theorem agreeBelow_of_firstBytes {n : ℕ} {a b : ℕ → Byte} (h : firstBytes n a = firstBytes n b) : AgreeBelow n a b := by
  intro i hi
  rw [← firstBytes_getD hi a, h, firstBytes_getD hi]

theorem cardNumToDataArray_eq (cardnum data : ℕ → Byte) (n nSize : ℕ) :
    cardNumToDataArray cardnum data n nSize = cardNumToDataCString (firstBytes n cardnum) data nSize := by
  have hcopy : fill n cardnum data = fill n (fun i => (firstBytes n cardnum).getD i 0) data := by
    funext p
    rw [fill_apply, fill_apply]
    by_cases hp : p < n
    · rw [if_pos hp, if_pos hp, firstBytes_getD hp]
    · rw [if_neg hp, if_neg hp]
  unfold cardNumToDataArray cardNumToDataCString
  simp only
  rw [firstBytes_length, hcopy]

theorem swapLoop_agree {nSize : ℕ} {a b : ℕ → Byte} (h : AgreeBelow nSize a b) :
    AgreeBelow nSize (swapLoop nSize a) (swapLoop nSize b) := by
  refine forRange_rel (fun _ a b => AgreeBelow nSize a b) (Nat.zero_le _) h ?_
  intro k a b _ hk hab
  unfold swapBytes
  rw [hab (2 * k + 1) (by omega), hab (nSize / 2 + 2 * k) (by omega)]
  exact (hab.update _ _).update _ _

/-- With two characters or more the feedback reads only bytes that are written before. -/
theorem cardNumToData_agree {card : CString} (hcard : 2 ≤ card.length) (hle : card.length ≤ 24)
    (data data' : ℕ → Byte) :
    AgreeBelow 24 (cardNumToDataCString card data 24) (cardNumToDataCString card data' 24) := by
  have hcopy : AgreeBelow card.length (fill card.length (fun i => card.getD i 0) data)
      (fill card.length (fun i => card.getD i 0) data') := AgreeBelow.fill (fun _ _ => rfl) data data'
  refine swapLoop_agree (hcopy.forRange_push hle fun i a b hi _ hab => ?_)
  rw [hab (i - card.length) (by omega), hab (i - card.length + 1) (by omega)]

theorem mixedWords_agree (mem mem' : Memory) {data data' : ℕ → Byte} (h : AgreeBelow 24 data data') :
    AgreeBelow 12 (mixedWords mem data) (mixedWords mem' data') := by
  have hdes := desEncrypt_agree mem.des mem'.des mem.dc mem'.dc desKeyBytes (24 / 8) h
  have hswap : AgreeBelow 24 _ _ := swapLoop_agree hdes
  have hwords : AgreeBelow 12 (charToLong (swapLoop 24 (desEncrypt mem.des mem.dc desKeyBytes (24 / 8) data)) 24
      mem.ldata) (charToLong (swapLoop 24 (desEncrypt mem'.des mem'.dc desKeyBytes (24 / 8) data')) 24 mem'.ldata) := by
    refine AgreeBelow.fill (n := (24 + 1) / 2) (fun k hk => ?_) mem.ldata mem'.ldata
    rw [hswap (2 * k) (by omega), hswap (2 * k + 1) (by omega)]
  exact rc5Enc_agree mem.xk mem'.xk mem.pk mem'.pk 15 rckey (by decide) (12 / 2) hwords

theorem foldWords_agree {a b : ℕ → DWord} (h : AgreeBelow 12 a b) (fdata fdata' : ℕ → DWord) :
    AgreeBelow 10 (foldWords a fdata) (foldWords b fdata') := by
  have hfill : AgreeBelow 10 (fill 10 a fdata) (fill 10 b fdata') :=
    AgreeBelow.fill (fun i hi => h i (by omega)) fdata fdata'
  unfold foldWords
  rw [h 2 (by omega), h 7 (by omega), h 4 (by omega), h 9 (by omega), h 8 (by omega), h 10 (by omega),
    h 11 (by omega)]
  exact ((((hfill.update _ _).update _ _).update _ _).update _ _).update _ _

theorem longToChar_agree {n : ℕ} {a b : ℕ → DWord} (h : AgreeBelow n a b) (sdata sdata' : ℕ → Byte) :
    AgreeBelow (2 * n) (longToChar a n sdata) (longToChar b n sdata') := by
  intro p hp
  unfold longToChar
  rw [fillPairs_apply _ _ _ hp, fillPairs_apply _ _ _ hp, h (p / 2) (by omega)]

/-- The stages between the card number and the characters do not depend on the memory they work in. -/
theorem encipher_agree (mem mem' : Memory) {data data' : ℕ → Byte} (h : AgreeBelow 24 data data') :
    AgreeBelow 20 (encipher mem data) (encipher mem' data') := by
  have hseal := sealEnc_agree mem.w mem'.w mem.sc mem'.sc sealkey (mixedWords_agree mem mem' h)
  exact longToChar_agree (foldWords_agree hseal mem.fdata mem'.fdata) mem.sdata mem'.sdata

theorem serialChar_agree (mem mem' : Memory) {data data' : ℕ → Byte} (h : AgreeBelow 24 data data') :
    AgreeBelow 20 (serialChar mem data) (serialChar mem' data') := by
  intro i hi
  unfold serialChar
  rw [encipher_agree mem mem' h i hi]

theorem dataToStringArray_apply (chardataindex data finaldata : ℕ → Byte) {n i : ℕ} (hi : i < n) :
    dataToStringArray chardataindex data finaldata n i = stringdata.getD (charIndex (data i)).toNat 0 := by
  unfold dataToStringArray
  rw [fill_apply_of_lt hi, fill_apply_of_lt hi]

/-- From an empty string every insertion is at the end. -/
theorem dataToStringCString_eq (chardataindex data : ℕ → Byte) (n : ℕ) :
    dataToStringCString chardataindex data [] n =
      (List.range n).map fun i => stringdata.getD (charIndex (data i)).toNat 0 := by
  unfold dataToStringCString
  refine forRange_inv (P := fun m (s : CString) =>
    s = (List.range m).map fun i => stringdata.getD (charIndex (data i)).toNat 0) (Nat.zero_le n) rfl ?_
  intro i s _ hi hs
  have hlen : s.length = i := by simp [hs]
  have hmin : min (i + 1) s.length = s.length := by omega
  unfold CString.insert
  rw [fill_apply_of_lt hi, hmin, List.insertIdx_length_self, List.range_succ, List.map_append, hs]
  rfl

theorem getFinalDataArray_eq (mem : Memory) {n : ℕ} (hle : n ≤ 24) (cardnum finaldata : ℕ → Byte) :
    (getFinalDataArray mem cardnum finaldata n 20).1 = 1 ∧
      firstBytes 20 (getFinalDataArray mem cardnum finaldata n 20).2 =
        firstBytes 20 (serialChar mem (cardNumToDataCString (firstBytes n cardnum) mem.data 24)) := by
  have hno : ¬ 24 < n := by omega
  unfold getFinalDataArray
  rw [if_neg hno, if_neg (by decide)]
  refine ⟨rfl, firstBytes_congr fun i hi => ?_⟩
  show dataToStringArray _ _ _ (10 * 2) i = _
  rw [dataToStringArray_apply _ _ _ hi, cardNumToDataArray_eq]
  rfl

theorem getFinalDataCString_eq (mem : Memory) {card : CString} (hle : card.length ≤ 24) (finaldata : CString) :
    getFinalDataCString mem card finaldata =
      (1, firstBytes 20 (serialChar mem (cardNumToDataCString card mem.data 24))) := by
  have hno : ¬ 24 < card.length := by omega
  unfold getFinalDataCString
  rw [if_neg hno]
  show ((1 : ℤ), dataToStringCString _ _ [] (10 * 2)) = _
  rw [dataToStringCString_eq]
  rfl

/-- A card number that is too long leaves the string as it was. -/
theorem getFinalDataCString_long (mem : Memory) {card : CString} (hlong : 24 < card.length) (finaldata : CString) :
    getFinalDataCString mem card finaldata = (-1, finaldata) := by
  unfold getFinalDataCString
  rw [if_pos hlong]

end StarLib.SerialManager
