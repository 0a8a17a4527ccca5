import StarLib.Foundations.Ascii
import StarLib.LicenseLib.Des
import StarLib.LicenseLib.LuaCode
import StarLib.LicenseLib.Md5
import StarLib.LicenseLib.Rc4

/-! # Licences

`register.cpp`: the generator `get_licensecode_core`, which writes 24 of the hundred bytes of a licence,
and the checker `test_licensecode`, which decrypts a candidate, generates the licence of its random byte
once more and compares all hundred bytes without regard to case. Between these the checker has
interference blocks, which also can refuse a candidate.

A machine code is given (the pointer is not null), the process is not debugged, and the scratch
structures that RC4 overruns are taken as large enough and apart from everything else.
-/

namespace StarLib.LicenseLib
open Foundations
set_option autoImplicit false
set_option maxHeartbeats 250000
set_option maxRecDepth 120000

def KEYGEN_VERSION : Byte := 0x2

/-- A C string: the characters before the terminator. -/
structure CStr where
  chars : List Byte
  noZero : 0 ∉ chars

/-- `strlen`. -/
def CStr.strlen (s : CStr) : ℕ := s.chars.length

/-- The hundred bytes of a licence. -/
structure LicenseCode where
  buffer : List Byte
  length_eq : buffer.length = 100

/-- `LicenseCode new_code = {0}`. -/
def zeroCode : LicenseCode := ⟨List.replicate 100 0, List.length_replicate⟩

/-! ## `license_flag` in memory -/

structure LicenseFlag where
  ver : Byte
  v1 : Byte
  v2 : Byte
  v3 : Byte
  key0 : DWord
  key1 : DWord
  key2 : DWord
  key3 : DWord
  crc : DWord

def wordBytes (x : DWord) : List Byte := [byteAt x 0, byteAt x 1, byteAt x 2, byteAt x 3]

def wordAt (p : List Byte) (off : ℕ) : DWord :=
  ofBytes (p.getD off 0) (p.getD (off + 1) 0) (p.getD (off + 2) 0) (p.getD (off + 3) 0)

def LicenseFlag.bytes (lf : LicenseFlag) : List Byte :=
  [lf.ver, lf.v1, lf.v2, lf.v3] ++ wordBytes lf.key0 ++ wordBytes lf.key1 ++ wordBytes lf.key2 ++ wordBytes lf.key3 ++
    wordBytes lf.crc

/-- The structure that lies at the start of a buffer. -/
def flagAt (p : List Byte) : LicenseFlag where
  ver := p.getD 0 0
  v1 := p.getD 1 0
  v2 := p.getD 2 0
  v3 := p.getD 3 0
  key0 := wordAt p 4
  key1 := wordAt p 8
  key2 := wordAt p 12
  key3 := wordAt p 16
  crc := wordAt p 20

theorem flagAt_bytes (lf : LicenseFlag) : flagAt lf.bytes = lf := by
  have hword : ∀ x : DWord, ofBytes (byteAt x 0) (byteAt x 1) (byteAt x 2) (byteAt x 3) = x := ofBytes_byteAt
  obtain ⟨ver, v1, v2, v3, key0, key1, key2, key3, crc⟩ := lf
  simp [flagAt, wordAt, LicenseFlag.bytes, wordBytes, hword]

/-! ## The generator -/

/-- `(rand() % 493 + 7) / 7`. -/
def randomByte (rand : ℕ) : Byte := BitVec.ofNat 8 ((rand % 493 + 7) / 7)

/-- The structure that `get_licensecode_core` encrypts. -/
def licenseFlag (mc : MachineCode) (v3 : Byte) : LicenseFlag :=
  let key := avMd5Sum (fun _ => 0) mc.buffer
  let codes := (getLuacodeCore false mc).2
  { ver := KEYGEN_VERSION
    v1 := ((codes.2 >>> 16) &&& 0x7f).setWidth 8
    v2 := (codes.2 &&& 0xfe).setWidth 8
    v3 := v3
    key0 := key.getD 0 0
    key1 := key.getD 1 0
    key2 := key.getD 2 0
    key3 := key.getD 3 0
    crc := codes.1 }

/-- `test_key`: the name with each character changed, filled up with zeros. -/
def testKey (name : CStr) : List Byte := name.chars.map (· ^^^ 0x85) ++ List.replicate (24 - name.strlen) 0

/-- The context for the key of a name; 192 bits are accepted. -/
def desContext (name : CStr) : AVDES := (avDesInit (testKey name) 192).getD ⟨[], false⟩

/-- A buffer with its first 24 bytes written over. -/
def LicenseCode.write (lc : LicenseCode) (p : List Byte) (hp : p.length = 24) : LicenseCode :=
  ⟨p ++ lc.buffer.drop 24, by rw [List.length_append, List.length_drop, lc.length_eq, hp]⟩

/-- `get_licensecode_core`; `rand` is the next random number, used when `flag` is 0. -/
def getLicensecodeCore (name : CStr) (mc : MachineCode) (lc : LicenseCode) (flag : ℤ) (rand : ℕ) : ℤ × LicenseCode :=
  if 24 < name.strlen then (-1, lc)
  else
    let v3 := if flag = 0 then randomByte rand else BitVec.ofInt 8 flag
    let lf := licenseFlag mc v3
    (0, lc.write (avDesCrypt (desContext name) lf.bytes 3 false) (avDesCrypt_length ..))

/-- `get_licensecode`. -/
def getLicensecode (name : CStr) (mc : MachineCode) (lc : LicenseCode) (rand : ℕ) : ℤ × LicenseCode :=
  getLicensecodeCore name mc lc 0 rand

/-! ## The checker -/

/-- `_memicmp` of whole licences is 0. -/
def memicmpEqual (a b : LicenseCode) : Prop := a.buffer.map toLower = b.buffer.map toLower

instance (a b : LicenseCode) : Decidable (memicmpEqual a b) :=
  inferInstanceAs (Decidable (a.buffer.map toLower = b.buffer.map toLower))

/-- `soft`, the key of the second block. -/
def GHOFFICE : List Byte := [0x73, 0x6f, 0x66, 0x74]

/-- A whole licence through RC4 with a key of four bytes. -/
def rc4Code (key : List Byte) (lc : LicenseCode) : Rc4Run :=
  avRc4Crypt ((avRc4Init key (4 * 8)).getD ⟨[], 0, 0⟩) lc.buffer 100

/-- What the checker reads as a machine code: the licence through RC4 with its own bytes 20 to 23. -/
def junkMachine (lc : LicenseCode) : MachineCode :=
  ⟨(rc4Code (wordBytes (flagAt lc.buffer).crc) lc).dst, avRc4Crypt_length ..⟩

/-- The flags that the checker decrypts. -/
def decryptedFlag (name : CStr) (lc : LicenseCode) : LicenseFlag :=
  flagAt (avDesCrypt (desContext name) lc.buffer 3 true)

/-- `test_licensecode`. `rand` and `rand2` are the random numbers for the two calls of the generator. -/
def testLicensecode (name : CStr) (mc : MachineCode) (lc : LicenseCode) (rand rand2 : ℕ) : ℤ :=
  if 24 < name.strlen then -1
  else if name.strlen ≤ 0 then -1
  else
    let lf := flagAt lc.buffer
    let rc4_2 := rc4Code GHOFFICE lc
    let lf2 := flagAt rc4_2.dst
    let rc4_3 := rc4Code (wordBytes lf.crc) lc
    let lf3 := flagAt rc4_3.dst
    let lf := { lf with crc := lf2.crc + lf3.crc }
    if lf.crc = 0 then -1
    else
      let lf := decryptedFlag name lc
      if lf.ver ≠ KEYGEN_VERSION then -1
      else if rc4_2.r.x = 0 then -1
      else if rc4_3.r.x = 0 then -1
      else
        let x := countOnes lf.crc
        if lf.v1 &&& 0x80 ≠ 0 ∨ lf.v2 &&& 0x01 ≠ 0 ∨ (lf.v3.toInt.tmod 7 ≠ 0 ∧ 500 < lf.v3.toInt) then -1
        else if x = lf.key2 ∨ x = 0 then -1
        else
          let new_code := (getLicensecodeCore name mc zeroCode lf.v3.toInt rand).2
          let new_code2 := (getLicensecodeCore name (junkMachine lc) zeroCode ((lf.crc &&& 0xe8).toNat : ℤ) rand2).2
          if memicmpEqual new_code new_code2 then -1
          else if ¬ memicmpEqual new_code lc then -1
          else 0

end StarLib.LicenseLib
