import StarLib.LicenseLib.Register

/-! # What the checker accepts

A candidate passes when none of the interference blocks fires and it is, up to letter case, the licence
that the generator writes into a zero buffer for the random byte the candidate holds. So an issued licence
passes only if the rest of its buffer was zero, and a candidate in another letter case can pass as well.
-/

namespace StarLib.LicenseLib
open Foundations
set_option autoImplicit false
set_option maxHeartbeats 250000
set_option maxRecDepth 120000

/-! ## The checks one by one -/

/-- The sum that the first interference block compares with zero. -/
def crcSum (lc : LicenseCode) : DWord := (flagAt (rc4Code GHOFFICE lc).dst).crc + (flagAt (junkMachine lc).buffer).crc

/-- The licence that the checker generates for the random byte of a candidate. -/
def regenerated (name : CStr) (mc : MachineCode) (lc : LicenseCode) (rand : ℕ) : LicenseCode :=
  (getLicensecodeCore name mc zeroCode (decryptedFlag name lc).v3.toInt rand).2

/-- The licence that the last interference block generates. -/
def junkCode (name : CStr) (lc : LicenseCode) (rand2 : ℕ) : LicenseCode :=
  (getLicensecodeCore name (junkMachine lc) zeroCode (((decryptedFlag name lc).crc &&& 0xe8).toNat : ℤ) rand2).2

/-- The checks before the comparison with the candidate. -/
structure PassesChecks (name : CStr) (mc : MachineCode) (lc : LicenseCode) (rand rand2 : ℕ) : Prop where
  named : 0 < name.strlen
  short : name.strlen ≤ 24
  crcSum_ne : crcSum lc ≠ 0
  version : (decryptedFlag name lc).ver = KEYGEN_VERSION
  bits : (decryptedFlag name lc).v1 &&& 0x80 = 0 ∧ (decryptedFlag name lc).v2 &&& 0x01 = 0
  ones : countOnes (decryptedFlag name lc).crc ≠ (decryptedFlag name lc).key2 ∧
    countOnes (decryptedFlag name lc).crc ≠ 0
  junk : ¬ memicmpEqual (regenerated name mc lc rand) (junkCode name lc rand2)

/-- RC4 has moved its position from 1 to 101. -/
theorem rc4Code_x (key : List Byte) (lc : LicenseCode) : (rc4Code key lc).r.x ≠ 0 := by
  have hx : ∀ r : AVRC4, r.x = 1 → (avRc4Crypt r lc.buffer 100).r.x ≠ 0 := by
    intro r hr
    rw [avRc4Crypt_x, hr]
    decide
  have hinit : avRc4Init key (4 * 8) ≠ none := by simp [avRc4Init]
  obtain ⟨r, hr⟩ := Option.ne_none_iff_exists'.mp hinit
  have hone : r.x = 1 := by
    unfold avRc4Init at hr
    rw [if_neg (by decide)] at hr
    rw [← Option.some.inj hr]
  unfold rc4Code
  rw [hr]
  exact hx r hone

/-- The checker without the conditions that no candidate meets. -/
theorem testLicensecode_checks (name : CStr) (mc : MachineCode) (lc : LicenseCode) (rand rand2 : ℕ) :
    testLicensecode name mc lc rand rand2 =
      if 24 < name.strlen then -1
      else if name.strlen ≤ 0 then -1
      else if crcSum lc = 0 then -1
      else if (decryptedFlag name lc).ver ≠ KEYGEN_VERSION then -1
      else if (decryptedFlag name lc).v1 &&& 0x80 ≠ 0 ∨ (decryptedFlag name lc).v2 &&& 0x01 ≠ 0 then -1
      else if countOnes (decryptedFlag name lc).crc = (decryptedFlag name lc).key2 ∨
          countOnes (decryptedFlag name lc).crc = 0 then -1
      else if memicmpEqual (regenerated name mc lc rand) (junkCode name lc rand2) then -1
      else if ¬ memicmpEqual (regenerated name mc lc rand) lc then -1
      else 0 := by
  have hx := fun key => rc4Code_x key lc
  -- a byte read as a signed character stays below 500
  have hv3 : ¬ 500 < (decryptedFlag name lc).v3.toInt := by
    have := BitVec.toInt_lt (x := (decryptedFlag name lc).v3)
    omega
  unfold testLicensecode
  simp only [hx, hv3, if_false, and_false, or_false]
  rfl

theorem testLicensecode_eq_zero (name : CStr) (mc : MachineCode) (lc : LicenseCode) (rand rand2 : ℕ) :
    testLicensecode name mc lc rand rand2 = 0 ↔
      PassesChecks name mc lc rand rand2 ∧ memicmpEqual (regenerated name mc lc rand) lc := by
  rw [testLicensecode_checks]
  constructor
  · intro h
    split_ifs at h with hlong hempty hcrc hver hbits hones hjunk hsame
    rw [not_or, not_not, not_not] at hbits
    rw [not_or] at hones
    exact ⟨⟨by omega, by omega, hcrc, not_not.mp hver, hbits, hones, hjunk⟩, hsame⟩
  · rintro ⟨hpass, hsame⟩
    have hlong : ¬ 24 < name.strlen := Nat.not_lt.mpr hpass.short
    have hempty : ¬ name.strlen ≤ 0 := Nat.not_le.mpr hpass.named
    have hbits : ¬ ((decryptedFlag name lc).v1 &&& 0x80 ≠ 0 ∨ (decryptedFlag name lc).v2 &&& 0x01 ≠ 0) := by
      rw [not_or, not_not, not_not]
      exact hpass.bits
    rw [if_neg hlong, if_neg hempty, if_neg hpass.crcSum_ne, if_neg (not_not.mpr hpass.version), if_neg hbits,
      if_neg (not_or.mpr hpass.ones), if_neg hpass.junk, if_neg (not_not.mpr hsame)]

/-! ## Issued licences -/

theorem randomByte_ne_zero (rand : ℕ) : (randomByte rand).toInt ≠ 0 := by
  have hlt := Nat.mod_lt rand (show 0 < 493 by decide)
  intro h
  have hzero : randomByte rand = 0 := BitVec.toInt_inj.mp (h.trans rfl)
  have hval := congrArg BitVec.toNat hzero
  unfold randomByte at hval
  rw [BitVec.toNat_ofNat] at hval
  simp only [BitVec.ofNat_eq_ofNat, BitVec.toNat_ofNat] at hval
  omega

theorem LicenseCode.ext_buffer {a b : LicenseCode} (h : a.buffer = b.buffer) : a = b := by
  cases a
  cases b
  cases h
  rfl

/-- What the generator leaves in the buffer. -/
theorem getLicensecodeCore_buffer {name : CStr} (hshort : name.strlen ≤ 24) (mc : MachineCode) (lc : LicenseCode)
    (flag : ℤ) (rand : ℕ) :
    (getLicensecodeCore name mc lc flag rand).2.buffer =
      avDesCrypt (desContext name)
        (licenseFlag mc (if flag = 0 then randomByte rand else BitVec.ofInt 8 flag)).bytes 3 false ++
        lc.buffer.drop 24 := by
  unfold getLicensecodeCore
  rw [if_neg (Nat.not_lt.mpr hshort)]
  rfl

theorem decryptedFlag_of_encrypted {name : CStr} {lc : LicenseCode} {lf : LicenseFlag} {tail : List Byte}
    (h : lc.buffer = avDesCrypt (desContext name) lf.bytes 3 false ++ tail) : decryptedFlag name lc = lf := by
  have hlen : lf.bytes.length = 24 := rfl
  unfold decryptedFlag
  rw [h, avDesCrypt_decrypt _ _ _ 3 (by omega), List.take_of_length_le (by omega), flagAt_bytes]

theorem licenseFlag_bits (mc : MachineCode) (v3 : Byte) :
    (licenseFlag mc v3).v1 &&& 0x80 = 0 ∧ (licenseFlag mc v3).v2 &&& 0x01 = 0 := by
  have hlow : ∀ y : DWord, (y &&& 0x7f).setWidth 8 &&& 0x80#8 = 0 := by
    intro y
    apply BitVec.eq_of_getLsbD_eq
    intro i hi
    interval_cases i <;> simp
  have hhigh : ∀ y : DWord, (y &&& 0xfe).setWidth 8 &&& 0x01#8 = 0 := by
    intro y
    apply BitVec.eq_of_getLsbD_eq
    intro i hi
    interval_cases i <;> simp
  exact ⟨hlow _, hhigh _⟩

theorem memicmpEqual_iff (a b : LicenseCode) :
    memicmpEqual a b ↔ ∀ i < 100, toLower (a.buffer.getD i 0) = toLower (b.buffer.getD i 0) := by
  have ha := a.length_eq
  have hb := b.length_eq
  unfold memicmpEqual
  constructor
  · intro h i hi
    have hi' := congrArg (fun l => l.getD i 0) h
    simpa [List.getD_eq_getElem?_getD, ha, hb, hi] using hi'
  · intro h
    refine List.ext_getElem (by rw [List.length_map, List.length_map, ha, hb]) fun i hi hi' => ?_
    rw [List.length_map] at hi hi'
    have hbyte := h i (by omega)
    rw [List.getD_eq_getElem _ 0 hi, List.getD_eq_getElem _ 0 hi'] at hbyte
    rw [List.getElem_map, List.getElem_map, hbyte]

/-- Two licences whose first 24 bytes agree compare equal with a zero rest only if that rest is zero. -/
theorem memicmpEqual_zero_tail {a b : LicenseCode} {p tail : List Byte} (ha : a.buffer = p ++ List.replicate 76 0)
    (hb : b.buffer = p ++ tail) : memicmpEqual a b ↔ tail = List.replicate 76 0 := by
  have hlen : tail.length = 76 := by
    have hp := a.length_eq
    have hp' := b.length_eq
    rw [ha, List.length_append, List.length_replicate] at hp
    rw [hb, List.length_append] at hp'
    omega
  unfold memicmpEqual
  rw [ha, hb, List.map_append, List.map_append, List.append_cancel_left_eq, List.map_replicate]
  constructor
  · intro h
    refine List.eq_replicate_iff.mpr ⟨hlen, fun b hb => ?_⟩
    have hmem : toLower b ∈ List.replicate 76 (toLower 0) := h ▸ List.mem_map_of_mem hb
    exact toLower_eq_zero.mp (List.eq_of_mem_replicate hmem)
  · intro h
    rw [h, List.map_replicate]

/-- The licence that the generator writes into a zero buffer. -/
def issued (name : CStr) (mc : MachineCode) (rand : ℕ) : LicenseCode := (getLicensecode name mc zeroCode rand).2

/-- No interference block of the checker fires on the licence of a name, a machine code and a random number. -/
structure NotInterfered (name : CStr) (mc : MachineCode) (rand rand2 : ℕ) : Prop where
  crcSum_ne : crcSum (issued name mc rand) ≠ 0
  ones : countOnes (licenseFlag mc (randomByte rand)).crc ≠ (licenseFlag mc (randomByte rand)).key2 ∧
    countOnes (licenseFlag mc (randomByte rand)).crc ≠ 0
  junk : ¬ memicmpEqual (issued name mc rand) (junkCode name (issued name mc rand) rand2)

theorem getLicensecode_buffer {name : CStr} (hshort : name.strlen ≤ 24) (mc : MachineCode) (lc : LicenseCode) (rand : ℕ) :
    (getLicensecode name mc lc rand).2.buffer =
      avDesCrypt (desContext name) (licenseFlag mc (randomByte rand)).bytes 3 false ++ lc.buffer.drop 24 := by
  unfold getLicensecode
  rw [getLicensecodeCore_buffer hshort, if_pos rfl]

/-- The checker reads the random byte of an issued licence back, and so generates the same licence. -/
theorem regenerated_issued {name : CStr} (hshort : name.strlen ≤ 24) (mc : MachineCode) (lc : LicenseCode)
    (rand rand1 : ℕ) : regenerated name mc (getLicensecode name mc lc rand).2 rand1 = issued name mc rand := by
  have hflag := decryptedFlag_of_encrypted (getLicensecode_buffer hshort mc lc rand)
  apply LicenseCode.ext_buffer
  unfold regenerated issued
  rw [hflag, getLicensecodeCore_buffer hshort, getLicensecode_buffer hshort]
  show avDesCrypt _ (licenseFlag mc (if (randomByte rand).toInt = 0 then _ else _)).bytes 3 false ++ _ = _
  rw [if_neg (randomByte_ne_zero rand), BitVec.ofInt_toInt]
  rfl

theorem passesChecks_issued {name : CStr} (hname : 0 < name.strlen) (hshort : name.strlen ≤ 24) (mc : MachineCode)
    (rand rand1 rand2 : ℕ) :
    PassesChecks name mc (issued name mc rand) rand1 rand2 ↔ NotInterfered name mc rand rand2 := by
  have hflag : decryptedFlag name (issued name mc rand) = licenseFlag mc (randomByte rand) :=
    decryptedFlag_of_encrypted (getLicensecode_buffer hshort mc zeroCode rand)
  have hregenerated : regenerated name mc (issued name mc rand) rand1 = issued name mc rand :=
    regenerated_issued hshort mc zeroCode rand rand1
  constructor
  · intro h
    refine ⟨h.crcSum_ne, ?_, ?_⟩
    · rw [← hflag]
      exact h.ones
    · have hjunk := h.junk
      rwa [hregenerated] at hjunk
  · intro h
    refine ⟨hname, hshort, h.crcSum_ne, ?_, ?_, ?_, ?_⟩
    · rw [hflag]
      rfl
    · rw [hflag]
      exact licenseFlag_bits mc _
    · rw [hflag]
      exact h.ones
    · rw [hregenerated]
      exact h.junk

/-! ## The licences of one machine -/

def letterA : CStr := ⟨[0x61], by decide⟩

/-- The machine code 1, 0, …, 0. -/
def oneMachine : MachineCode := ⟨1 :: List.replicate 99 0, by decide⟩

/-- The licence of `oneMachine` for the random number 0, which has a letter, 0x4c, in its byte 8. -/
def oneCode (b : Byte) : LicenseCode where
  buffer := [148, 129, 235, 1, 143, 24, 8, 154, b, 107, 192, 236, 168, 205, 210, 1, 224, 152, 67, 15, 162, 27, 117, 87] ++
    List.replicate 76 0
  length_eq := by rw [List.length_append, List.length_replicate]; rfl

/-- That licence through RC4 with its bytes 20 to 23. -/
def oneJunk (b : Byte) : MachineCode where
  buffer :=
    [212, 68, 232, 229, 215, 115, 213, 2, b ^^^ 0xe2, 88, 197, 134, 99, 125, 81, 187, 180, 156, 238, 66, 93, 42, 58, 81,
      44, 139, 254, 67, 83, 8, 249, 92, 216, 48, 114, 225, 114, 33, 142, 88, 238, 171, 30, 0, 237, 74, 22, 74, 44, 143,
      36, 59, 200, 231, 44, 242, 164, 205, 247, 78, 67, 154, 180, 134, 170, 224, 61, 96, 218, 197, 178, 239, 242, 111,
      80, 116, 162, 213, 93, 86, 62, 149, 240, 53, 122, 184, 240, 110, 213, 84, 166, 44, 133, 171, 147, 174, 198, 203,
      31, 144]
  length_eq := rfl

theorem rc4Code_packed {key : List Byte} (lc : LicenseCode) :
    (rc4Code key lc).dst = packedRc4 key 4 lc.buffer := by
  obtain ⟨r, hinit, hdst⟩ := avRc4_packed key 4 lc.buffer
  unfold rc4Code
  rw [hinit, ← hdst, lc.length_eq]
  rfl

theorem junkMachine_buffer (lc : LicenseCode) :
    (junkMachine lc).buffer = packedRc4 (wordBytes (flagAt lc.buffer).crc) 4 lc.buffer := rc4Code_packed lc

theorem junkMachine_one : ∀ b ∈ [0x4c, 0x6c], (junkMachine (oneCode b)).buffer = (oneJunk b).buffer := by
  have hpacked : ∀ b ∈ [0x4c, 0x6c], wordBytes (flagAt (oneCode b).buffer).crc = [162, 27, 117, 87] ∧
      packedRc4 [162, 27, 117, 87] 4 (oneCode b).buffer = (oneJunk b).buffer := by
    decide +kernel
  intro b hb
  obtain ⟨hkey, hbuffer⟩ := hpacked b hb
  rw [junkMachine_buffer, hkey, hbuffer]

theorem crcSum_one : ∀ b ∈ [0x4c, 0x6c], crcSum (oneCode b) ≠ 0 := by
  have hpacked : ∀ b ∈ [0x4c, 0x6c],
      (flagAt (packedRc4 GHOFFICE 4 (oneCode b).buffer)).crc + (flagAt (oneJunk b).buffer).crc ≠ 0 := by
    decide +kernel
  intro b hb
  unfold crcSum
  rw [rc4Code_packed, junkMachine_one b hb]
  exact hpacked b hb

theorem licenseFlag_one (v3 : Byte) :
    licenseFlag oneMachine v3 = ⟨2, 0, 0, v3, 17107232, 881898530, 2055259065, 487957346, 1973405341⟩ := by
  obtain ⟨hcodes, hkey⟩ : (getLuacodeCore false oneMachine).2 = (1973405341, 1) ∧
      avMd5Sum (fun _ => 0) oneMachine.buffer = [17107232, 881898530, 2055259065, 487957346] := by
    decide
  unfold licenseFlag
  rw [hcodes, hkey]
  rfl

/-- The round keys of the first key of `letterA`. -/
def letterKeys : List QWord :=
  [584383987712, 141012366262288, 12952076288, 68736253952, 1101122240516, 141014513746048, 17605070946305, 68736385024,
    8933531975682, 17582784512, 74766790688832, 2783138840576, 8933565531136, 35201686700032, 70368744194048,
    17593796659200]

theorem desContext_letterA : desContext letterA = ⟨[letterKeys, List.replicate 16 0, List.replicate 16 0], true⟩ := by
  have hkeys : [genRoundkeys (readBlock (testKey letterA) 0), genRoundkeys (readBlock (testKey letterA) 8),
      genRoundkeys (readBlock (testKey letterA) 16)] = [letterKeys, List.replicate 16 0, List.replicate 16 0] := by
    decide
  unfold desContext avDesInit
  rw [if_neg (by decide), if_pos rfl, hkeys]
  rfl

theorem issued_one : issued letterA oneMachine 0 = oneCode 0x4c := by
  apply LicenseCode.ext_buffer
  rw [issued, getLicensecode_buffer (by decide), licenseFlag_one, desContext_letterA, avDesCrypt_equalKeys]
  decide

/-- The flags of the licence with the letter in lower case. -/
theorem decryptedFlag_one : decryptedFlag letterA (oneCode 0x6c) =
    ⟨2, 0, 0, 1, 17107232, 194977158, 234909580, 487957346, 1973405341⟩ := by
  have hbytes : avDesCrypt ⟨[letterKeys], false⟩ (oneCode 0x6c).buffer 3 true =
      [2, 0, 0, 1, 32, 9, 5, 1, 134, 29, 159, 11, 140, 111, 0, 14, 98, 163, 21, 29, 157, 198, 159, 117] := by
    decide
  rw [decryptedFlag, desContext_letterA, avDesCrypt_equalKeys, hbytes]
  rfl

theorem regenerated_one (rand : ℕ) : regenerated letterA oneMachine (oneCode 0x6c) rand = oneCode 0x4c := by
  rw [← issued_one, regenerated, decryptedFlag_one]
  rfl

/-- The second block of a licence holds the words 1 and 2 of the digest. -/
theorem getLicensecodeCore_byte {name : CStr} (hshort : name.strlen ≤ 24) {mc : MachineCode} (flag : ℤ) (rand : ℕ)
    {key : List DWord} (hkey : avMd5Sum (fun _ => 0) mc.buffer = key) :
    (getLicensecodeCore name mc zeroCode flag rand).2.buffer.getD 8 0 =
      blockByte (avDesBlock (desContext name) (readBlock (wordBytes (key.getD 1 0) ++ wordBytes (key.getD 2 0)) 0) false) 0 := by
  rw [getLicensecodeCore_buffer hshort, List.getD_append _ _ _ _ (by rw [avDesCrypt_length]; decide),
    avDesCrypt_getD _ _ _ (show 1 < 3 by decide) (show 0 < 8 by decide), ← hkey]
  have hread : ∀ lf : LicenseFlag, readBlock lf.bytes (8 * 1) = readBlock (wordBytes lf.key1 ++ wordBytes lf.key2) 0 :=
    fun _ => rfl
  rw [hread]
  rfl

/-- The digest of `oneJunk`. -/
def junkKey (b : Byte) : List DWord :=
  if b = 0x4c then [17107232, 2006040109, 674500932, 2889103537] else [17107232, 4282414314, 542281957, 3106804591]

/-- The licence of the last interference block differs in byte 8. -/
theorem junk_one (rand2 : ℕ) : ∀ b ∈ [0x4c, 0x6c], ¬ memicmpEqual (oneCode 0x4c) (junkCode letterA (oneCode b) rand2) := by
  have hblocks : ∀ b ∈ [0x4c, 0x6c], avMd5Sum (fun _ => 0) (oneJunk b).buffer = junkKey b ∧
      toLower 0x4c ≠ toLower (blockByte (avDesBlock ⟨[letterKeys], false⟩
        (readBlock (wordBytes ((junkKey b).getD 1 0) ++ wordBytes ((junkKey b).getD 2 0)) 0) false) 0) := by
    decide
  intro b hb hsame
  have hbyte := (memicmpEqual_iff _ _).mp hsame 8 (by decide)
  obtain ⟨hkey, hdiffer⟩ := hblocks b hb
  rw [← junkMachine_one b hb] at hkey
  rw [junkCode, getLicensecodeCore_byte (by decide) _ _ hkey, desContext_letterA, avDesBlock_equalKeys] at hbyte
  exact hdiffer hbyte

theorem notInterfered_one (rand2 : ℕ) : NotInterfered letterA oneMachine 0 rand2 := by
  refine ⟨?_, ?_, ?_⟩
  · rw [issued_one]
    exact crcSum_one 0x4c (by decide)
  · rw [licenseFlag_one]
    decide
  · rw [issued_one]
    exact junk_one rand2 0x4c (by decide)

/-! ## Acceptance of issued licences -/

/-- Only a buffer whose rest was zero before the call is accepted. -/
theorem accepted_tail {name : CStr} (hshort : name.strlen ≤ 24) {mc : MachineCode} {lc : LicenseCode}
    {rand rand1 rand2 : ℕ} (h : testLicensecode name mc (getLicensecode name mc lc rand).2 rand1 rand2 = 0) :
    lc.buffer.drop 24 = List.replicate 76 0 := by
  have hsame := ((testLicensecode_eq_zero ..).mp h).2
  rw [regenerated_issued hshort] at hsame
  exact (memicmpEqual_zero_tail (getLicensecode_buffer hshort mc zeroCode rand)
    (getLicensecode_buffer hshort mc lc rand)).mp hsame

/-- The checker accepts what the generator wrote exactly when the rest of the buffer was zero before the
call and no interference block fires. -/
theorem issued_accepted_iff (name : CStr) (hname : 0 < name.strlen) (hshort : name.strlen ≤ 24) (mc : MachineCode)
    (lc : LicenseCode) (rand rand1 rand2 : ℕ) :
    testLicensecode name mc (getLicensecode name mc lc rand).2 rand1 rand2 = 0 ↔
      lc.buffer.drop 24 = List.replicate 76 0 ∧ NotInterfered name mc rand rand2 := by
  have hissued : lc.buffer.drop 24 = List.replicate 76 0 → (getLicensecode name mc lc rand).2 = issued name mc rand := by
    intro hrest
    apply LicenseCode.ext_buffer
    rw [getLicensecode_buffer hshort, issued, getLicensecode_buffer hshort, hrest]
    rfl
  constructor
  · intro h
    have hrest := accepted_tail hshort h
    have hpass := ((testLicensecode_eq_zero ..).mp h).1
    rw [hissued hrest, passesChecks_issued hname hshort] at hpass
    exact ⟨hrest, hpass⟩
  · rintro ⟨hrest, hnot⟩
    rw [testLicensecode_eq_zero, hissued hrest, passesChecks_issued hname hshort]
    refine ⟨hnot, ?_⟩
    have hregenerated : regenerated name mc (issued name mc rand) rand1 = issued name mc rand :=
      regenerated_issued hshort mc zeroCode rand rand1
    rw [hregenerated]
    rfl

theorem issued_accepted_sample :
    testLicensecode letterA oneMachine (getLicensecode letterA oneMachine zeroCode 0).2 0 0 = 0 :=
  (issued_accepted_iff letterA (by decide) (by decide) oneMachine zeroCode 0 0 0).mpr ⟨rfl, notInterfered_one 0⟩

/-- A buffer that held the byte 0xcc everywhere. -/
def usedBuffer : LicenseCode := ⟨List.replicate 100 0xcc, List.length_replicate⟩

theorem usedBuffer_refused :
    testLicensecode letterA oneMachine (getLicensecode letterA oneMachine usedBuffer 0).2 0 0 ≠ 0 := by
  intro h
  have hrest := accepted_tail (by decide) h
  exact absurd hrest (by decide)

/-! ## Other letter cases -/

/-- Two licences that differ, at every such place by the case of a letter. -/
structure Recased (a b : LicenseCode) : Prop where
  differ : a ≠ b
  letters : ∀ i < 100, a.buffer.getD i 0 = b.buffer.getD i 0 ∨ CasePair (a.buffer.getD i 0) (b.buffer.getD i 0) ∨
    CasePair (b.buffer.getD i 0) (a.buffer.getD i 0)

theorem recased_iff (a b : LicenseCode) : Recased a b ↔ memicmpEqual a b ∧ a ≠ b := by
  have hbytes : memicmpEqual a b ↔ _ :=
    (memicmpEqual_iff a b).trans (forall₂_congr fun i _ => toLower_eq_iff)
  rw [hbytes]
  exact ⟨fun h => ⟨h.letters, h.differ⟩, fun h => ⟨h.2, h.1⟩⟩

end StarLib.LicenseLib
