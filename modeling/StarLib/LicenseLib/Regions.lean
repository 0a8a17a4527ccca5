import StarLib.LicenseLib.Register

/-! # The objects and the counts of the licence functions

The calls of `get_machinecode`, `get_licensecode_core` and `test_licensecode` that are handed an object and a count, in
the order in which the functions make them. A call is in bounds when no count exceeds the size of its object.
-/

namespace StarLib.LicenseLib
open Foundations
set_option autoImplicit false
set_option maxHeartbeats 250000
set_option maxRecDepth 120000

/-- The variables, members and arguments that are passed on; those of the generator have `core` before their names. -/
inductive Object where
  | name
  | mc
  | lc
  | mf
  | mf_diskid
  | diskid
  | tempcode
  | test_key
  | lf
  | lf_crc
  | lf2
  | lf3
  | GHOFFICE
  | new_code
  | new_code2
  | core_lf
  | core_lf_key
  | core_test_key

/-- `sizeof`; a name has its terminator. -/
def Object.size (name : CStr) : Object → ℕ
  | .name => name.strlen + 1
  | .mc | .lc | .tempcode | .new_code | .new_code2 => 100
  | .mf | .lf | .lf2 | .lf3 | .core_lf => 24
  | .mf_diskid => 18
  | .diskid => 1024
  | .test_key | .core_test_key => 24
  | .lf_crc => 4
  | .GHOFFICE => LicenseLib.GHOFFICE.length + 1
  | .core_lf_key => 16

/-- The counts are those that the functions hand over: bits for the keys and blocks for `av_des_crypt`. -/
inductive Call where
  | memset (dst : Object) (count : ℕ)
  | memcpy (dst src : Object) (count : ℕ)
  | strncpy (dst : Object) (count : ℕ)
  | avRc4Init (key : Object) (key_bits : ℕ)
  | avRc4Crypt (dst src : Object) (count : ℕ)
  | avMd5Sum (dst src : Object) (len : ℕ)
  | avDesInit (key : Object) (key_bits : ℕ)
  | avDesCrypt (dst src : Object) (count : ℕ)
  | memicmp (a b : Object) (count : ℕ)

/-- How many bytes of which object a call reads or writes. `strncpy` copies the name. -/
def Call.accesses (name : CStr) : Call → List (Object × ℕ)
  | .memset dst count => [(dst, count)]
  | .memcpy dst src count => [(dst, count), (src, count)]
  | .strncpy dst count => [(dst, count), (.name, min count (name.strlen + 1))]
  | .avRc4Init key key_bits => [(key, key_bits >>> 3)]
  | .avRc4Crypt dst src count => [(dst, count), (src, count)]
  | .avMd5Sum dst src len => [(dst, 16), (src, len)]
  | .avDesInit key key_bits => [(key, key_bits / 8)]
  | .avDesCrypt dst src count => [(dst, 8 * count), (src, 8 * count)]
  | .memicmp a b count => [(a, count), (b, count)]

def Call.InBounds (name : CStr) (c : Call) : Prop := ∀ a ∈ c.accesses name, a.2 ≤ a.1.size name

/-! ## The functions -/

/-- `get_machinecode`, for the object in which it puts the machine code. -/
def getMachinecodeCalls (machine : Object) : List Call :=
  [.memset machine 100, .memset .mf 24, .memcpy .mf_diskid .diskid 18, .avRc4Init .name (8 * 8), .avRc4Crypt machine .mf 24]

/-- `get_licensecode_core`, for the objects with the machine code and for the licence. -/
def getLicensecodeCoreCalls (name : CStr) (machine license : Object) : List Call :=
  if 24 < name.strlen then []
  else [.memset .core_lf 24, .avMd5Sum .core_lf_key machine 100, .strncpy .core_test_key 24, .avDesInit .core_test_key 192,
    .avDesCrypt license .core_lf 3]

/-- `test_licensecode` after the checks: the two licences that it generates, and its comparisons. -/
def comparisonCalls (name : CStr) (mc : Option MachineCode) (tempcode : MachineCode) (lc : LicenseCode) (rand rand2 : ℕ) : List Call :=
  let lf := decryptedFlag name lc
  let new_code := (getLicensecodeCore name (mc.getD tempcode) zeroCode lf.v3.toInt rand).2
  let new_code2 := (getLicensecodeCore name (junkMachine lc) zeroCode ((lf.crc &&& 0xe8).toNat : ℤ) rand2).2
  getLicensecodeCoreCalls name (if mc.isNone then .tempcode else .mc) .new_code ++ getLicensecodeCoreCalls name .lf3 .new_code2 ++
    [.memicmp .new_code .new_code2 100] ++ if memicmpEqual new_code new_code2 then [] else [.memicmp .new_code .lc 100]

/-- `test_licensecode` after the first two interference blocks. -/
def decryptionCalls (name : CStr) (mc : Option MachineCode) (tempcode : MachineCode) (lc : LicenseCode) (rand rand2 : ℕ) : List Call :=
  let rc4_2 := rc4Code GHOFFICE lc
  let rc4_3 := rc4Code (wordBytes (flagAt lc.buffer).crc) lc
  if (flagAt rc4_2.dst).crc + (flagAt rc4_3.dst).crc = 0 then []
  else
    let lf := decryptedFlag name lc
    [.avDesInit .test_key 192, .avDesCrypt .lf .lc 3] ++
      if lf.ver ≠ KEYGEN_VERSION then []
      else if rc4_2.r.x = 0 then []
      else if rc4_3.r.x = 0 then []
      else
        let x := countOnes lf.crc
        if lf.v1 &&& 0x80 ≠ 0 ∨ lf.v2 &&& 0x01 ≠ 0 ∨ (lf.v3.toInt.tmod 7 ≠ 0 ∧ 500 < lf.v3.toInt) then []
        else if x = lf.key2 ∨ x = 0 then []
        else comparisonCalls name mc tempcode lc rand rand2

/-- `test_licensecode`; a machine code that is not given is `tempcode`. -/
def testLicensecodeCalls (name : CStr) (mc : Option MachineCode) (tempcode : MachineCode) (lc : LicenseCode) (rand rand2 : ℕ) : List Call :=
  if 24 < name.strlen then []
  else if name.strlen ≤ 0 then []
  else
    (if mc.isNone then getMachinecodeCalls .tempcode else []) ++
      [.strncpy .test_key 24, .memcpy .lf .lc 24, .memcpy .lf2 .lc 24, .avRc4Init .GHOFFICE (GHOFFICE.length * 8),
        .avRc4Crypt .lf2 .lc 100, .avRc4Init .lf_crc (4 * 8), .avRc4Crypt .lf3 .lc 100] ++
      decryptionCalls name mc tempcode lc rand rand2

/-! ## Which calls are in bounds -/

variable {name : CStr}

theorem getMachinecodeCalls_inBounds : (∀ c ∈ getMachinecodeCalls .mc, c.InBounds name) ↔ 7 ≤ name.strlen := by
  have hkey : (Call.avRc4Init .name (8 * 8)).InBounds name ↔ 7 ≤ name.strlen := by
    simp only [Call.InBounds, Call.accesses, List.forall_mem_singleton, Object.size]
    omega
  rw [← hkey]
  constructor
  · exact fun h => h _ (by simp [getMachinecodeCalls])
  · intro h c hc
    simp only [getMachinecodeCalls, List.mem_cons, List.not_mem_nil, or_false] at hc
    rcases hc with rfl | rfl | rfl | rfl | rfl
    · simp [Call.InBounds, Call.accesses, Object.size]
    · simp [Call.InBounds, Call.accesses, Object.size]
    · simp [Call.InBounds, Call.accesses, Object.size]
    · exact h
    · simp [Call.InBounds, Call.accesses, Object.size]

/-- The generator reads a hundred bytes of a machine code; its other calls are in bounds. -/
theorem getLicensecodeCoreCalls_cases {machine license : Object} (hlicense : 24 ≤ license.size name) :
    ∀ c ∈ getLicensecodeCoreCalls name machine license, c.InBounds name ∨ c = .avMd5Sum .core_lf_key machine 100 := by
  intro c hc
  unfold getLicensecodeCoreCalls at hc
  split at hc
  · exact absurd hc List.not_mem_nil
  · simp only [List.mem_cons, List.not_mem_nil, or_false] at hc
    rcases hc with rfl | rfl | rfl | rfl | rfl
    · exact Or.inl (by simp [Call.InBounds, Call.accesses, Object.size])
    · exact Or.inr rfl
    · exact Or.inl (by simp [Call.InBounds, Call.accesses, Object.size])
    · exact Or.inl (by simp [Call.InBounds, Call.accesses, Object.size])
    · exact Or.inl (by simpa [Call.InBounds, Call.accesses, Object.size] using hlicense)

theorem getLicensecodeCoreCalls_inBounds {machine license : Object} (hmachine : 100 ≤ machine.size name)
    (hlicense : 24 ≤ license.size name) : ∀ c ∈ getLicensecodeCoreCalls name machine license, c.InBounds name := by
  intro c hc
  rcases getLicensecodeCoreCalls_cases hlicense c hc with h | rfl
  · exact h
  · simpa [Call.InBounds, Call.accesses, Object.size] using hmachine

/-- The decryptions of a hundred bytes into structures of 24, and the checksum of one of these. -/
def overruns : List Call := [.avRc4Crypt .lf2 .lc 100, .avRc4Crypt .lf3 .lc 100, .avMd5Sum .core_lf_key .lf3 100]

theorem comparisonCalls_inBounds (mc : Option MachineCode) (tempcode : MachineCode) (lc : LicenseCode) (rand rand2 : ℕ) :
    ∀ c ∈ comparisonCalls name mc tempcode lc rand rand2, c.InBounds name ∨ c ∈ overruns := by
  intro c hc
  have hwhole : ∀ a b : Object, a.size name = 100 → b.size name = 100 → (Call.memicmp a b 100).InBounds name := by
    intro a b ha hb
    simp [Call.InBounds, Call.accesses, ha, hb]
  have hnew : 24 ≤ Object.size name .new_code ∧ 24 ≤ Object.size name .new_code2 := ⟨Nat.le_add_left 24 76, Nat.le_add_left 24 76⟩
  rcases List.mem_append.1 hc with hc | hc
  · rcases List.mem_append.1 hc with hc | hc
    · rcases List.mem_append.1 hc with hc | hc
      · refine Or.inl (getLicensecodeCoreCalls_inBounds ?_ hnew.1 c hc)
        cases mc <;> exact le_refl 100
      · rcases getLicensecodeCoreCalls_cases hnew.2 c hc with h | rfl
        · exact Or.inl h
        · exact Or.inr (by simp [overruns])
    · rw [List.mem_singleton.1 hc]
      exact Or.inl (hwhole .new_code .new_code2 rfl rfl)
  · split at hc
    · exact absurd hc List.not_mem_nil
    · rw [List.mem_singleton.1 hc]
      exact Or.inl (hwhole .new_code .lc rfl rfl)

theorem decryptionCalls_inBounds (mc : Option MachineCode) (tempcode : MachineCode) (lc : LicenseCode) (rand rand2 : ℕ) :
    ∀ c ∈ decryptionCalls name mc tempcode lc rand rand2, c.InBounds name ∨ c ∈ overruns := by
  intro c hc
  have hinit : (Call.avDesInit .test_key 192).InBounds name := by simp [Call.InBounds, Call.accesses, Object.size]
  have hcrypt : (Call.avDesCrypt .lf .lc 3).InBounds name := by simp [Call.InBounds, Call.accesses, Object.size]
  unfold decryptionCalls at hc
  dsimp only at hc
  split at hc
  · exact absurd hc List.not_mem_nil
  · rcases List.mem_append.1 hc with hc | hc
    · rcases List.mem_pair.1 hc with rfl | rfl
      · exact Or.inl hinit
      · exact Or.inl hcrypt
    · -- every check that fails ends the calls
      repeat' split at hc
      all_goals first
        | exact absurd hc List.not_mem_nil
        | exact comparisonCalls_inBounds mc tempcode lc rand rand2 c hc

/-- Apart from the overruns the checker stays in bounds, when the machine code is given. -/
theorem testLicensecodeCalls_inBounds (mc tempcode : MachineCode) (lc : LicenseCode) (rand rand2 : ℕ) :
    ∀ c ∈ testLicensecodeCalls name (some mc) tempcode lc rand rand2, c.InBounds name ∨ c ∈ overruns := by
  intro c hc
  unfold testLicensecodeCalls at hc
  split at hc
  · exact absurd hc List.not_mem_nil
  · split at hc
    · exact absurd hc List.not_mem_nil
    · rcases List.mem_append.1 hc with hc | hc
      · simp only [Option.isNone_some, Bool.false_eq_true, if_false, List.nil_append, List.mem_cons, List.not_mem_nil, or_false] at hc
        rcases hc with rfl | rfl | rfl | rfl | rfl | rfl | rfl
        · exact Or.inl (by simp [Call.InBounds, Call.accesses, Object.size])
        · exact Or.inl (by simp [Call.InBounds, Call.accesses, Object.size])
        · exact Or.inl (by simp [Call.InBounds, Call.accesses, Object.size])
        · exact Or.inl (by simp [Call.InBounds, Call.accesses, Object.size, LicenseLib.GHOFFICE])
        · exact Or.inr (by simp [overruns])
        · exact Or.inl (by simp [Call.InBounds, Call.accesses, Object.size])
        · exact Or.inr (by simp [overruns])
      · exact decryptionCalls_inBounds (some mc) tempcode lc rand rand2 c hc

/-- The second interference block decrypts a hundred bytes into a structure of 24. -/
theorem lf2_not_inBounds : ¬ (Call.avRc4Crypt .lf2 .lc 100).InBounds name := by
  intro h
  have hsize : 100 ≤ 24 := h (.lf2, 100) List.mem_cons_self
  omega

theorem lf2_mem (hpos : 1 ≤ name.strlen) (hle : name.strlen ≤ 24) (mc : Option MachineCode) (tempcode : MachineCode)
    (lc : LicenseCode) (rand rand2 : ℕ) : Call.avRc4Crypt .lf2 .lc 100 ∈ testLicensecodeCalls name mc tempcode lc rand rand2 := by
  unfold testLicensecodeCalls
  rw [if_neg (by omega), if_neg (by omega)]
  refine List.mem_append_left _ (List.mem_append_right _ ?_)
  simp

/-- All calls of the three functions are in bounds. -/
def AllInBounds (name : CStr) (mc : Option MachineCode) (tempcode : MachineCode) (lc : LicenseCode) (rand rand2 : ℕ) : Prop :=
  (∀ c ∈ getMachinecodeCalls .mc, c.InBounds name) ∧
    (∀ c ∈ testLicensecodeCalls name mc tempcode lc rand rand2, c.InBounds name) ∧
    ∀ c ∈ getLicensecodeCoreCalls name .mc .lc, c.InBounds name

/-- The checker goes out of bounds for every name and every licence, in the overruns only when the machine code is
given; `get_machinecode` does for names of less than seven characters, and the generator never. -/
theorem not_allInBounds (hpos : 1 ≤ name.strlen) (hle : name.strlen ≤ 24) (mc : Option MachineCode) (tempcode : MachineCode)
    (lc : LicenseCode) (rand rand2 : ℕ) :
    ¬ AllInBounds name mc tempcode lc rand rand2 ∧
      (∀ machine c, c ∈ testLicensecodeCalls name (some machine) tempcode lc rand rand2 → c.InBounds name ∨ c ∈ overruns) ∧
      ((∀ c ∈ getMachinecodeCalls .mc, c.InBounds name) ↔ 7 ≤ name.strlen) ∧
      ∀ c ∈ getLicensecodeCoreCalls name .mc .lc, c.InBounds name := by
  refine ⟨fun h => ?_, fun machine => testLicensecodeCalls_inBounds machine tempcode lc rand rand2, getMachinecodeCalls_inBounds,
    getLicensecodeCoreCalls_inBounds (le_refl 100) (Nat.le_add_left 24 76)⟩
  exact lf2_not_inBounds (h.2.1 _ (lf2_mem hpos hle mc tempcode lc rand rand2))

/-- The name `abcdefg`, which is long enough for `get_machinecode`. -/
def sevenLetters : CStr := ⟨[0x61, 0x62, 0x63, 0x64, 0x65, 0x66, 0x67], by decide⟩

def zeroMachine : MachineCode := ⟨List.replicate 100 0, zeroCode.length_eq⟩

theorem not_allInBounds_sample :
    ¬ AllInBounds sevenLetters (some zeroMachine) zeroMachine zeroCode 0 0 ∧
      (∀ machine c, c ∈ testLicensecodeCalls sevenLetters (some machine) zeroMachine zeroCode 0 0 →
        c.InBounds sevenLetters ∨ c ∈ overruns) ∧
      ((∀ c ∈ getMachinecodeCalls .mc, c.InBounds sevenLetters) ↔ 7 ≤ sevenLetters.strlen) ∧
      ∀ c ∈ getLicensecodeCoreCalls sevenLetters .mc .lc, c.InBounds sevenLetters :=
  not_allInBounds (by decide) (by decide) (some zeroMachine) zeroMachine zeroCode 0 0

theorem sevenLetters_overrun : ¬ AllInBounds sevenLetters (some zeroMachine) zeroMachine zeroCode 0 0 := fun h =>
  lf2_not_inBounds (h.2.1 _ (lf2_mem (by decide) (by decide) (some zeroMachine) zeroMachine zeroCode 0 0))

end StarLib.LicenseLib
