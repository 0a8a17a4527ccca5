import StarLib.Foundations.Buffers
import StarLib.Foundations.Loop

/-! # `GB2312ToUTF_8` and `UTF_8ToGB2312`

Both functions write into a heap buffer of a size computed from the length of their input and make a string of
it; where they write past its end there is no result. The code page of the operating system is a parameter: its
two conversions are inverse to each other on the two-byte characters.
-/

namespace StarLib.ChineseCodeLib
open Foundations
set_option autoImplicit false
set_option maxHeartbeats 250000
set_option maxRecDepth 120000

abbrev WCHAR := BitVec 16

/-- A character of a GB2312 string. -/
inductive GbChar where
  | single (x : Byte)
  | double (a b : Byte)
  deriving DecidableEq

def GbChar.bytes : GbChar → List Byte
  | .single x => [x]
  | .double a b => [a, b]

/-- `CP_ACP`: `MultiByteToWideChar` for two bytes, and `WideCharToMultiByte` for one code unit. No character of one
byte is the first byte of one of two. -/
structure CodePage where
  isTwoByte : Byte → Byte → Bool
  MultiByteToWideChar : Byte → Byte → WCHAR
  WideCharToMultiByte : WCHAR → GbChar
  lead : ∀ a b, isTwoByte a b = true → a.toInt < 0 ∧ b ≠ 0
  inverse : ∀ a b u, isTwoByte a b = true → (WideCharToMultiByte u = .double a b ↔ u = MultiByteToWideChar a b)
  single : ∀ a b u, isTwoByte a b = true → WideCharToMultiByte u ≠ .single a

/-! ## One character -/

/-- The high byte: `pchar[1]`. -/
def highByte (u : WCHAR) : Byte := (u >>> 8).setWidth 8

/-- The low byte: `pchar[0]`. -/
def lowByte (u : WCHAR) : Byte := u.setWidth 8

/-- `UnicodeToUTF_8`. -/
def unicodeToUTF_8 (u : WCHAR) : Byte × Byte × Byte :=
  (0xE0 ||| ((highByte u &&& 0xF0) >>> 4),
    (0x80 ||| ((highByte u &&& 0x0F) <<< 2)) + ((highByte u &&& 0xC0) >>> 6),
    0x80 ||| (lowByte u &&& 0x3F))

/-- `UTF_8ToUnicode`. -/
def utf_8ToUnicode (t0 t1 t2 : Byte) : WCHAR :=
  (((t0 &&& 0x0F) <<< 4) + (t1.sshiftRight 2 &&& (0x0F : Byte))) ++ (((t1 &&& 0x03) <<< 6) + (t2 &&& 0x3F))

/-! ## The loops -/

/-- The variables of `GB2312ToUTF_8`. -/
structure EncodeRun where
  i : ℕ
  j : ℕ
  rst : Buf Byte

def encodeTurn (cp : CodePage) (pText : ℕ → Byte) (s : EncodeRun) : EncodeRun :=
  if 0 ≤ (pText s.i).toInt then ⟨s.i + 1, s.j + 1, s.rst.put s.j (pText s.i)⟩
  else
    let buf := unicodeToUTF_8 (cp.MultiByteToWideChar (pText s.i) (pText (s.i + 1)))
    ⟨s.i + 2, s.j + 3, ((s.rst.put s.j buf.1).put (s.j + 1) buf.2.1).put (s.j + 2) buf.2.2⟩

/-- `GB2312ToUTF_8`: the buffer `rst` at the end. -/
def gb2312ToUTF_8 (cp : CodePage) (pText : ℕ → Byte) (pLen : ℕ) : Buf Byte :=
  let rst : Buf Byte := ⟨pLen + pLen / 4 + 2, fun _ => 0, true⟩
  let s := whileFuel (fun s => decide (s.i < pLen)) (encodeTurn cp pText) pLen ⟨0, 0, rst⟩
  s.rst.put s.j 0

/-- The variables of `UTF_8ToGB2312`. -/
structure DecodeRun where
  i : ℕ
  j : ℕ
  Ctemp : Byte × Byte
  newBuf : Buf Byte

/-- What is in `Ctemp` after a conversion; one byte leaves the second as it was. -/
def writeChar (Ctemp : Byte × Byte) : GbChar → Byte × Byte
  | .single x => (x, Ctemp.2)
  | .double a b => (a, b)

def decodeTurn (cp : CodePage) (pText : ℕ → Byte) (s : DecodeRun) : DecodeRun :=
  if 0 < (pText s.i).toInt then ⟨s.i + 1, s.j + 1, s.Ctemp, s.newBuf.put s.j (pText s.i)⟩
  else
    let Wtemp := utf_8ToUnicode (pText s.i) (pText (s.i + 1)) (pText (s.i + 2))
    let Ctemp := writeChar s.Ctemp (cp.WideCharToMultiByte Wtemp)
    ⟨s.i + 3, s.j + 2, Ctemp, (s.newBuf.put s.j Ctemp.1).put (s.j + 1) Ctemp.2⟩

/-- `UTF_8ToGB2312`: the buffer `newBuf` at the end, over what was in it. -/
def utf_8ToGB2312 (cp : CodePage) (old : ℕ → Byte) (pText : ℕ → Byte) (pLen : ℕ) : Buf Byte :=
  let s := whileFuel (fun s => decide (s.i < pLen)) (decodeTurn cp pText) pLen ⟨0, 0, (0, 0), ⟨pLen, old, true⟩⟩
  s.newBuf.put s.j 0

/-- A string in memory, with its terminator. -/
def textOf (s : List Byte) (i : ℕ) : Byte := s.getD i 0

/-- Both conversions, each with the length of its input. -/
def roundTrip (cp : CodePage) (old : ℕ → Byte) (s : List Byte) : Option (List Byte) :=
  match (gb2312ToUTF_8 cp (textOf s) s.length).str with
  | none => none
  | some utf8 => (utf_8ToGB2312 cp old (textOf utf8) utf8.length).str

/-! ## What becomes of a code unit -/

/-- The code unit that the second conversion reads. -/
def readBack (u : WCHAR) : WCHAR :=
  utf_8ToUnicode (unicodeToUTF_8 u).1 (unicodeToUTF_8 u).2.1 (unicodeToUTF_8 u).2.2

theorem readBack_eq (u : WCHAR) : readBack u = highByte u ++ ((highByte u &&& 0xC0) + (lowByte u &&& 0x3F)) := by
  have hhigh : ∀ h : Byte, (((0xE0 ||| ((h &&& 0xF0) >>> 4)) &&& 0x0F) <<< 4) +
      (((0x80 ||| ((h &&& 0x0F) <<< 2)) + ((h &&& 0xC0) >>> 6)).sshiftRight 2 &&& (0x0F : Byte)) = h := by decide
  have htop : ∀ h : Byte, (((0x80 ||| ((h &&& 0x0F) <<< 2)) + ((h &&& 0xC0) >>> 6)) &&& 0x03) <<< 6 = h &&& 0xC0 := by
    decide
  have hlow : ∀ l : Byte, (0x80 ||| (l &&& 0x3F)) &&& 0x3F = l &&& 0x3F := by decide
  unfold readBack utf_8ToUnicode unicodeToUTF_8
  rw [hhigh, htop, hlow]

/-- The two bits that the second byte should carry are taken from the high byte; they belong to the low one. -/
def KeepsBits (u : WCHAR) : Prop := highByte u &&& 0xC0 = lowByte u &&& 0xC0

instance (u : WCHAR) : Decidable (KeepsBits u) := inferInstanceAs (Decidable (_ = _))

theorem high_append_low (u : WCHAR) : highByte u ++ lowByte u = u := by
  apply BitVec.eq_of_getLsbD_eq
  intro i hi
  unfold highByte lowByte
  rw [BitVec.getLsbD_append]
  by_cases hlow : i < 8
  · simp [hlow]
  · have hindex : 8 + (i - 8) = i := by omega
    have hlt : i - 8 < 8 := by omega
    simp [hlow, hlt, hindex]

theorem lowByte_append (h l : Byte) : lowByte (h ++ l) = l := by
  apply BitVec.eq_of_getLsbD_eq
  intro i hi
  unfold lowByte
  rw [BitVec.getLsbD_setWidth, BitVec.getLsbD_append, if_pos hi, decide_eq_true hi, Bool.true_and]

theorem readBack_eq_iff (u : WCHAR) : readBack u = u ↔ KeepsBits u := by
  have hsplit : ∀ l : Byte, (l &&& 0xC0) + (l &&& 0x3F) = l := by decide
  unfold KeepsBits
  constructor
  · intro h
    rw [readBack_eq] at h
    have hlow := congrArg lowByte h
    rw [lowByte_append] at hlow
    rw [← hsplit (lowByte u)] at hlow
    have hbits : ∀ l : Byte, (l &&& 0xC0) + (l &&& 0x3F) &&& 0x3F = l &&& 0x3F := by decide
    rw [hbits] at hlow
    exact (BitVec.add_left_inj _).1 hlow
  · intro h
    rw [readBack_eq, h, hsplit, high_append_low]

/-! ## Strings of characters -/

/-- A character of a GB2312 string without NUL. -/
def WellFormed (cp : CodePage) : GbChar → Prop
  | .single x => 0 < x.toInt
  | .double a b => cp.isTwoByte a b = true

def bytesOf (cs : List GbChar) : List Byte := cs.flatMap GbChar.bytes

def encodedChar (cp : CodePage) : GbChar → List Byte
  | .single x => [x]
  | .double a b =>
    let buf := unicodeToUTF_8 (cp.MultiByteToWideChar a b)
    [buf.1, buf.2.1, buf.2.2]

/-- What the first conversion makes of a string. -/
def encodedOf (cp : CodePage) (cs : List GbChar) : List Byte := cs.flatMap (encodedChar cp)

/-- `Ctemp` after a character, and what the second conversion makes of it. -/
def nextTemp (cp : CodePage) (Ctemp : Byte × Byte) : GbChar → Byte × Byte
  | .single _ => Ctemp
  | .double a b => writeChar Ctemp (cp.WideCharToMultiByte (readBack (cp.MultiByteToWideChar a b)))

def decodedChar (cp : CodePage) (Ctemp : Byte × Byte) : GbChar → List Byte
  | .single x => [x]
  | .double a b => [(nextTemp cp Ctemp (.double a b)).1, (nextTemp cp Ctemp (.double a b)).2]

def decodedOf (cp : CodePage) : Byte × Byte → List GbChar → List Byte
  | _, [] => []
  | Ctemp, c :: cs => decodedChar cp Ctemp c ++ decodedOf cp (nextTemp cp Ctemp c) cs

theorem textOf_append (pre l : List Byte) (k : ℕ) : textOf (pre ++ l) (pre.length + k) = l.getD k 0 := by
  unfold textOf
  rw [List.getD_append_right _ _ _ _ (Nat.le_add_right _ _), Nat.add_sub_cancel_left]

theorem textOf_here (pre l : List Byte) : textOf (pre ++ l) pre.length = l.getD 0 0 := textOf_append pre l 0

/-- A turn of the first conversion at a character. -/
theorem encodeTurn_char {cp : CodePage} {c : GbChar} (hc : WellFormed cp c) (pre rest : List Byte) {n : ℕ}
    {b : Buf Byte} {out : List Byte} (hb : b.Holds n out) :
    ∃ b', encodeTurn cp (textOf (pre ++ (c.bytes ++ rest))) ⟨pre.length, out.length, b⟩ =
        ⟨(pre ++ c.bytes).length, (out ++ encodedChar cp c).length, b'⟩ ∧
      b'.Holds n (out ++ encodedChar cp c) := by
  unfold encodeTurn
  simp only [textOf_here, textOf_append]
  cases c with
  | single x =>
    have hx : (0 : ℤ) ≤ x.toInt := Int.le_of_lt hc
    refine ⟨b.put out.length x, ?_, hb.put x⟩
    simp only [GbChar.bytes, List.singleton_append, List.getD_cons_zero, if_pos hx, List.length_append,
      List.length_singleton, encodedChar]
  | double x y =>
    have hx : ¬ (0 : ℤ) ≤ x.toInt := Int.not_le.2 (cp.lead x y hc).1
    generalize hbuf : unicodeToUTF_8 (cp.MultiByteToWideChar x y) = buf
    have h3 := ((hb.put buf.1).put buf.2.1).put buf.2.2
    simp only [List.length_append, List.length_singleton, List.append_assoc] at h3
    refine ⟨((b.put out.length buf.1).put (out.length + 1) buf.2.1).put (out.length + 2) buf.2.2, ?_, ?_⟩
    · simp only [GbChar.bytes, List.cons_append, List.nil_append, List.getD_cons_zero, List.getD_cons_succ, if_neg hx,
        hbuf, List.length_append, List.length_cons, List.length_nil, encodedChar]
    · simp only [encodedChar, hbuf]
      exact h3

/-- The first loop, at any place of the string. -/
theorem encode_loop {cp : CodePage} (cs : List GbChar) (hcs : ∀ c ∈ cs, WellFormed cp c) (pre : List Byte) {n : ℕ}
    {b : Buf Byte} {out : List Byte} (hb : b.Holds n out) {fuel : ℕ} (hfuel : (bytesOf cs).length ≤ fuel) :
    ∃ b', whileFuel (fun s : EncodeRun => decide (s.i < (pre ++ bytesOf cs).length))
        (encodeTurn cp (textOf (pre ++ bytesOf cs))) fuel ⟨pre.length, out.length, b⟩ =
        ⟨(pre ++ bytesOf cs).length, (out ++ encodedOf cp cs).length, b'⟩ ∧
      b'.Holds n (out ++ encodedOf cp cs) := by
  induction cs generalizing pre b out fuel with
  | nil =>
    refine ⟨b, ?_, by simpa [encodedOf] using hb⟩
    rw [whileFuel_done (by simp [bytesOf])]
    simp [bytesOf, encodedOf]
  | cons c cs ih =>
    have hbytes : bytesOf (c :: cs) = c.bytes ++ bytesOf cs := rfl
    have hencoded : encodedOf cp (c :: cs) = encodedChar cp c ++ encodedOf cp cs := rfl
    have hpos : 0 < c.bytes.length := by cases c <;> simp [GbChar.bytes]
    rw [hbytes, List.length_append] at hfuel
    obtain ⟨fuel', rfl⟩ : ∃ fuel', fuel = fuel' + 1 := ⟨fuel - 1, by omega⟩
    obtain ⟨b', hturn, hb'⟩ := encodeTurn_char (hcs c List.mem_cons_self) pre (bytesOf cs) hb
    obtain ⟨b'', hloop, hb''⟩ := ih (fun c' hc' => hcs c' (List.mem_cons_of_mem c hc')) (pre ++ c.bytes) hb'
      (show (bytesOf cs).length ≤ fuel' by omega)
    rw [hbytes, hencoded]
    refine ⟨b'', ?_, by rw [← List.append_assoc]; exact hb''⟩
    rw [whileFuel_succ (by simp; omega), hturn, ← List.append_assoc, hloop, List.append_assoc out]

theorem utf8_negative (u : WCHAR) :
    (unicodeToUTF_8 u).1.toInt < 0 ∧ (unicodeToUTF_8 u).2.1 ≠ 0 ∧ (unicodeToUTF_8 u).2.2 ≠ 0 := by
  have h0 : ∀ h : Byte, (0xE0 ||| ((h &&& 0xF0) >>> 4)).toInt < 0 := by decide
  have h1 : ∀ h : Byte, (0x80 ||| ((h &&& 0x0F) <<< 2)) + ((h &&& 0xC0) >>> 6) ≠ 0 := by decide
  have h2 : ∀ l : Byte, 0x80 ||| (l &&& 0x3F) ≠ 0 := by decide
  exact ⟨h0 _, h1 _, h2 _⟩

/-- A turn of the second conversion at what the first wrote for a character. -/
theorem decodeTurn_char {cp : CodePage} {c : GbChar} (hc : WellFormed cp c) (pre rest : List Byte) {n : ℕ}
    {b : Buf Byte} {out : List Byte} (hb : b.Holds n out) (Ctemp : Byte × Byte) :
    ∃ b', decodeTurn cp (textOf (pre ++ (encodedChar cp c ++ rest))) ⟨pre.length, out.length, Ctemp, b⟩ =
        ⟨(pre ++ encodedChar cp c).length, (out ++ decodedChar cp Ctemp c).length, nextTemp cp Ctemp c, b'⟩ ∧
      b'.Holds n (out ++ decodedChar cp Ctemp c) := by
  unfold decodeTurn
  simp only [textOf_here, textOf_append]
  cases c with
  | single x =>
    refine ⟨b.put out.length x, ?_, hb.put x⟩
    have hx : (0 : ℤ) < x.toInt := hc
    simp only [encodedChar, List.singleton_append, List.getD_cons_zero, if_pos hx, List.length_append,
      List.length_singleton, decodedChar, nextTemp]
  | double x y =>
    have hx : ¬ (0 : ℤ) < (unicodeToUTF_8 (cp.MultiByteToWideChar x y)).1.toInt :=
      Int.not_lt.2 (Int.le_of_lt (utf8_negative _).1)
    generalize htemp : nextTemp cp Ctemp (.double x y) = temp
    have h2 := (hb.put temp.1).put temp.2
    simp only [List.length_append, List.length_singleton, List.append_assoc] at h2
    refine ⟨(b.put out.length temp.1).put (out.length + 1) temp.2, ?_, ?_⟩
    · simp only [encodedChar, List.cons_append, List.nil_append, List.getD_cons_zero, List.getD_cons_succ, if_neg hx,
        List.length_append, List.length_cons, List.length_nil, decodedChar, htemp]
      simp only [nextTemp, readBack] at htemp
      rw [htemp]
    · simp only [decodedChar, htemp]
      exact h2

/-- The second loop, at any place of what the first conversion wrote. -/
theorem decode_loop {cp : CodePage} (cs : List GbChar) (hcs : ∀ c ∈ cs, WellFormed cp c) (pre : List Byte) {n : ℕ}
    {b : Buf Byte} {out : List Byte} (hb : b.Holds n out) (Ctemp : Byte × Byte) {fuel : ℕ}
    (hfuel : (encodedOf cp cs).length ≤ fuel) :
    ∃ s', whileFuel (fun s : DecodeRun => decide (s.i < (pre ++ encodedOf cp cs).length))
        (decodeTurn cp (textOf (pre ++ encodedOf cp cs))) fuel ⟨pre.length, out.length, Ctemp, b⟩ = s' ∧
      s'.j = (out ++ decodedOf cp Ctemp cs).length ∧ s'.newBuf.Holds n (out ++ decodedOf cp Ctemp cs) := by
  induction cs generalizing pre b out Ctemp fuel with
  | nil =>
    refine ⟨⟨pre.length, out.length, Ctemp, b⟩, whileFuel_done (by simp [encodedOf]) _, ?_, ?_⟩
    · simp [decodedOf]
    · simpa [decodedOf] using hb
  | cons c cs ih =>
    have hencoded : encodedOf cp (c :: cs) = encodedChar cp c ++ encodedOf cp cs := rfl
    have hdecoded : decodedOf cp Ctemp (c :: cs) = decodedChar cp Ctemp c ++ decodedOf cp (nextTemp cp Ctemp c) cs := rfl
    have hpos : 0 < (encodedChar cp c).length := by cases c <;> simp [encodedChar]
    rw [hencoded, List.length_append] at hfuel
    obtain ⟨fuel', rfl⟩ : ∃ fuel', fuel = fuel' + 1 := ⟨fuel - 1, by omega⟩
    obtain ⟨b', hturn, hb'⟩ := decodeTurn_char (hcs c List.mem_cons_self) pre (encodedOf cp cs) hb Ctemp
    obtain ⟨s', hloop, hj, hs'⟩ := ih (fun c' hc' => hcs c' (List.mem_cons_of_mem c hc')) (pre ++ encodedChar cp c) hb'
      (nextTemp cp Ctemp c) (show (encodedOf cp cs).length ≤ fuel' by omega)
    rw [hencoded, hdecoded]
    refine ⟨s', ?_, by rw [← List.append_assoc]; exact hj, by rw [← List.append_assoc]; exact hs'⟩
    rw [whileFuel_succ (by simp; omega), hturn, ← List.append_assoc, hloop]

/-! ## Lengths -/

def GbChar.isDouble : GbChar → Bool
  | .single _ => false
  | .double _ _ => true

/-- The number of two-byte characters. -/
def doubles (cs : List GbChar) : ℕ := cs.countP GbChar.isDouble

/-- The number of one-byte characters. -/
def singles (cs : List GbChar) : ℕ := cs.countP (fun c => !c.isDouble)

theorem bytesOf_length (cs : List GbChar) : (bytesOf cs).length = singles cs + 2 * doubles cs := by
  induction cs with
  | nil => rfl
  | cons c cs ih =>
    have hbytes : bytesOf (c :: cs) = c.bytes ++ bytesOf cs := rfl
    rw [hbytes, List.length_append, ih]
    unfold singles doubles
    cases c with
    | single x => simp [GbChar.bytes, GbChar.isDouble]; omega
    | double x y => simp [GbChar.bytes, GbChar.isDouble, List.countP_cons]; omega

theorem encodedOf_length (cp : CodePage) (cs : List GbChar) :
    (encodedOf cp cs).length = singles cs + 3 * doubles cs := by
  induction cs with
  | nil => rfl
  | cons c cs ih =>
    have hencoded : encodedOf cp (c :: cs) = encodedChar cp c ++ encodedOf cp cs := rfl
    rw [hencoded, List.length_append, ih]
    unfold singles doubles
    cases c with
    | single x => simp [encodedChar, GbChar.isDouble]; omega
    | double x y => simp [encodedChar, GbChar.isDouble, List.countP_cons]; omega

theorem decodedOf_length (cp : CodePage) (Ctemp : Byte × Byte) (cs : List GbChar) :
    (decodedOf cp Ctemp cs).length = (bytesOf cs).length := by
  induction cs generalizing Ctemp with
  | nil => rfl
  | cons c cs ih =>
    have hbytes : bytesOf (c :: cs) = c.bytes ++ bytesOf cs := rfl
    rw [hbytes, decodedOf, List.length_append, List.length_append, ih]
    cases c <;> rfl

/-! ## No NUL bytes -/

/-- A text of well-formed characters has no NUL if none is made of a two-byte character. -/
theorem flatMap_plain {cp : CodePage} {cs : List GbChar} (hcs : ∀ c ∈ cs, WellFormed cp c) {f : GbChar → List Byte}
    (hsingle : ∀ y, f (.single y) = [y]) (hdouble : ∀ a b, WellFormed cp (.double a b) → ∀ x ∈ f (.double a b), x ≠ 0) :
    ∀ x ∈ cs.flatMap f, x ≠ 0 := by
  intro x hx
  obtain ⟨c, hc, hxc⟩ := List.mem_flatMap.1 hx
  have hwell := hcs c hc
  cases c with
  | single y =>
    rw [hsingle] at hxc
    rw [List.mem_singleton.1 hxc]
    rintro rfl
    exact absurd hwell (by simp [WellFormed])
  | double a b => exact hdouble a b hwell x hxc

theorem encodedOf_plain {cp : CodePage} {cs : List GbChar} (hcs : ∀ c ∈ cs, WellFormed cp c) :
    ∀ x ∈ encodedOf cp cs, x ≠ 0 := by
  refine flatMap_plain hcs (fun _ => rfl) fun a b _ x hx => ?_
  obtain ⟨h0, h1, h2⟩ := utf8_negative (cp.MultiByteToWideChar a b)
  simp only [encodedChar, List.mem_cons, List.not_mem_nil, or_false] at hx
  rcases hx with rfl | rfl | rfl
  · intro hzero
    rw [hzero] at h0
    exact absurd h0 (by decide)
  · exact h1
  · exact h2

theorem bytesOf_plain {cp : CodePage} {cs : List GbChar} (hcs : ∀ c ∈ cs, WellFormed cp c) :
    ∀ x ∈ bytesOf cs, x ≠ 0 := by
  refine flatMap_plain hcs (fun _ => rfl) fun a b hwell x hx => ?_
  obtain ⟨ha, hb⟩ := cp.lead a b hwell
  simp only [GbChar.bytes, List.mem_cons, List.not_mem_nil, or_false] at hx
  rcases hx with rfl | rfl
  · rintro rfl
    exact absurd ha (by decide)
  · exact hb

/-! ## The round trip -/

/-- Every two-byte character has a code unit whose bytes agree in their two highest bits. -/
def AllKeepBits (cp : CodePage) (cs : List GbChar) : Prop :=
  ∀ a b, .double a b ∈ cs → KeepsBits (cp.MultiByteToWideChar a b)

/-- The second conversion returns a character exactly when its code unit was read back. -/
theorem nextTemp_eq_iff {cp : CodePage} {a b : Byte} (h : cp.isTwoByte a b = true) (Ctemp : Byte × Byte) :
    nextTemp cp Ctemp (.double a b) = (a, b) ↔ KeepsBits (cp.MultiByteToWideChar a b) := by
  rw [← readBack_eq_iff, ← cp.inverse a b _ h]
  show writeChar Ctemp (cp.WideCharToMultiByte (readBack (cp.MultiByteToWideChar a b))) = (a, b) ↔ _
  generalize readBack (cp.MultiByteToWideChar a b) = u
  cases hu : cp.WideCharToMultiByte u with
  | single x =>
    constructor
    · intro heq
      have hx : x = a := congrArg Prod.fst heq
      rw [hx] at hu
      exact absurd hu (cp.single a b u h)
    · intro heq
      exact GbChar.noConfusion heq
  | double a' b' =>
    simp only [writeChar, Prod.mk.injEq, GbChar.double.injEq]

theorem decodedOf_eq_iff {cp : CodePage} {cs : List GbChar} (hcs : ∀ c ∈ cs, WellFormed cp c) (Ctemp : Byte × Byte) :
    decodedOf cp Ctemp cs = bytesOf cs ↔ AllKeepBits cp cs := by
  induction cs generalizing Ctemp with
  | nil => exact ⟨fun _ a b h => absurd h List.not_mem_nil, fun _ => rfl⟩
  | cons c cs ih =>
    have hbytes : bytesOf (c :: cs) = c.bytes ++ bytesOf cs := rfl
    have hlength : (decodedChar cp Ctemp c).length = c.bytes.length := by cases c <;> rfl
    have hrest := ih (fun c' hc' => hcs c' (List.mem_cons_of_mem c hc')) (nextTemp cp Ctemp c)
    have hsplit : decodedChar cp Ctemp c ++ decodedOf cp (nextTemp cp Ctemp c) cs = c.bytes ++ bytesOf cs ↔
        decodedChar cp Ctemp c = c.bytes ∧ decodedOf cp (nextTemp cp Ctemp c) cs = bytesOf cs :=
      ⟨fun h => List.append_inj h hlength, fun h => by rw [h.1, h.2]⟩
    rw [hbytes, decodedOf, hsplit, hrest]
    unfold AllKeepBits
    cases c with
    | single x =>
      constructor
      · rintro ⟨-, h⟩ a b hmem
        rcases List.mem_cons.1 hmem with heq | hmem
        · exact GbChar.noConfusion heq
        · exact h a b hmem
      · intro h
        exact ⟨rfl, fun a b hmem => h a b (List.mem_cons_of_mem _ hmem)⟩
    | double x y =>
      have hpair : decodedChar cp Ctemp (.double x y) = (GbChar.double x y).bytes ↔
          KeepsBits (cp.MultiByteToWideChar x y) := by
        rw [← nextTemp_eq_iff (hcs _ List.mem_cons_self) Ctemp, Prod.ext_iff]
        simp [decodedChar, GbChar.bytes]
      rw [hpair]
      constructor
      · rintro ⟨hfirst, h⟩ a b hmem
        rcases List.mem_cons.1 hmem with heq | hmem
        · cases heq
          exact hfirst
        · exact h a b hmem
      · intro h
        exact ⟨h x y List.mem_cons_self, fun a b hmem => h a b (List.mem_cons_of_mem _ hmem)⟩

theorem gb2312ToUTF_8_str {cp : CodePage} {cs : List GbChar} (hcs : ∀ c ∈ cs, WellFormed cp c) :
    (gb2312ToUTF_8 cp (textOf (bytesOf cs)) (bytesOf cs).length).str =
      if 2 * doubles cs ≤ singles cs + 4 then some (encodedOf cp cs) else none := by
  obtain ⟨b, hloop, hb⟩ := encode_loop cs hcs [] (Buf.Holds.new ((bytesOf cs).length + (bytesOf cs).length / 4 + 2)
    fun _ => 0) (Nat.le_refl _)
  simp only [List.nil_append, List.length_nil] at hloop hb
  unfold gb2312ToUTF_8
  simp only [hloop]
  rw [(hb.put 0).str, encodedOf_length, bytesOf_length, takeWhile_plain (encodedOf_plain hcs)]
  have hiff : singles cs + 3 * doubles cs < singles cs + 2 * doubles cs + (singles cs + 2 * doubles cs) / 4 + 2 ↔
      2 * doubles cs ≤ singles cs + 4 := by omega
  simp only [hiff]

theorem utf_8ToGB2312_str {cp : CodePage} {cs : List GbChar} (hcs : ∀ c ∈ cs, WellFormed cp c) (old : ℕ → Byte) :
    (utf_8ToGB2312 cp old (textOf (encodedOf cp cs)) (encodedOf cp cs).length).str =
      if 0 < doubles cs then some ((decodedOf cp (0, 0) cs).takeWhile (· ≠ 0)) else none := by
  obtain ⟨s, hloop, hj, hs⟩ := decode_loop cs hcs [] (Buf.Holds.new (encodedOf cp cs).length old) (0, 0) (Nat.le_refl _)
  simp only [List.nil_append, List.length_nil] at hloop hj hs
  unfold utf_8ToGB2312
  simp only [hloop, hj]
  rw [(hs.put 0).str, encodedOf_length, decodedOf_length, bytesOf_length]
  have hiff : singles cs + 2 * doubles cs < singles cs + 3 * doubles cs ↔ 0 < doubles cs := by omega
  simp only [hiff]

/-- When the round trip returns the string: it has a two-byte character, for the second buffer has room for the
terminator only then; it has not many more of them than others, for the first buffer has room only then; and no
code unit loses its bits. -/
def Restorable (cp : CodePage) (cs : List GbChar) : Prop :=
  0 < doubles cs ∧ 2 * doubles cs ≤ singles cs + 4 ∧ AllKeepBits cp cs

theorem roundTrip_iff (cp : CodePage) (old : ℕ → Byte) (cs : List GbChar) (hcs : ∀ c ∈ cs, WellFormed cp c) :
    roundTrip cp old (bytesOf cs) = some (bytesOf cs) ↔ Restorable cp cs := by
  unfold roundTrip Restorable
  rw [gb2312ToUTF_8_str hcs]
  by_cases hroom : 2 * doubles cs ≤ singles cs + 4
  · rw [if_pos hroom]
    dsimp only
    rw [utf_8ToGB2312_str hcs]
    by_cases hdouble : 0 < doubles cs
    · rw [if_pos hdouble, Option.some_inj, takeWhile_eq_iff (decodedOf_length cp (0, 0) cs) (bytesOf_plain hcs),
        decodedOf_eq_iff hcs]
      exact ⟨fun h => ⟨hdouble, hroom, h⟩, fun h => h.2.2⟩
    · rw [if_neg hdouble]
      exact ⟨fun h => absurd h.symm (Option.some_ne_none _), fun h => absurd h.1 hdouble⟩
  · rw [if_neg hroom]
    exact ⟨fun h => absurd h.symm (Option.some_ne_none _), fun h => absurd h.2.1 hroom⟩

/-- Two characters of the simplified Chinese code page: U+4E2D and U+554A. -/
def samplePage : CodePage where
  isTwoByte a b := (a == 0xD6 && b == 0xD0) || (a == 0xB0 && b == 0xA1)
  MultiByteToWideChar a _ := if a = 0xD6 then 0x4E2D else 0x554A
  WideCharToMultiByte u := if u = 0x4E2D then .double 0xD6 0xD0 else if u = 0x554A then .double 0xB0 0xA1 else .single 0x3F
  lead a b h := by
    simp only [Bool.or_eq_true, Bool.and_eq_true, beq_iff_eq] at h
    rcases h with ⟨rfl, rfl⟩ | ⟨rfl, rfl⟩ <;> decide
  inverse a b u h := by
    simp only [Bool.or_eq_true, Bool.and_eq_true, beq_iff_eq] at h
    rcases h with ⟨rfl, rfl⟩ | ⟨rfl, rfl⟩
    · show _ ↔ u = 0x4E2D
      by_cases h1 : u = 0x4E2D
      · rw [if_pos h1]
        exact ⟨fun _ => h1, fun _ => rfl⟩
      · rw [if_neg h1]
        refine ⟨fun h => ?_, fun h => absurd h h1⟩
        split at h
        · exact absurd h (by decide)
        · exact absurd h (by decide)
    · show _ ↔ u = 0x554A
      by_cases h1 : u = 0x4E2D
      · rw [if_pos h1, h1]
        decide
      · rw [if_neg h1]
        by_cases h2 : u = 0x554A
        · rw [if_pos h2]
          exact ⟨fun _ => h2, fun _ => rfl⟩
        · rw [if_neg h2]
          exact ⟨fun h => absurd h (by decide), fun h => absurd h h2⟩
  single a b u h := by
    simp only [Bool.or_eq_true, Bool.and_eq_true, beq_iff_eq] at h
    rcases h with ⟨rfl, rfl⟩ | ⟨rfl, rfl⟩
    · split
      · exact fun h => GbChar.noConfusion h
      · split
        · exact fun h => GbChar.noConfusion h
        · decide
    · split
      · exact fun h => GbChar.noConfusion h
      · split
        · exact fun h => GbChar.noConfusion h
        · decide

theorem sample_wellFormed : ∀ c ∈ [GbChar.single 0x61, .double 0xB0 0xA1], WellFormed samplePage c := by
  intro c hc
  simp only [List.mem_cons, List.not_mem_nil, or_false] at hc
  rcases hc with rfl | rfl
  · show (0 : ℤ) < (0x61 : Byte).toInt
    decide
  · show samplePage.isTwoByte 0xB0 0xA1 = true
    decide

theorem roundTrip_sample :
    roundTrip samplePage (fun _ => 0) (bytesOf [.single 0x61, .double 0xB0 0xA1]) =
      some (bytesOf [.single 0x61, .double 0xB0 0xA1]) ↔ Restorable samplePage [.single 0x61, .double 0xB0 0xA1] :=
  roundTrip_iff samplePage (fun _ => 0) [.single 0x61, .double 0xB0 0xA1] sample_wellFormed

/-- U+4E2D alone: its low byte has other high bits than its high byte, and it is read back as U+4E6D. -/
theorem middle_lost :
    ¬ ∀ (cp : CodePage) (old : ℕ → Byte) (cs : List GbChar), (∀ c ∈ cs, WellFormed cp c) →
      roundTrip cp old (bytesOf cs) = some (bytesOf cs) := by
  intro h
  have hwell : ∀ c ∈ [GbChar.double 0xD6 0xD0], WellFormed samplePage c := by
    intro c hc
    rw [List.mem_singleton.1 hc]
    show samplePage.isTwoByte 0xD6 0xD0 = true
    decide
  have htrip := h samplePage (fun _ => 0) [.double 0xD6 0xD0] hwell
  revert htrip
  decide

end StarLib.ChineseCodeLib
