import StarLib.Foundations.Ascii
import StarLib.Foundations.Loop
import StarLib.Foundations.Percent

/-! # Keys as hexadecimal text

`hextoStr` and `strtoHex` of `AES.cpp`, with the places that they write. `hextoStr` takes the key for a string:
it stops at a zero byte, and it writes no terminator. Whether the text is whole then depends on what was in the
buffer.
-/

namespace StarLib.Aes
open Foundations Foundations.Percent
set_option autoImplicit false
set_option maxHeartbeats 250000
set_option maxRecDepth 120000

/-! ## The encoder -/

/-- `hex` has moved on by `i`, `str` by `pos`. -/
structure HexWriter where
  i : ℕ
  pos : ℕ
  text : ℕ → Byte
  writes : List ℕ

def HexWriter.char (c : BitVec 32) (s : HexWriter) : HexWriter :=
  ⟨s.i, s.pos + 1, Function.update s.text s.pos (c.setWidth 8), s.writes ++ [s.pos]⟩

/-- The two `if`s behind each half of a byte. -/
def HexWriter.digit (d : BitVec 32) (s : HexWriter) : HexWriter :=
  if (0 : BitVec 32).sle d && d.sle 9 then s.char (d + 0x30)
  else if (0x0A : BitVec 32).sle d && d.sle 0x0F then s.char (d - 10 + 0x41)
  else s

def hextoStrTurn (hex : ℕ → Byte) (s : HexWriter) : HexWriter :=
  let d := (hex s.i).signExtend 32
  let s := (s.digit (d.sshiftRight 4 &&& 0x0f)).digit (d &&& 0x0f)
  { s with i := s.i + 1 }

/-- `hextoStr`; the loop runs at most 32 times. -/
def hextoStr (hex str : ℕ → Byte) : HexWriter :=
  whileFuel (fun s => decide (s.i < 32) && decide (hex s.i ≠ 0)) (hextoStrTurn hex) 32 ⟨0, 0, str, []⟩

/-! ## The decoder -/

/-- `str` has moved on by `i` as well; `value` is `by`. -/
structure HexReader where
  i : ℕ
  value : BitVec 32
  hex : ℕ → Byte
  writes : List ℕ
  exited : Bool

def HexReader.push (value : BitVec 32) (s : HexReader) : HexReader :=
  if s.i % 2 = 1 then
    ⟨s.i + 1, value, Function.update s.hex ((s.i + 1) / 2 - 1) ((value &&& 0xff).setWidth 8),
      s.writes ++ [(s.i + 1) / 2 - 1], s.exited⟩
  else { s with i := s.i + 1, value := value }

/-- `char` is signed. -/
def strtoHexTurn (str : ℕ → Byte) (s : HexReader) : HexReader :=
  let ch := toUpper (str s.i)
  if (0x30 : Byte).sle ch && ch.sle 0x39 then s.push ((s.value <<< 4) + ch.signExtend 32 - 0x30)
  else if (0x41 : Byte).sle ch && ch.sle 0x46 then s.push ((s.value <<< 4) + ch.signExtend 32 - 0x41 + 10)
  else { s with exited := true }

/-- `strtoHex`, which leaves the program at another character; the loop runs at most 64 times. -/
def strtoHex (str hex : ℕ → Byte) : HexReader :=
  whileFuel (fun s => !s.exited && decide (s.i < 64) && decide (str s.i ≠ 0)) (strtoHexTurn str) 64
    ⟨0, 0, hex, [], false⟩

/-! ## What the encoder writes -/

theorem nibbles : ∀ b : Byte, (b.signExtend 32).sshiftRight 4 &&& 0x0f = BitVec.ofNat 32 (b.toNat / 16) ∧
    b.signExtend 32 &&& 0x0f = BitVec.ofNat 32 (b.toNat % 16) := by decide

theorem digit_eq {n : ℕ} (hn : n < 16) (s : HexWriter) : s.digit (BitVec.ofNat 32 n) =
    ⟨s.i, s.pos + 1, Function.update s.text s.pos (upperHex n), s.writes ++ [s.pos]⟩ := by
  interval_cases n <;> rfl

/-- The half of a byte that character `p` shows. -/
def half (key : ℕ → Byte) (p : ℕ) : ℕ := if p % 2 = 0 then (key (p / 2)).toNat / 16 else (key (p / 2)).toNat % 16

theorem half_lt (key : ℕ → Byte) (p : ℕ) : half key p < 16 := by
  have hbyte := (key (p / 2)).isLt
  unfold half
  split <;> omega

theorem half_even (key : ℕ → Byte) (k : ℕ) : half key (2 * k) = (key k).toNat / 16 := by
  simp [half]

theorem half_odd (key : ℕ → Byte) (k : ℕ) : half key (2 * k + 1) = (key k).toNat % 16 := by
  have hdiv : (2 * k + 1) / 2 = k := by omega
  have hmod : ¬ (2 * k + 1) % 2 = 0 := by omega
  rw [half, if_neg hmod, hdiv]

theorem hextoStrTurn_eq (key : ℕ → Byte) {s : HexWriter} (hpos : s.pos = 2 * s.i) : hextoStrTurn key s =
    ⟨s.i + 1, 2 * (s.i + 1), Function.update (Function.update s.text (2 * s.i) (upperHex (half key (2 * s.i))))
      (2 * s.i + 1) (upperHex (half key (2 * s.i + 1))), s.writes ++ [2 * s.i, 2 * s.i + 1]⟩ := by
  have hbyte := (key s.i).isLt
  unfold hextoStrTurn
  simp only [(nibbles _).1, (nibbles _).2]
  rw [digit_eq (by omega), digit_eq (by omega), half_even, half_odd, hpos]
  simp [Nat.mul_add]

/-- The loop after `i` bytes, none of them zero. -/
structure Writing (key str : ℕ → Byte) (s : HexWriter) : Prop where
  pos : s.pos = 2 * s.i
  i_le : s.i ≤ 32
  plain : ∀ k < s.i, key k ≠ 0
  text : ∀ p, s.text p = if p < 2 * s.i then upperHex (half key p) else str p
  writes : ∀ p ∈ s.writes, p < 2 * s.i

theorem Writing.turn {key str : ℕ → Byte} {s : HexWriter} (h : Writing key str s) (hi : s.i < 32) (hne : key s.i ≠ 0) :
    Writing key str (hextoStrTurn key s) := by
  rw [hextoStrTurn_eq key h.pos]
  refine ⟨rfl, hi, ?_, ?_, ?_⟩
  · intro k hk
    by_cases hlast : k = s.i
    · rwa [hlast]
    · exact h.plain k (by dsimp only at hk; omega)
  · intro p
    dsimp only
    by_cases hodd : p = 2 * s.i + 1
    · rw [hodd, Function.update_self, if_pos (by omega)]
    · by_cases heven : p = 2 * s.i
      · rw [heven, Function.update_of_ne (by omega), Function.update_self, if_pos (by omega)]
      · have hiff : p < 2 * (s.i + 1) ↔ p < 2 * s.i := by omega
        rw [Function.update_of_ne hodd, Function.update_of_ne heven, h.text p]
        simp only [hiff]
  · intro p hp
    dsimp only
    rcases List.mem_append.1 hp with hold | hnew
    · have hlt := h.writes p hold
      omega
    · simp only [List.mem_cons, List.not_mem_nil, or_false] at hnew
      omega

theorem hextoStr_writing (key str : ℕ → Byte) : Writing key str (hextoStr key str) := by
  refine whileFuel_inv _ _ (Writing key str) ?_ 32 _ ?_
  · intro s h hcond
    simp only [Bool.and_eq_true, decide_eq_true_eq] at hcond
    exact h.turn hcond.1 hcond.2
  · exact ⟨rfl, by simp, fun k hk => absurd hk (Nat.not_lt_zero k), fun p => rfl, fun p hp => by simp at hp⟩

theorem hextoStr_stopped (key str : ℕ → Byte) : (hextoStr key str).i = 32 ∨ key (hextoStr key str).i = 0 := by
  have hexit := whileFuel_exit (fun s => decide (s.i < 32) && decide (key s.i ≠ 0)) (hextoStrTurn key)
    (Writing key str) (fun s => 32 - s.i) ?_ 32 ⟨0, 0, str, []⟩ ?_ (Nat.le_refl 32)
  · change (decide ((hextoStr key str).i < 32) && decide (key (hextoStr key str).i ≠ 0)) = false at hexit
    have hle := (hextoStr_writing key str).i_le
    by_cases hlast : (hextoStr key str).i = 32
    · exact Or.inl hlast
    · have hlt : (hextoStr key str).i < 32 := by omega
      right
      simpa [hlt] using hexit
  · intro s h hcond
    simp only [Bool.and_eq_true, decide_eq_true_eq] at hcond
    refine ⟨h.turn hcond.1 hcond.2, ?_⟩
    rw [hextoStrTurn_eq key h.pos]
    dsimp only
    omega
  · exact ⟨rfl, by simp, fun k hk => absurd hk (Nat.not_lt_zero k), fun p => rfl, fun p hp => by simp at hp⟩

/-- The digits of the bytes before the first zero byte; the rest of the buffer stays. -/
theorem hextoStr_text (key str : ℕ → Byte) (p : ℕ) : (hextoStr key str).text p =
    if p < 64 ∧ ∀ k ≤ p / 2, key k ≠ 0 then upperHex (half key p) else str p := by
  have h := hextoStr_writing key str
  have hle := h.i_le
  have hiff : p < 2 * (hextoStr key str).i ↔ p < 64 ∧ ∀ k ≤ p / 2, key k ≠ 0 := by
    constructor
    · intro hp
      exact ⟨by omega, fun k hk => h.plain k (by omega)⟩
    · rintro ⟨hp, hplain⟩
      rcases hextoStr_stopped key str with hall | hzero
      · omega
      · by_contra hlate
        exact hplain _ (by omega) hzero
  rw [h.text p]
  simp only [hiff]

theorem hextoStr_writes (key str : ℕ → Byte) : ∀ p ∈ (hextoStr key str).writes, p < 64 := by
  intro p hp
  have hlt := (hextoStr_writing key str).writes p hp
  have hle := (hextoStr_writing key str).i_le
  omega

/-! ## What the decoder reads -/

/-- The two ranges of characters that the decoder takes are the digits, in either case. -/
theorem digit_ranges : ∀ c : Byte, ∀ d ∈ hexValue c, d < 16 ∧
    (((0x30 : Byte).sle (toUpper c) && (toUpper c).sle 0x39) = true ∧
        (toUpper c).signExtend 32 = BitVec.ofNat 32 d + 0x30 ∨
      ((0x30 : Byte).sle (toUpper c) && (toUpper c).sle 0x39) = false ∧
        ((0x41 : Byte).sle (toUpper c) && (toUpper c).sle 0x46) = true ∧
          (toUpper c).signExtend 32 + 10 = BitVec.ofNat 32 d + 0x41) := by decide

theorem hexValue_zero : hexValue 0 = none := rfl

theorem hexValue_lt {c : Byte} {d : ℕ} (h : hexValue c = some d) : d < 16 := (digit_ranges c d h).1

theorem strtoHexTurn_digit {str : ℕ → Byte} {s : HexReader} {d : ℕ} (h : hexValue (str s.i) = some d) :
    strtoHexTurn str s = s.push ((s.value <<< 4) + BitVec.ofNat 32 d) := by
  unfold strtoHexTurn
  dsimp only
  obtain ⟨-, ⟨hrange, hvalue⟩ | ⟨hout, hrange, hvalue⟩⟩ := digit_ranges _ d h
  · rw [if_pos hrange, hvalue, ← BitVec.add_assoc, BitVec.add_sub_cancel]
  · have hback : ∀ x c : BitVec 32, x + c - 0x41 + 10 = x + (c + 10) - 0x41 := by
      intro x c
      bv_omega
    rw [if_neg (by rw [hout]; exact Bool.false_ne_true), if_pos hrange, hback, hvalue, ← BitVec.add_assoc,
      BitVec.add_sub_cancel]

theorem shifted_low (x : BitVec 32) {d : ℕ} (hd : d < 16) :
    ((x <<< 4) + BitVec.ofNat 32 d).toNat % 256 = 16 * (x.toNat % 16) + d := by
  rw [BitVec.toNat_add, BitVec.toNat_shiftLeft, BitVec.toNat_ofNat, Nat.shiftLeft_eq]
  omega

theorem low_byte (x : BitVec 32) : (x &&& 0xff).setWidth 8 = BitVec.ofNat 8 (x.toNat % 256) := by
  apply BitVec.eq_of_toNat_eq
  have hmask : (x &&& 0xff).toNat = x.toNat % 256 := by
    rw [BitVec.toNat_and]
    exact Nat.and_two_pow_sub_one_eq_mod x.toNat 8
  rw [BitVec.toNat_setWidth, hmask, BitVec.toNat_ofNat]

structure Reading (v : ℕ → ℕ) (s : HexReader) : Prop where
  i_le : s.i ≤ 64
  exited : s.exited = false
  value : 0 < s.i → s.value.toNat % 16 = v (s.i - 1)
  hex : ∀ k, 2 * k + 1 < s.i → s.hex k = BitVec.ofNat 8 (16 * v (2 * k) + v (2 * k + 1))

theorem Reading.turn {v : ℕ → ℕ} {str : ℕ → Byte} {s : HexReader} (h : Reading v s) (hi : s.i < 64)
    (hdigit : hexValue (str s.i) = some (v s.i)) :
    Reading v (strtoHexTurn str s) ∧ (strtoHexTurn str s).i = s.i + 1 := by
  have hlow := shifted_low s.value (hexValue_lt hdigit)
  rw [strtoHexTurn_digit hdigit]
  unfold HexReader.push
  by_cases hodd : s.i % 2 = 1
  · rw [if_pos hodd]
    refine ⟨⟨hi, h.exited, ?_, ?_⟩, rfl⟩
    · intro _
      dsimp only
      rw [Nat.add_sub_cancel]
      have hlt := hexValue_lt hdigit
      omega
    · intro k hk
      dsimp only at hk ⊢
      by_cases hlast : k = (s.i + 1) / 2 - 1
      · have hfirst : 2 * k = s.i - 1 := by omega
        have hsecond : 2 * k + 1 = s.i := by omega
        rw [← hlast, Function.update_self, low_byte, hlow, h.value (by omega), hsecond, hfirst]
      · rw [Function.update_of_ne hlast, h.hex k (by omega)]
  · rw [if_neg hodd]
    refine ⟨⟨hi, h.exited, ?_, ?_⟩, rfl⟩
    · intro _
      dsimp only
      rw [Nat.add_sub_cancel]
      have hlt := hexValue_lt hdigit
      omega
    · intro k hk
      exact h.hex k (by dsimp only at hk; omega)

theorem strtoHex_digits {str : ℕ → Byte} {v : ℕ → ℕ} (h : ∀ i < 64, hexValue (str i) = some (v i)) (hex : ℕ → Byte) :
    (strtoHex str hex).exited = false ∧
      ∀ k < 32, (strtoHex str hex).hex k = BitVec.ofNat 8 (16 * v (2 * k) + v (2 * k + 1)) := by
  have hstart : Reading v ⟨0, 0, hex, [], false⟩ :=
    ⟨Nat.zero_le 64, rfl, fun h0 => absurd h0 (Nat.lt_irrefl 0), fun k hk => absurd hk (Nat.not_lt_zero _)⟩
  have hstep : ∀ s : HexReader, Reading v s →
      (!s.exited && decide (s.i < 64) && decide (str s.i ≠ 0)) = true →
        Reading v (strtoHexTurn str s) ∧ 64 - (strtoHexTurn str s).i < 64 - s.i := by
    intro s hs hcond
    simp only [Bool.and_eq_true, decide_eq_true_eq] at hcond
    obtain ⟨hnext, hi⟩ := hs.turn hcond.1.2 (h s.i hcond.1.2)
    refine ⟨hnext, ?_⟩
    omega
  have hrun : Reading v (strtoHex str hex) :=
    whileFuel_inv _ _ (Reading v) (fun s hs hcond => (hstep s hs hcond).1) 64 _ hstart
  have hexit : (!(strtoHex str hex).exited && decide ((strtoHex str hex).i < 64) &&
      decide (str (strtoHex str hex).i ≠ 0)) = false :=
    whileFuel_exit _ _ (Reading v) (fun s => 64 - s.i) hstep 64 _ hstart (Nat.le_refl 64)
  have hall : ¬ (strtoHex str hex).i < 64 := by
    intro hlt
    have hne : str (strtoHex str hex).i ≠ 0 := by
      intro hzero
      have hdigit := h _ hlt
      rw [hzero, hexValue_zero] at hdigit
      exact Option.some_ne_none _ hdigit.symm
    exact hne (by simpa [hrun.exited, hlt] using hexit)
  exact ⟨hrun.exited, fun k hk => hrun.hex k (by omega)⟩

/-- Whatever the text, only the 32 bytes of the key are written. -/
theorem strtoHex_writes (str hex : ℕ → Byte) : ∀ p ∈ (strtoHex str hex).writes, p < 32 := by
  have hpush : ∀ (value : BitVec 32) (s : HexReader), s.i < 64 → (∀ p ∈ s.writes, p < 32) →
      ∀ p ∈ (s.push value).writes, p < 32 := by
    intro value s hi hs p hp
    unfold HexReader.push at hp
    split at hp
    · rcases List.mem_append.1 hp with hold | hnew
      · exact hs p hold
      · rw [List.mem_singleton.1 hnew]
        omega
    · exact hs p hp
  refine whileFuel_inv _ _ (fun s : HexReader => ∀ p ∈ s.writes, p < 32) ?_ 64 _ (by simp)
  intro s hs hcond
  simp only [Bool.and_eq_true, decide_eq_true_eq] at hcond
  unfold strtoHexTurn
  dsimp only
  split
  · exact hpush _ s hcond.1.2 hs
  · split
    · exact hpush _ s hcond.1.2 hs
    · exact hs

/-! ## The round trip -/

/-- A terminated text of 64 digits, from which the key comes back, and no other place written. -/
structure HexRestores (key str hex : ℕ → Byte) : Prop where
  digits : ∀ p < 64, hexValue ((hextoStr key str).text p) ≠ none
  terminated : (hextoStr key str).text 64 = 0
  exited : (strtoHex (hextoStr key str).text hex).exited = false
  restores : ∀ i < 32, (strtoHex (hextoStr key str).text hex).hex i = key i
  text_writes : ∀ p ∈ (hextoStr key str).writes, p ≤ 64
  hex_writes : ∀ p ∈ (strtoHex (hextoStr key str).text hex).writes, p < 32

/-- The buffer ends behind 64 characters, and shows every byte from the first zero byte on already. -/
structure BufferReady (key str : ℕ → Byte) : Prop where
  terminated : str 64 = 0
  shown : ∀ p < 64, (∃ k ≤ p / 2, key k = 0) → hexValue (str p) = some (half key p)

theorem hextoStr_terminator (key str : ℕ → Byte) : (hextoStr key str).text 64 = str 64 := by
  rw [hextoStr_text, if_neg (by omega)]

theorem halves_joined (b : Byte) {x y : ℕ} (hx : x < 16) (hy : y < 16) :
    BitVec.ofNat 8 (16 * x + y) = b ↔ x = b.toNat / 16 ∧ y = b.toNat % 16 := by
  have hb := b.isLt
  rw [← BitVec.toNat_inj, BitVec.toNat_ofNat]
  omega

/-- The two digits of a byte that came back are its halves. -/
theorem HexRestores.halves {key str hex : ℕ → Byte} (h : HexRestores key str hex) {p : ℕ} (hp : p < 64) :
    hexValue ((hextoStr key str).text p) = some (half key p) := by
  have hvalue : ∀ p < 64, hexValue ((hextoStr key str).text p) =
      some ((hexValue ((hextoStr key str).text p)).getD 0) := by
    intro p hp
    obtain ⟨d, hd⟩ := Option.ne_none_iff_exists'.1 (h.digits p hp)
    rw [hd]
    rfl
  obtain ⟨-, hbytes⟩ := strtoHex_digits hvalue hex
  have hbyte := hbytes (p / 2) (by omega)
  rw [h.restores (p / 2) (by omega)] at hbyte
  obtain ⟨hhigh, hlow⟩ := (halves_joined (key (p / 2)) (hexValue_lt (hvalue _ (by omega)))
    (hexValue_lt (hvalue _ (by omega)))).1 hbyte.symm
  rw [hvalue p hp]
  unfold half
  split
  · next heven =>
    have hp2 : 2 * (p / 2) = p := by omega
    rw [← hhigh, hp2]
  · next hodd =>
    have hp2 : 2 * (p / 2) + 1 = p := by omega
    rw [← hlow, hp2]

theorem BufferReady.halves {key str : ℕ → Byte} (h : BufferReady key str) {p : ℕ} (hp : p < 64) :
    hexValue ((hextoStr key str).text p) = some (half key p) := by
  rw [hextoStr_text]
  by_cases hplain : ∀ k ≤ p / 2, key k ≠ 0
  · rw [if_pos ⟨hp, hplain⟩, hexValue_upperHex (half_lt key p)]
  · rw [if_neg (fun hand => hplain hand.2)]
    push Not at hplain
    exact h.shown p hp hplain

theorem hextoStr_restores_iff (key str hex : ℕ → Byte) : HexRestores key str hex ↔ BufferReady key str := by
  constructor
  · intro h
    refine ⟨by rw [← hextoStr_terminator key str, h.terminated], ?_⟩
    rintro p hp ⟨k, hk, hzero⟩
    have hhalf := h.halves hp
    rwa [hextoStr_text, if_neg (fun hplain => hplain.2 k hk hzero)] at hhalf
  · intro h
    obtain ⟨hexited, hbytes⟩ := strtoHex_digits (fun p hp => h.halves hp) hex
    refine ⟨fun p hp => ?_, by rw [hextoStr_terminator, h.terminated], hexited, fun i hi => ?_,
      fun p hp => (hextoStr_writes key str p hp).le, strtoHex_writes _ _⟩
    · rw [h.halves hp]
      exact Option.some_ne_none _
    · rw [hbytes i hi, halves_joined _ (half_lt key _) (half_lt key _), half_even, half_odd]
      exact ⟨rfl, rfl⟩

/-- The key 1, 0, 0, … and a buffer of zeros. -/
theorem hextoStr_truncates : ¬ HexRestores (fun i => if i = 0 then 1 else 0) (fun _ => 0) (fun _ => 0) := by
  intro h
  refine h.digits 2 (by decide) ?_
  rw [hextoStr_text, if_neg (fun hplain => hplain.2 1 (by decide) rfl)]
  rfl

end StarLib.Aes
