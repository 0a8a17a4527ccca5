import Mathlib.Algebra.Group.Even
import Mathlib.Data.List.TakeWhile
import Mathlib.Logic.Function.Basic
import StarLib.Foundations.Ascii
import StarLib.Foundations.Buffers
import StarLib.Foundations.Loop

/-! # The serial number of a drive

`MY_flipAndCodeBytes` of `diskid.cpp`. A drive returns its serial number as hexadecimal text in which the two bytes of
each pair are exchanged; the function takes four digits at a time, and leaves out bytes that are zero.
-/

namespace StarLib.DiskId
open Foundations
set_option autoImplicit false
set_option maxHeartbeats 250000
set_option maxRecDepth 120000

/-- The memory from the first character of a string on, which goes on behind the terminator. -/
structure CharPtr where
  char : ℕ → Byte
  strlen : ℕ
  terminator : char strlen = 0
  noZero : ∀ i < strlen, char i ≠ 0

/-- The `switch`; another character adds nothing. -/
def digit (c : Byte) : ℕ :=
  match c.toNat with
  | 0x30 => 0
  | 0x31 => 1
  | 0x32 => 2
  | 0x33 => 3
  | 0x34 => 4
  | 0x35 => 5
  | 0x36 => 6
  | 0x37 => 7
  | 0x38 => 8
  | 0x39 => 9
  | 0x61 => 10
  | 0x62 => 11
  | 0x63 => 12
  | 0x64 => 13
  | 0x65 => 14
  | 0x66 => 15
  | 0x41 => 10
  | 0x42 => 11
  | 0x43 => 12
  | 0x44 => 13
  | 0x45 => 14
  | 0x46 => 15
  | _ => 0

/-- `_countof(flipped)`. -/
def countof : ℕ := 1000

/-- The local variables, with the places of `str` that were read and those of `flipped` that were written. -/
structure Locals where
  flipped : ℕ → Byte
  nIndex : ℕ
  reads : List ℕ
  writes : List ℕ

/-- The loop over `k`, from this place on. -/
def sumAt (str : ℕ → Byte) (place : ℕ) : ℕ := forRange 0 2 (fun k sum => sum * 16 + digit (str (place + k))) 0

/-- A turn of the loop over `j`, and whether it ends with `break`. -/
def turn (str : ℕ → Byte) (i j : ℕ) (s : Locals) : Locals × Bool :=
  let sum := sumAt str (i + j * 2)
  let s := { s with reads := s.reads ++ [i + j * 2, i + j * 2 + 1] }
  if 0 < sum then
    let s := { s with
      flipped := Function.update s.flipped s.nIndex (BitVec.ofNat 8 sum)
      writes := s.writes ++ [s.nIndex]
      nIndex := s.nIndex + 1 }
    (s, decide (countof - 1 ≤ s.nIndex))
  else (s, false)

/-- `for (int j = 1; j >= 0; j--)`. -/
def group (str : ℕ → Byte) (i : ℕ) (s : Locals) : Locals :=
  let r := turn str i 1 s
  if r.2 then r.1 else (turn str i 0 r.1).1

/-- `for (int i = 0; i < nSize; i += 4)`; behind its `break` the turns do nothing. -/
def loop (str : ℕ → Byte) (turns : ℕ) : Locals :=
  forRange 0 turns (fun t s => if countof - 1 ≤ s.nIndex then s else group str (4 * t) s) ⟨fun _ => 0, 0, [], []⟩

/-- The run for a string: a turn for every four characters, and one for the rest. -/
def run (str : CharPtr) : Locals := loop str.char ((str.strlen + 3) / 4)

/-- `MY_flipAndCodeBytes`; without a string `nSize` is 0. The array is returned as a string. -/
def flipAndCodeBytes (str : Option CharPtr) : List Byte :=
  let s := match str with
    | none => loop (fun _ => 0) 0
    | some str => run str
  ((List.range countof).map s.flipped).takeWhile (· ≠ 0)

/-! ## What a run does -/

/-- The byte that two digits encode, unless it is zero. -/
def pairBytes (str : ℕ → Byte) (place : ℕ) : List Byte :=
  if 0 < sumAt str place then [BitVec.ofNat 8 (sumAt str place)] else []

/-- A group of four digits encodes the second byte first. -/
def groupBytes (str : ℕ → Byte) (i : ℕ) : List Byte := pairBytes str (i + 2) ++ pairBytes str i

/-- The bytes of the first groups. -/
def decoded (str : ℕ → Byte) (turns : ℕ) : List Byte := (List.range turns).flatMap fun t => groupBytes str (4 * t)

/-- The array begins with `l`, and nothing else was written to it. -/
structure Holds (l : List Byte) (s : Locals) : Prop where
  flipped : s.flipped = fun i => l.getD i 0
  nIndex : s.nIndex = l.length
  writes : s.writes = List.range l.length

section Turns
variable {str : ℕ → Byte} {i j t : ℕ} {l : List Byte} {s : Locals}

theorem getD_concat (l : List Byte) (b : Byte) :
    Function.update (fun i => l.getD i 0) l.length b = fun i => (l ++ [b]).getD i 0 := by
  funext i
  rcases Nat.lt_trichotomy i l.length with hlt | rfl | hgt
  · rw [Function.update_of_ne hlt.ne, List.getD_append _ _ _ _ hlt]
  · rw [Function.update_self, List.getD_append_right _ _ _ _ (le_refl _), Nat.sub_self, List.getD_cons_zero]
  · rw [Function.update_of_ne hgt.ne', List.getD_eq_default _ _ hgt.le, List.getD_eq_default]
    rw [List.length_append]
    exact hgt

theorem pairBytes_length (str : ℕ → Byte) (place : ℕ) : (pairBytes str place).length ≤ 1 := by
  unfold pairBytes
  split
  · exact le_refl 1
  · exact Nat.zero_le 1

theorem turn_reads : (turn str i j s).1.reads = s.reads ++ [i + j * 2, i + j * 2 + 1] := by
  unfold turn
  dsimp only
  split <;> rfl

/-- A turn writes its byte, and ends the loop where the array is full. -/
theorem turn_holds (str : ℕ → Byte) (i j : ℕ) (h : Holds l s) (hroom : l.length < 999) :
    Holds (l ++ pairBytes str (i + j * 2)) (turn str i j s).1 ∧
      (turn str i j s).2 = decide (999 ≤ (l ++ pairBytes str (i + j * 2)).length) := by
  unfold turn pairBytes
  dsimp only
  split
  · rw [List.length_append, List.length_singleton]
    refine ⟨⟨?_, ?_, ?_⟩, ?_⟩
    · rw [h.flipped, h.nIndex]
      exact getD_concat l _
    · rw [List.length_append, List.length_singleton]
      exact congrArg (· + 1) h.nIndex
    · rw [List.length_append, List.length_singleton, List.range_succ, ← h.writes, ← h.nIndex]
    · rw [h.nIndex]
      rfl
  · rw [List.append_nil]
    refine ⟨⟨h.flipped, h.nIndex, h.writes⟩, ?_⟩
    exact (decide_eq_false (by omega)).symm

/-- A group writes its bytes as far as the array has room for them. -/
theorem group_holds (h : Holds l s) (hroom : l.length < 999) :
    Holds ((l ++ groupBytes str i).take 999) (group str i s) := by
  have hfirst := turn_holds str i 1 h hroom
  have hone := pairBytes_length str (i + 2)
  have hzero := pairBytes_length str i
  have hlength : (l ++ pairBytes str (i + 2)).length = l.length + (pairBytes str (i + 2)).length := List.length_append
  have hplace : i + 1 * 2 = i + 2 := rfl
  rw [hplace] at hfirst
  unfold group groupBytes
  dsimp only
  rw [← List.append_assoc, hfirst.2]
  by_cases hfull : 999 ≤ (l ++ pairBytes str (i + 2)).length
  · rw [decide_eq_true hfull, if_pos rfl, List.take_append_of_le_length hfull, List.take_of_length_le (by omega)]
    exact hfirst.1
  · rw [decide_eq_false hfull, if_neg Bool.false_ne_true, List.take_of_length_le]
    · exact (turn_holds str i 0 hfirst.1 (not_le.1 hfull)).1
    · rw [List.length_append]
      omega

theorem group_reads (str : ℕ → Byte) (i : ℕ) (s : Locals) : (group str i s).reads = s.reads ++ [i + 2, i + 3] ∨
    (group str i s).reads = s.reads ++ [i + 2, i + 3] ++ [i, i + 1] := by
  unfold group
  dsimp only
  split
  · left
    exact turn_reads
  · right
    rw [turn_reads, turn_reads]
    rfl

end Turns

/-- After some turns: what was decoded is in the array as far as it has room, and a group was read exactly where the
array was not full before it. -/
structure After (str : ℕ → Byte) (t : ℕ) (s : Locals) : Prop where
  holds : Holds ((decoded str t).take 999) s
  read : ∀ r ∈ s.reads, ∃ g < t, (decoded str g).length < 999 ∧ 4 * g ≤ r ∧ r < 4 * g + 4
  reached : ∀ g < t, (decoded str g).length < 999 → 4 * g + 3 ∈ s.reads

theorem decoded_succ (str : ℕ → Byte) (t : ℕ) : decoded str (t + 1) = decoded str t ++ groupBytes str (4 * t) := by
  unfold decoded
  rw [List.range_succ, List.flatMap_append, List.flatMap_singleton]

theorem After.full {str : ℕ → Byte} {t : ℕ} {s : Locals} (h : After str t s) (hfull : 999 ≤ s.nIndex) :
    999 ≤ (decoded str t).length := by
  rw [h.holds.nIndex, List.length_take] at hfull
  omega

theorem turn_after {str : ℕ → Byte} {t : ℕ} {s : Locals} (h : After str t s) :
    After str (t + 1) (if countof - 1 ≤ s.nIndex then s else group str (4 * t) s) := by
  have hcount : countof - 1 = 999 := rfl
  rw [hcount]
  by_cases hfull : 999 ≤ s.nIndex
  · have hlength := h.full hfull
    rw [if_pos hfull]
    refine ⟨?_, fun r hr => ?_, fun g hg hroom => ?_⟩
    · rw [decoded_succ, List.take_append_of_le_length hlength]
      exact h.holds
    · obtain ⟨g, hg, hread⟩ := h.read r hr
      exact ⟨g, Nat.lt_succ_of_lt hg, hread⟩
    · rcases Nat.lt_succ_iff_lt_or_eq.1 hg with hg | rfl
      · exact h.reached g hg hroom
      · omega
  · have hlength : (decoded str t).length < 999 := by
      have hindex := h.holds.nIndex
      rw [List.length_take] at hindex
      omega
    have hholds := h.holds
    rw [List.take_of_length_le hlength.le] at hholds
    have hreads : ∃ rest, (group str (4 * t) s).reads = s.reads ++ [4 * t + 2, 4 * t + 3] ++ rest ∧
        ∀ r ∈ rest, 4 * t ≤ r ∧ r < 4 * t + 4 := by
      rcases group_reads str (4 * t) s with hreads | hreads
      · exact ⟨[], by rw [hreads, List.append_nil], fun r hr => absurd hr List.not_mem_nil⟩
      · refine ⟨[4 * t, 4 * t + 1], hreads, ?_⟩
        intro r hr
        rw [List.mem_pair] at hr
        omega
    obtain ⟨rest, hreads, hrest⟩ := hreads
    rw [if_neg hfull]
    refine ⟨?_, fun r hr => ?_, fun g hg hroom => ?_⟩
    · rw [decoded_succ]
      exact group_holds hholds hlength
    · rw [hreads, List.mem_append, List.mem_append, List.mem_pair] at hr
      rcases hr with (hr | hr) | hr
      · obtain ⟨g, hg, hread⟩ := h.read r hr
        exact ⟨g, Nat.lt_succ_of_lt hg, hread⟩
      · exact ⟨t, Nat.lt_succ_self t, hlength, by omega⟩
      · exact ⟨t, Nat.lt_succ_self t, hlength, hrest r hr⟩
    · rw [hreads, List.mem_append, List.mem_append]
      left
      rcases Nat.lt_succ_iff_lt_or_eq.1 hg with hg | rfl
      · exact Or.inl (h.reached g hg hroom)
      · exact Or.inr (List.mem_cons_of_mem _ List.mem_cons_self)

theorem loop_after (str : ℕ → Byte) (turns : ℕ) : After str turns (loop str turns) := by
  have hstart : After str 0 ⟨fun _ => 0, 0, [], []⟩ :=
    ⟨⟨rfl, rfl, rfl⟩, fun r hr => absurd hr List.not_mem_nil, fun g hg => absurd hg (Nat.not_lt_zero g)⟩
  exact forRange_inv (fun t s => After str t s) (Nat.zero_le turns) hstart fun t s _ _ h => turn_after h

/-! ## The encoding of a drive -/

/-- The digit of a half of a byte, as a small letter from ten on. -/
def hexDigit (d : ℕ) : Byte := BitVec.ofNat 8 (if d < 10 then 0x30 + d else 0x57 + d)

def hexText (s : List Byte) : List Byte := s.flatMap fun b => [hexDigit (b.toNat / 16), hexDigit (b.toNat % 16)]

/-- The two bytes of each pair exchanged. -/
def exchanged : List Byte → List Byte
  | a :: b :: s => b :: a :: exchanged s
  | s => s

def CharPtr.text (str : CharPtr) : List Byte := (List.range str.strlen).map str.char

/-- From `place` on there is this text, in either case. -/
def Text (str : ℕ → Byte) : ℕ → List Byte → Prop
  | _, [] => True
  | place, c :: l => toLower (str place) = c ∧ Text str (place + 1) l

section Text
variable {str : ℕ → Byte} {place : ℕ} {s : List Byte}

theorem text_of_map {l : List Byte} (h : ((List.range' place l.length).map str).map toLower = l) : Text str place l := by
  induction l generalizing place with
  | nil => trivial
  | cons c l ih =>
    rw [List.length_cons, List.range'_succ, List.map_cons, List.map_cons, List.cons.injEq] at h
    exact ⟨h.1, ih h.2⟩

theorem digit_toLower : ∀ c : Byte, digit (toLower c) = digit c := by decide

theorem digit_hexDigit : ∀ d < 16, digit (hexDigit d) = d := by decide

theorem hexText_cons (b : Byte) (s : List Byte) :
    hexText (b :: s) = hexDigit (b.toNat / 16) :: hexDigit (b.toNat % 16) :: hexText s := List.flatMap_cons

theorem hexText_length (s : List Byte) : (hexText s).length = 2 * s.length := by
  induction s with
  | nil => rfl
  | cons b s ih =>
    rw [hexText_cons, List.length_cons, List.length_cons, ih, List.length_cons]
    omega

theorem exchanged_length : ∀ s : List Byte, (exchanged s).length = s.length
  | [] => rfl
  | [_] => rfl
  | _ :: _ :: s => congrArg (· + 2) (exchanged_length s)

/-- The digits of a byte are summed up to it. -/
theorem pairBytes_text {b : Byte} (hb : b ≠ 0) (h : Text str place (hexText (b :: s))) :
    pairBytes str place = [b] ∧ Text str (place + 2) (hexText s) := by
  rw [hexText_cons] at h
  obtain ⟨hhigh, hlow, hrest⟩ := h
  have hlt := b.isLt
  have hsum : sumAt str place = b.toNat := by
    show (0 * 16 + digit (str place)) * 16 + digit (str (place + 1)) = b.toNat
    rw [← digit_toLower (str place), ← digit_toLower (str (place + 1)), hhigh, hlow, digit_hexDigit _ (by omega),
      digit_hexDigit _ (by omega)]
    omega
  have hpos : 0 < b.toNat := Nat.pos_of_ne_zero fun hzero => hb (BitVec.eq_of_toNat_eq hzero)
  unfold pairBytes
  rw [hsum, if_pos hpos, BitVec.ofNat_toNat, BitVec.setWidth_eq]
  exact ⟨rfl, hrest⟩

/-- From any group on the text of whole pairs is decoded to them. -/
theorem groups_text : ∀ (s : List Byte) (t : ℕ), (∀ b ∈ s, b ≠ 0) → Even s.length →
    Text str (4 * t) (hexText (exchanged s)) →
    ((List.range' t (s.length / 2)).flatMap fun g => groupBytes str (4 * g)) = s
  | [], _, _, _, _ => rfl
  | [_], _, _, heven, _ => absurd heven Nat.not_even_one
  | a :: b :: s, t, hs, heven, h => by
    obtain ⟨hb, h⟩ := pairBytes_text (hs b (List.mem_cons_of_mem a List.mem_cons_self)) h
    obtain ⟨ha, h⟩ := pairBytes_text (hs a List.mem_cons_self) h
    have heven' : Even s.length := by
      rw [List.length_cons, List.length_cons, Nat.even_add_one, Nat.even_add_one, not_not] at heven
      exact heven
    have hrest := groups_text s (t + 1) (fun c hc => hs c (List.mem_cons_of_mem a (List.mem_cons_of_mem b hc))) heven' h
    have hhalf : (a :: b :: s).length / 2 = s.length / 2 + 1 := by
      rw [List.length_cons, List.length_cons]
      omega
    rw [hhalf, List.range'_succ, List.flatMap_cons, hrest]
    unfold groupBytes
    rw [ha, hb]
    rfl

end Text

/-- The bytes in front of the zeros that the array was filled with. -/
theorem takeWhile_array {l : List Byte} (hl : ∀ b ∈ l, b ≠ 0) (hlength : l.length < countof) :
    ((List.range countof).map fun i => l.getD i 0).takeWhile (· ≠ 0) = l := by
  obtain ⟨k, hk⟩ : ∃ k, countof = l.length + (k + 1) := ⟨countof - l.length - 1, by omega⟩
  have hend : decide (l.getD (l.length + 0) 0 ≠ 0) = false := by
    rw [Nat.add_zero, List.getD_eq_default _ _ (le_refl _)]
    rfl
  rw [hk, List.range_add, List.range_succ_eq_map, List.map_append, Buf.range_getD, List.map_cons, List.map_cons,
    takeWhile_stop l _ hend, takeWhile_plain hl]

/-- The text of a serial number, in either letter case, is decoded to it. -/
theorem flipAndCodeBytes_text {s : List Byte} (hs : ∀ b ∈ s, b ≠ 0) (heven : Even s.length) (hlength : s.length ≤ 998)
    (str : CharPtr) (h : str.text.map toLower = hexText (exchanged s)) : flipAndCodeBytes (some str) = s := by
  have hstrlen : str.strlen = 2 * s.length := by
    have hlengths := congrArg List.length h
    rw [List.length_map, hexText_length, exchanged_length] at hlengths
    unfold CharPtr.text at hlengths
    rw [List.length_map, List.length_range] at hlengths
    exact hlengths
  have htext : Text str.char (4 * 0) (hexText (exchanged s)) := by
    refine text_of_map ?_
    rw [hexText_length, exchanged_length, ← hstrlen, ← List.range_eq_range']
    exact h
  have hturns : (str.strlen + 3) / 4 = s.length / 2 := by
    obtain ⟨k, hk⟩ := heven
    omega
  have hdecoded : decoded str.char (s.length / 2) = s := by
    unfold decoded
    rw [List.range_eq_range']
    exact groups_text s 0 hs heven htext
  have hholds := (loop_after str.char (s.length / 2)).holds
  rw [hdecoded, List.take_of_length_le (by omega)] at hholds
  rw [← hturns] at hholds
  have hflipped : (run str).flipped = fun i => s.getD i 0 := hholds.flipped
  show ((List.range countof).map (run str).flipped).takeWhile (· ≠ 0) = s
  rw [hflipped]
  exact takeWhile_array hs (Nat.lt_of_le_of_lt hlength (by decide))

/-- `6` and a byte above 0x7F, as `fe36`. -/
def twoBytes : CharPtr where
  char i := [0x66, 0x65, 0x33, 0x36].getD i 0
  strlen := 4
  terminator := rfl
  noZero := by decide

theorem flipAndCodeBytes_twoBytes : flipAndCodeBytes (some twoBytes) = [0x36, 0xfe] :=
  flipAndCodeBytes_text (by decide) ⟨1, rfl⟩ (by decide) twoBytes (by decide)

/-! ## The places that a run touches -/

/-- No character behind the terminator is read, and at most 999 bytes of the array are written, in front of a zero. -/
structure InBounds (str : CharPtr) : Prop where
  reads : ∀ r ∈ (run str).reads, r ≤ str.strlen
  writes : (run str).writes.length ≤ 999 ∧ ∀ i ∈ (run str).writes, i < 999
  terminator : (run str).flipped 999 = 0

theorem Holds.room {l : List Byte} {s : Locals} (h : Holds (l.take 999) s) :
    (s.writes.length ≤ 999 ∧ ∀ i ∈ s.writes, i < 999) ∧ s.flipped 999 = 0 := by
  have hlength : (l.take 999).length ≤ 999 := List.length_take_le 999 l
  rw [h.writes, List.length_range, h.flipped]
  refine ⟨⟨hlength, fun i hi => ?_⟩, List.getD_eq_default _ _ hlength⟩
  exact (List.mem_range.1 hi).trans_le hlength

/-- The rest of a text that is no whole group is read beyond its end, unless the array is full before. -/
theorem inBounds_iff (str : CharPtr) : InBounds str ↔
    str.strlen % 4 = 0 ∨ str.strlen % 4 = 3 ∨ 999 ≤ (decoded str.char (str.strlen / 4)).length := by
  have hafter := loop_after str.char ((str.strlen + 3) / 4)
  constructor
  · intro h
    by_contra hbad
    rw [not_or, not_or, not_le] at hbad
    obtain ⟨hzero, hthree, hroom⟩ := hbad
    have hread := h.reads _ (hafter.reached (str.strlen / 4) (by omega) hroom)
    omega
  · intro h
    refine ⟨fun r hr => ?_, hafter.holds.room.1, hafter.holds.room.2⟩
    obtain ⟨g, hg, hroom, hlow, hhigh⟩ := hafter.read r hr
    rcases h with h | h | h
    · omega
    · omega
    · have hne : g ≠ str.strlen / 4 := by
        rintro rfl
        omega
      omega

/-- A text of five digits. -/
def fiveDigits : CharPtr where
  char i := [0x32, 0x30, 0x32, 0x30, 0x32].getD i 0
  strlen := 5
  terminator := rfl
  noZero := by decide

/-- Of five digits the second group is read up to its eighth place. -/
theorem rest_overread : ¬ ∀ str : CharPtr, InBounds str := by
  intro hall
  have hread := (hall fiveDigits).reads 7
  revert hread
  decide

end StarLib.DiskId
