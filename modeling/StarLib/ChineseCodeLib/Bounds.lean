import StarLib.ChineseCodeLib.Convert
import StarLib.Foundations.Accesses

/-! # What the conversions read and write

Both loops go over characters of one byte and of several, and write a different number of bytes for the latter.
Their indices are safe when the input ends with a whole character and has neither too many nor too few of the long
ones. The input is memory: what lies behind its length may be anything.
-/

namespace StarLib.ChineseCodeLib
open Foundations
set_option autoImplicit false
set_option maxHeartbeats 250000
set_option maxRecDepth 120000

def copiedToUTF_8 (x : Byte) : Bool := decide (0 ≤ x.toInt)

def copiedToGB2312 (x : Byte) : Bool := decide (0 < x.toInt)

/-- The bytes of `pText` that a turn of `GB2312ToUTF_8` reads. -/
def encodeTurnReads (pText : ℕ → Byte) (s : EncodeRun) : List ℕ :=
  if copiedToUTF_8 (pText s.i) then [s.i] else [s.i, s.i + 1]

def encodeReads (cp : CodePage) (pText : ℕ → Byte) (pLen : ℕ) : List ℕ :=
  let rst : Buf Byte := ⟨pLen + pLen / 4 + 2, fun _ => 0, true⟩
  (whileTurns (fun s => decide (s.i < pLen)) (encodeTurn cp pText) pLen ⟨0, 0, rst⟩).flatMap (encodeTurnReads pText)

/-- The bytes of `pText` that a turn of `UTF_8ToGB2312` reads. -/
def decodeTurnReads (pText : ℕ → Byte) (s : DecodeRun) : List ℕ :=
  if copiedToGB2312 (pText s.i) then [s.i] else [s.i, s.i + 1, s.i + 2]

def decodeReads (cp : CodePage) (old : ℕ → Byte) (pText : ℕ → Byte) (pLen : ℕ) : List ℕ :=
  (whileTurns (fun s => decide (s.i < pLen)) (decodeTurn cp pText) pLen ⟨0, 0, (0, 0), ⟨pLen, old, true⟩⟩).flatMap
    (decodeTurnReads pText)

/-- `GB2312ToUTF_8` writes inside `rst`, and reads inside its input. -/
def EncodeInside (cp : CodePage) (pText : ℕ → Byte) (pLen : ℕ) : Prop :=
  (gb2312ToUTF_8 cp pText pLen).inside = true ∧ ∀ k ∈ encodeReads cp pText pLen, k < pLen

/-- `UTF_8ToGB2312` writes inside `newBuf`, and reads inside its input. -/
def DecodeInside (cp : CodePage) (old : ℕ → Byte) (pText : ℕ → Byte) (pLen : ℕ) : Prop :=
  (utf_8ToGB2312 cp old pText pLen).inside = true ∧ ∀ k ∈ decodeReads cp old pText pLen, k < pLen

/-- How many characters of one byte and how many of `wide` bytes there are in the `n` bytes from `i` on, the first
`pending` of which belong to a character that has begun. There is no answer when the last one is cut off. -/
def charCounts (copied : Byte → Bool) (wide : ℕ) (pText : ℕ → Byte) (i : ℕ) : ℕ → ℕ → Option (ℕ × ℕ)
  | 0, 0 => some (0, 0)
  | 0, _ + 1 => none
  | n + 1, 0 =>
    if copied (pText i) then (charCounts copied wide pText (i + 1) n 0).map fun c => (c.1 + 1, c.2)
    else (charCounts copied wide pText (i + 1) n (wide - 1)).map fun c => (c.1, c.2 + 1)
  | n + 1, pending + 1 => charCounts copied wide pText (i + 1) n pending

/-! ## Two counters -/

/-- A turn of a loop that goes on by one byte and writes one, or goes on by `wide` bytes and writes `out`. -/
structure Scans (copied : Byte → Bool) (wide out : ℕ) (pText : ℕ → Byte) {σ : Type} (i j : σ → ℕ) (turn : σ → σ) :
    Prop where
  single : ∀ s, copied (pText (i s)) = true → i (turn s) = i s + 1 ∧ j (turn s) = j s + 1
  several : ∀ s, copied (pText (i s)) = false → i (turn s) = i s + wide ∧ j (turn s) = j s + out

section Counters
variable {copied : Byte → Bool} {wide out : ℕ} {pText : ℕ → Byte} {σ : Type} {i j : σ → ℕ} {turn : σ → σ}
  {more : σ → Bool} {pLen : ℕ}

theorem charCounts_pending (i n : ℕ) {pending : ℕ} (h : pending ≤ n) :
    charCounts copied wide pText i n pending = charCounts copied wide pText (i + pending) (n - pending) 0 := by
  induction pending generalizing i n with
  | zero => rfl
  | succ pending ih =>
    obtain ⟨m, rfl⟩ : ∃ m, n = m + 1 := ⟨n - 1, by omega⟩
    have hindex : i + 1 + pending = i + (pending + 1) := by omega
    have hrest := ih (i + 1) m (by omega)
    rw [hindex] at hrest
    rw [Nat.add_sub_add_right, ← hrest]
    rfl

theorem charCounts_cut (i n : ℕ) {pending : ℕ} (h : n < pending) : charCounts copied wide pText i n pending = none := by
  induction n generalizing i pending with
  | zero =>
    obtain ⟨m, rfl⟩ : ∃ m, pending = m + 1 := ⟨pending - 1, by omega⟩
    rfl
  | succ n ih =>
    obtain ⟨m, rfl⟩ : ∃ m, pending = m + 1 := ⟨pending - 1, by omega⟩
    exact ih (i + 1) (by omega)

theorem charCounts_sum (hwide : 0 < wide) (i n pending : ℕ) {c : ℕ × ℕ}
    (h : charCounts copied wide pText i n pending = some c) : n = pending + c.1 + wide * c.2 := by
  induction n generalizing i pending c with
  | zero =>
    cases pending with
    | zero =>
      cases h
      rfl
    | succ pending => cases h
  | succ n ih =>
    cases pending with
    | succ pending =>
      have hrest := ih (i + 1) pending h
      omega
    | zero =>
      unfold charCounts at h
      split at h
      · obtain ⟨c', hc', rfl⟩ := Option.map_eq_some_iff.1 h
        have hrest := ih (i + 1) 0 hc'
        dsimp only
        omega
      · obtain ⟨c', hc', rfl⟩ := Option.map_eq_some_iff.1 h
        have hrest := ih (i + 1) (wide - 1) hc'
        rw [Nat.mul_add]
        omega

theorem Scans.turn_eq (h : Scans copied wide out pText i j turn) (s : σ) :
    i (turn s) = i s + if copied (pText (i s)) then 1 else wide := by
  cases hc : copied (pText (i s)) with
  | true => exact (h.single s hc).1
  | false => exact (h.several s hc).1

theorem Scans.lt_turn (h : Scans copied wide out pText i j turn) (hwide : 0 < wide) (s : σ) : i s < i (turn s) := by
  rw [h.turn_eq]
  split <;> omega

/-- The characters of a turn, and those of the rest. -/
theorem Scans.charCounts_turn (h : Scans copied wide out pText i j turn) (hwide : 0 < wide) {s : σ} (hlt : i s < pLen) :
    (i (turn s) ≤ pLen → ∃ one several, j (turn s) = j s + one + out * several ∧
      charCounts copied wide pText (i s) (pLen - i s) 0 =
        (charCounts copied wide pText (i (turn s)) (pLen - i (turn s)) 0).map fun c => (c.1 + one, c.2 + several)) ∧
      (pLen < i (turn s) → charCounts copied wide pText (i s) (pLen - i s) 0 = none) := by
  obtain ⟨n, hn⟩ : ∃ n, pLen - i s = n + 1 := ⟨pLen - i s - 1, by omega⟩
  rw [hn, charCounts]
  cases hc : copied (pText (i s)) with
  | true =>
    obtain ⟨hi, hj⟩ := h.single s hc
    have hrest : pLen - i (turn s) = n := by omega
    refine ⟨fun _ => ⟨1, 0, by omega, ?_⟩, fun hcut => by omega⟩
    rw [if_pos rfl, hrest, hi]
    rfl
  | false =>
    obtain ⟨hi, hj⟩ := h.several s hc
    refine ⟨fun hle => ⟨0, 1, by omega, ?_⟩, fun hcut => ?_⟩
    · have hnext : i s + 1 + (wide - 1) = i (turn s) := by omega
      have hrest : pLen - i (turn s) = n - (wide - 1) := by omega
      rw [if_neg Bool.false_ne_true, hrest, ← hnext, ← charCounts_pending (i s + 1) n (by omega)]
      rfl
    · rw [if_neg Bool.false_ne_true, charCounts_cut (i s + 1) n (by omega)]
      rfl

/-- Where the counters stand after the loop. -/
theorem Scans.counts (h : Scans copied wide out pText i j turn) (hwide : 0 < wide)
    (hmore : ∀ s, more s = decide (i s < pLen)) (fuel : ℕ) {s : σ}
    (hle : i s ≤ pLen) (hfuel : pLen ≤ i s + fuel) :
    (∀ c, charCounts copied wide pText (i s) (pLen - i s) 0 = some c →
      i (whileFuel more turn fuel s) = pLen ∧
        j (whileFuel more turn fuel s) = j s + c.1 + out * c.2) ∧
      (charCounts copied wide pText (i s) (pLen - i s) 0 = none →
        pLen < i (whileFuel more turn fuel s)) := by
  induction fuel generalizing s with
  | zero =>
    have hend : i s = pLen := by omega
    rw [hend, Nat.sub_self]
    refine ⟨fun c hc => ?_, fun hc => ?_⟩
    · cases hc
      exact ⟨hend, rfl⟩
    · cases hc
  | succ fuel ih =>
    by_cases hlt : i s < pLen
    · have hnext := h.lt_turn hwide s
      obtain ⟨hin, hcut⟩ := h.charCounts_turn hwide hlt
      rw [whileFuel_succ ((hmore s).trans (decide_eq_true hlt))]
      by_cases hturn : i (turn s) ≤ pLen
      · obtain ⟨one, several, hj, hcounts⟩ := hin hturn
        obtain ⟨hsome, hnone⟩ := ih hturn (by omega)
        rw [hcounts]
        refine ⟨fun c hc => ?_, fun hc => hnone (Option.map_eq_none_iff.1 hc)⟩
        obtain ⟨c', hc', rfl⟩ := Option.map_eq_some_iff.1 hc
        obtain ⟨hi', hj'⟩ := hsome c' hc'
        refine ⟨hi', ?_⟩
        rw [hj', hj, Nat.mul_add]
        dsimp only
        omega
      · rw [hcut (by omega), whileFuel_done ((hmore _).trans (decide_eq_false (by omega)))]
        refine ⟨fun c hc => ?_, fun _ => by omega⟩
        cases hc
    · have hend : i s = pLen := by omega
      rw [whileFuel_done ((hmore s).trans (decide_eq_false hlt)), hend, Nat.sub_self]
      refine ⟨fun c hc => ?_, fun hc => ?_⟩
      · cases hc
        exact ⟨rfl, rfl⟩
      · cases hc

/-- A turn reads up to where the next one begins, so that no turn reads behind the input if the last ends with it. -/
theorem Scans.reads (h : Scans copied wide out pText i j turn) (hwide : 0 < wide)
    (hmore : ∀ s, more s = decide (i s < pLen)) {reads : σ → List ℕ}
    (hreads : ∀ s, reads s = List.range' (i s) (if copied (pText (i s)) then 1 else wide)) (fuel : ℕ) {s : σ}
    (hle : i s ≤ pLen) :
    (∀ k ∈ (whileTurns more turn fuel s).flatMap reads, k < pLen) ↔
      i (whileFuel more turn fuel s) ≤ pLen := by
  induction fuel generalizing s with
  | zero => simp [whileTurns, whileFuel, hle]
  | succ fuel ih =>
    by_cases hlt : i s < pLen
    · have hnext := h.lt_turn hwide s
      have hturn : (∀ k ∈ reads s, k < pLen) ↔ i (turn s) ≤ pLen := by
        rw [hreads, ← Nat.add_sub_cancel_left (i s) (if copied (pText (i s)) then 1 else wide), ← h.turn_eq]
        constructor
        · intro hall
          have hlast := hall (i (turn s) - 1) (List.mem_range'_1.2 (by omega))
          omega
        · intro hin k hk
          have hk' := List.mem_range'_1.1 hk
          omega
      have hgo : more s = true := (hmore s).trans (decide_eq_true hlt)
      rw [whileTurns_succ hgo, whileFuel_succ hgo, List.flatMap_cons, List.forall_mem_append, hturn]
      by_cases hin : i (turn s) ≤ pLen
      · rw [ih hin]
        exact ⟨fun hall => hall.2, fun hend => ⟨hin, hend⟩⟩
      · rw [whileFuel_done ((hmore _).trans (decide_eq_false (by omega)))]
        exact ⟨fun hall => hall.1, fun hend => absurd hend hin⟩
    · rw [whileTurns_done ((hmore s).trans (decide_eq_false hlt)), whileFuel_done ((hmore s).trans (decide_eq_false hlt))]
      simp [hle]

/-- The writes and the reads of the loop, and of the terminator after it. -/
theorem Scans.inside_iff (h : Scans copied wide out pText i j turn) (hwide : 0 < wide)
    (hmore : ∀ s, more s = decide (i s < pLen)) {reads : σ → List ℕ}
    (hreads : ∀ s, reads s = List.range' (i s) (if copied (pText (i s)) then 1 else wide)) {s : σ}
    (hi : i s = 0) (hj : j s = 0) {room : ℕ} {b : Buf Byte}
    (hb : ∃ written : List Byte, written.length = j (whileFuel more turn pLen s) ∧ b.Holds room written) :
    ((b.put (j (whileFuel more turn pLen s)) 0).inside = true ∧
        ∀ k ∈ (whileTurns more turn pLen s).flatMap reads, k < pLen) ↔
      ∃ c, charCounts copied wide pText 0 pLen 0 = some c ∧ c.1 + out * c.2 < room := by
  have hcounts := h.counts hwide hmore pLen (s := s) (by omega) (by omega)
  rw [h.reads hwide hmore hreads pLen (by omega)]
  rw [hi, hj, Nat.sub_zero] at hcounts
  obtain ⟨written, hlen, hholds⟩ := hb
  rw [← hlen, hholds.put_inside_iff, hlen]
  constructor
  · intro hsafe
    cases hc : charCounts copied wide pText 0 pLen 0 with
    | none => exact absurd hsafe.2 (Nat.not_le.2 (hcounts.2 hc))
    | some c =>
      have hend := (hcounts.1 c hc).2
      exact ⟨c, rfl, by omega⟩
  · rintro ⟨c, hc, hroom⟩
    obtain ⟨hend, hwritten⟩ := hcounts.1 c hc
    exact ⟨by omega, by omega⟩

end Counters

/-! ## The two loops -/

theorem encodeTurn_scans (cp : CodePage) (pText : ℕ → Byte) :
    Scans copiedToUTF_8 2 3 pText EncodeRun.i EncodeRun.j (encodeTurn cp pText) where
  single := by
    intro s hs
    unfold encodeTurn
    rw [if_pos (of_decide_eq_true hs)]
    exact ⟨rfl, rfl⟩
  several := by
    intro s hs
    unfold encodeTurn
    rw [if_neg (of_decide_eq_false hs)]
    exact ⟨rfl, rfl⟩

theorem decodeTurn_scans (cp : CodePage) (pText : ℕ → Byte) :
    Scans copiedToGB2312 3 2 pText DecodeRun.i DecodeRun.j (decodeTurn cp pText) where
  single := by
    intro s hs
    unfold decodeTurn
    rw [if_pos (of_decide_eq_true hs)]
    exact ⟨rfl, rfl⟩
  several := by
    intro s hs
    unfold decodeTurn
    rw [if_neg (of_decide_eq_false hs)]
    exact ⟨rfl, rfl⟩

/-- The buffer holds as many bytes as `j` says. -/
def EncodeRun.Filled (n : ℕ) (s : EncodeRun) : Prop := ∃ out : List Byte, out.length = s.j ∧ s.rst.Holds n out

def DecodeRun.Filled (n : ℕ) (s : DecodeRun) : Prop := ∃ out : List Byte, out.length = s.j ∧ s.newBuf.Holds n out

theorem EncodeRun.Filled.turn {cp : CodePage} {pText : ℕ → Byte} {n : ℕ} {s : EncodeRun} (h : s.Filled n) :
    (encodeTurn cp pText s).Filled n := by
  obtain ⟨out, hlen, hholds⟩ := h
  unfold encodeTurn
  split
  · refine ⟨out ++ [pText s.i], by simp [hlen], ?_⟩
    rw [← hlen]
    exact hholds.put _
  · generalize unicodeToUTF_8 (cp.MultiByteToWideChar (pText s.i) (pText (s.i + 1))) = buf
    have h3 := ((hholds.put buf.1).put buf.2.1).put buf.2.2
    simp only [List.length_append, List.length_singleton, hlen] at h3
    exact ⟨_, by simp [hlen], h3⟩

theorem DecodeRun.Filled.turn {cp : CodePage} {pText : ℕ → Byte} {n : ℕ} {s : DecodeRun} (h : s.Filled n) :
    (decodeTurn cp pText s).Filled n := by
  obtain ⟨out, hlen, hholds⟩ := h
  unfold decodeTurn
  split
  · refine ⟨out ++ [pText s.i], by simp [hlen], ?_⟩
    rw [← hlen]
    exact hholds.put _
  · dsimp only
    generalize writeChar s.Ctemp _ = Ctemp
    have h2 := (hholds.put Ctemp.1).put Ctemp.2
    simp only [List.length_append, List.length_singleton, hlen] at h2
    exact ⟨_, by simp [hlen], h2⟩

theorem encodeInside_iff (cp : CodePage) (pText : ℕ → Byte) (pLen : ℕ) :
    EncodeInside cp pText pLen ↔ ∃ c, charCounts copiedToUTF_8 2 pText 0 pLen 0 = some c ∧ 2 * c.2 ≤ c.1 + 4 := by
  have hscans := encodeTurn_scans cp pText
  have hreads : ∀ s, encodeTurnReads pText s = List.range' s.i (if copiedToUTF_8 (pText s.i) then 1 else 2) := by
    intro s
    unfold encodeTurnReads
    split <;> rfl
  have hfilled := whileFuel_inv (fun s => decide (s.i < pLen)) (encodeTurn cp pText)
    (EncodeRun.Filled (pLen + pLen / 4 + 2)) (fun s h _ => h.turn) pLen ⟨0, 0, ⟨_, fun _ => 0, true⟩⟩
    ⟨[], rfl, Buf.Holds.new _ _⟩
  refine (hscans.inside_iff (by decide) (fun _ => rfl) hreads rfl rfl hfilled).trans ?_
  refine exists_congr fun c => and_congr_right fun hc => ?_
  have hsum := charCounts_sum (by decide) 0 pLen 0 hc
  omega

theorem decodeInside_iff (cp : CodePage) (old : ℕ → Byte) (pText : ℕ → Byte) (pLen : ℕ) :
    DecodeInside cp old pText pLen ↔ ∃ c, charCounts copiedToGB2312 3 pText 0 pLen 0 = some c ∧ 1 ≤ c.2 := by
  have hscans := decodeTurn_scans cp pText
  have hreads : ∀ s, decodeTurnReads pText s = List.range' s.i (if copiedToGB2312 (pText s.i) then 1 else 3) := by
    intro s
    unfold decodeTurnReads
    split <;> rfl
  have hfilled := whileFuel_inv (fun s => decide (s.i < pLen)) (decodeTurn cp pText)
    (DecodeRun.Filled pLen) (fun s h _ => h.turn) pLen ⟨0, 0, (0, 0), ⟨_, old, true⟩⟩ ⟨[], rfl, Buf.Holds.new _ _⟩
  refine (hscans.inside_iff (by decide) (fun _ => rfl) hreads rfl rfl hfilled).trans ?_
  refine exists_congr fun c => and_congr_right fun hc => ?_
  have hsum := charCounts_sum (by decide) 0 pLen 0 hc
  omega

/-- Both conversions stay inside their buffers and their input if and only if the input ends with a whole character
and, for the first, there are at most two characters of two bytes more than half of those of one; for the second,
there is a character of three bytes. -/
theorem conversions_inside_iff (cp : CodePage) (old : ℕ → Byte) (pText : ℕ → Byte) (pLen : ℕ) :
    (EncodeInside cp pText pLen ↔ ∃ c, charCounts copiedToUTF_8 2 pText 0 pLen 0 = some c ∧ 2 * c.2 ≤ c.1 + 4) ∧
      (DecodeInside cp old pText pLen ↔ ∃ c, charCounts copiedToGB2312 3 pText 0 pLen 0 = some c ∧ 1 ≤ c.2) :=
  ⟨encodeInside_iff cp pText pLen, decodeInside_iff cp old pText pLen⟩

/-- The text `A`: the terminator of the second conversion is written behind the one byte that it has allocated. -/
theorem terminator_outside :
    ¬ ∀ (cp : CodePage) (old : ℕ → Byte) (pText : ℕ → Byte) (pLen : ℕ),
      EncodeInside cp pText pLen ∧ DecodeInside cp old pText pLen := by
  intro h
  have hinside := (h samplePage (fun _ => 0) (fun _ => 0x41) 1).2.1
  revert hinside
  decide

end StarLib.ChineseCodeLib
