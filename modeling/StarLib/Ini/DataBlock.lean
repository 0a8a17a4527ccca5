import StarLib.Ini.Profile

/-! # `CIni::WriteDataBlock`, `AppendDataBlock` and `GetDataBlock`

A block is written as two hexadecimal digits for each byte. The loop that writes the digits is also what ends the
string: for an empty block the file gets whatever was in memory.
-/

namespace StarLib.Ini
open Foundations
set_option autoImplicit false
set_option maxHeartbeats 250000
set_option maxRecDepth 120000

/-! ## Digits -/

def hexDigit (n : ℕ) : TCHAR := if n < 10 then 0x30 + n else 0x37 + n

/-- `%02X` -/
def hexPair (b : Byte) : CString := [hexDigit (b.toNat / 16), hexDigit (b.toNat % 16)]

def hexOf (lpData : List Byte) : CString := lpData.flatMap hexPair

def isHexDigit (c : TCHAR) : Bool :=
  decide (0x30 ≤ c ∧ c ≤ 0x39) || decide (0x61 ≤ c ∧ c ≤ 0x66) || decide (0x41 ≤ c ∧ c ≤ 0x46)

def hexValue (c : TCHAR) : ℕ := if c ≤ 0x39 then c - 0x30 else if c ≤ 0x46 then c - 0x37 else c - 0x57

/-- `BYTE(_tcstoul(sz, NULL, 16))`, of digits. -/
def byteOf (sz : CString) : Byte := BitVec.ofNat 8 (sz.foldl (fun v c => 16 * v + hexValue c) 0)

theorem hexPair_facts (b : Byte) : (hexPair b).all isHexDigit = true ∧ byteOf (hexPair b) = b := by
  have h : ∀ b : Byte, (hexPair b).all isHexDigit = true ∧ byteOf (hexPair b) = b := by decide
  exact h b

theorem hexOf_cons (b : Byte) (l : List Byte) : hexOf (b :: l) = hexPair b ++ hexOf l := rfl

theorem hexOf_append (l l' : List Byte) : hexOf (l ++ l') = hexOf l ++ hexOf l' := List.flatMap_append

theorem hexOf_length (l : List Byte) : (hexOf l).length = 2 * l.length := by
  induction l with
  | nil => rfl
  | cons b l ih =>
    rw [hexOf_cons, List.length_append, ih, List.length_cons]
    show 2 + 2 * l.length = _
    omega

theorem hexOf_all (l : List Byte) : (hexOf l).all isHexDigit = true := by
  induction l with
  | nil => rfl
  | cons b l ih => rw [hexOf_cons, List.all_append, ih, (hexPair_facts b).1, Bool.true_and]

theorem hexOf_plain (l : List Byte) : ∀ c ∈ hexOf l, c ≠ 0 := by
  intro c hc hzero
  have hdigit := List.all_eq_true.1 (hexOf_all l) c hc
  rw [hzero] at hdigit
  exact absurd hdigit (by decide)

theorem hexOf_drop (l : List Byte) (k : ℕ) : (hexOf l).drop (2 * k) = hexOf (l.drop k) := by
  induction k generalizing l with
  | zero => rfl
  | succ k ih =>
    cases l with
    | nil => simp [hexOf]
    | cons b l =>
      have hdrop : (hexPair b ++ hexOf l).drop (2 * (k + 1)) = (hexOf l).drop (2 * k) := by
        rw [Nat.mul_succ, Nat.add_comm, ← List.drop_drop]
        rfl
      rw [hexOf_cons, hdrop, ih, List.drop_succ_cons]

/-! ## Writing -/

/-- `_stprintf(&psz[j], _T("%02X"), b)`, or `_stprintf_s` with a size. -/
def sprintfHex (build : Build) (psz : Buf TCHAR) (j size : ℕ) (b : Byte) : Option (Buf TCHAR) :=
  if build = .secure ∧ size < 3 then none
  else some (((psz.put j (hexDigit (b.toNat / 16))).put (j + 1) (hexDigit (b.toNat % 16))).put (j + 2) 0)

structure HexRun where
  j : ℕ
  psz : Buf TCHAR

def hexTurn (build : Build) (size : ℕ) (lpb : List Byte) (i : ℕ) (s : Option HexRun) : Option HexRun :=
  s.bind fun s => (sprintfHex build s.psz s.j size (lpb.getD i 0)).map fun psz => ⟨dword (s.j + 2), psz⟩

/-- The string of digits that `WriteDataBlock` and `AppendDataBlock` pass on, its buffer over `old`. -/
def hexString (build : Build) (old : CString) (lpb : List Byte) : Option CString :=
  let size := dword (lpb.length * 2 + 1)
  match forRange 0 lpb.length (hexTurn build size lpb) (some ⟨0, newBuffer size old⟩) with
  | none => none
  | some s => if s.psz.inside then some (s.psz.readStr old.length) else none

/-- `CIni::WriteDataBlock`. -/
def writeDataBlock (build : Build) (old : CString) (f : Profile) (lpSection lpKey : Option CString)
    (lpData : Option (List Byte)) : Option (Bool × Profile) :=
  match lpData with
  | none => some (false, f)
  | some lpb => (hexString build old lpb).map fun psz => writeString f lpSection lpKey (some psz)

/-- `CIni::AppendDataBlock`. -/
def appendDataBlock (build : Build) (old : CString) (fuel : ℕ) (f : Profile) (lpSection lpKey : Option CString)
    (lpData : Option (List Byte)) : Option (Bool × Profile) :=
  match lpData with
  | none => some (false, f)
  | some lpb => (hexString build old lpb).bind fun psz => appendString fuel f lpSection lpKey (some psz)

/-! ## Reading -/

/-- `_tcsncpy(sz, p, 2)` and the conversion, for the pair of digits at `p`. -/
def readPair (p : CString) : Byte := byteOf (p.take 2)

/-- `CIni::GetDataBlock`: the result, and the buffer afterwards. -/
def getDataBlock (fuel : ℕ) (f : Profile) (lpSection lpKey : Option CString) (lpBuffer : Option (Buf Byte))
    (dwBufSize dwOffset : ℕ) : Option (ℕ × Option (Buf Byte)) :=
  match getStringDynamic fuel f lpSection lpKey none with
  | none => none
  | some psz =>
    let dwLen := psz.length / 2
    if dwLen ≤ dwOffset then some (0, lpBuffer)
    else if psz.all isHexDigit then
      match lpBuffer with
      | some lpb =>
        let dwProcLen := min (dwLen - dwOffset) dwBufSize
        let p := psz.drop (dword (dwOffset * 2))
        some (dwProcLen, some (forRange 0 dwProcLen (fun i lpb => lpb.put i (readPair (p.drop (2 * i)))) lpb))
      | none => some (dwLen - dwOffset, none)
    else some (0, lpBuffer)

/-! ## The string of a block -/

theorem put_inside {α : Type*} (b : Buf α) (i : ℕ) (v : α) :
    (b.put i v).inside = true → b.inside = true ∧ i < b.len := by
  intro h
  have hand : (b.inside && decide (i < b.len)) = true := h
  rwa [Bool.and_eq_true, decide_eq_true_iff] at hand

/-- A turn writes the pair of digits over the terminator of the pair before. -/
theorem sprintfHex_holds (build : Build) {b : Buf TCHAR} {n : ℕ} {l r : CString} (hb : b.Holds n (l ++ r))
    (hr : (l ++ r).length ≤ n) (hn : l.length + 3 ≤ n) (x : Byte) :
    ∃ b', sprintfHex build b l.length n x = some b' ∧ b'.Holds n (l ++ hexPair x ++ [0]) := by
  have h3 := (((hb.start hr).put (hexDigit (x.toNat / 16))).put (hexDigit (x.toNat % 16))).put 0
  simp only [List.length_append, List.length_singleton] at h3
  refine ⟨_, if_neg fun h => ?_, by simpa [hexPair, List.append_assoc] using h3⟩
  have := h.2
  omega

theorem hexString_nonempty (build : Build) (old : CString) {lpb : List Byte} (hne : lpb ≠ [])
    (hlength : lpb.length < 2 ^ 31) : hexString build old lpb = some (hexOf lpb) := by
  have hpos : 0 < lpb.length := List.length_pos_iff.2 hne
  have hsize : dword (lpb.length * 2 + 1) = 2 * lpb.length + 1 := by
    rw [dword_of_lt (by omega)]
    omega
  have hloop := forRange_inv (f := hexTurn build (2 * lpb.length + 1) lpb)
    (s := some ⟨0, newBuffer (2 * lpb.length + 1) old⟩)
    (fun i s => ∃ b r, s = some ⟨2 * i, b⟩ ∧ b.Holds (2 * lpb.length + 1) (hexOf (lpb.take i) ++ r) ∧
      r.length ≤ 1 ∧ (0 < i → r = [0])) (Nat.zero_le lpb.length) ?_ ?_
  · obtain ⟨b, r, hs, hb, -, hr⟩ := hloop
    rw [hr hpos, List.take_length] at hb
    have hin : (hexOf lpb ++ [0]).length ≤ 2 * lpb.length + 1 := by
      rw [List.length_append, hexOf_length, List.length_singleton]
    unfold hexString
    simp only
    rw [hsize, hs]
    simp only
    rw [hb.inside, if_pos (decide_eq_true hin), hb.readStr (by rw [hexOf_length]; omega) (hexOf_plain lpb)]
  · exact ⟨_, [], rfl, Buf.Holds.new _ _, Nat.zero_le 1, fun h => absurd h (Nat.lt_irrefl 0)⟩
  · rintro i s - hi ⟨b, r, rfl, hb, hr, -⟩
    have hwritten : (hexOf (lpb.take i)).length = 2 * i := by
      rw [hexOf_length, List.length_take]
      omega
    have htake : lpb.take (i + 1) = lpb.take i ++ [lpb.getD i 0] := by
      rw [List.take_add_one, List.getD_eq_getElem?_getD, List.getElem?_eq_getElem hi]
      rfl
    obtain ⟨b', hb', hholds⟩ := sprintfHex_holds build hb (by rw [List.length_append, hwritten]; omega)
      (by rw [hwritten]; omega) (lpb.getD i 0)
    rw [hwritten] at hb'
    refine ⟨b', [0], ?_, ?_, Nat.le_refl 1, fun _ => rfl⟩
    · show (sprintfHex build b (2 * i) (2 * lpb.length + 1) (lpb.getD i 0)).map
        (fun psz => (⟨dword (2 * i + 2), psz⟩ : HexRun)) = _
      rw [hb', dword_of_lt (by omega)]
      rfl
    · rw [htake, hexOf_append]
      simpa [hexOf] using hholds

theorem hexString_empty (build : Build) (old : CString) : hexString build old [] = some (old.takeWhile (· ≠ 0)) := by
  have hcells : (List.range (max 1 old.length)).map (fun i => old.getD i 0) =
      old ++ List.replicate (max 1 old.length - old.length) 0 := by
    apply List.ext_getElem?
    intro i
    by_cases hi : i < old.length
    · have hlt : i < max 1 old.length := by omega
      rw [List.getElem?_append_left hi, List.getElem?_map, List.getElem?_range hlt]
      simp [hi]
    · rw [List.getElem?_append_right (Nat.not_lt.1 hi), List.getElem?_map, List.getElem?_replicate]
      by_cases hlt : i < max 1 old.length
      · rw [List.getElem?_range hlt, if_pos (by omega)]
        simp [hi]
      · rw [List.getElem?_eq_none (by simp; omega), if_neg (by omega)]
        rfl
  have hread : (newBuffer 1 old).readStr old.length = old.takeWhile (· ≠ 0) := by
    show (((List.range (max 1 old.length)).map fun i => old.getD i 0).takeWhile (· ≠ 0)) = _
    rw [hcells]
    rcases Nat.eq_zero_or_pos (max 1 old.length - old.length) with hzero | hpos
    · rw [hzero, List.replicate_zero, List.append_nil]
    · obtain ⟨m, hm⟩ : ∃ m, max 1 old.length - old.length = m + 1 := ⟨_, (Nat.succ_pred_eq_of_pos hpos).symm⟩
      rw [hm, List.replicate_succ, takeWhile_stop old _ (by simp)]
  exact congrArg some hread

/-- `j` wraps at `2 ^ 32`, the size of the buffer before that. -/
theorem hexString_large (build : Build) (old : CString) {lpb : List Byte} (hlength : 2 ^ 31 ≤ lpb.length) :
    hexString build old lpb = none := by
  have hsize := dword_lt (lpb.length * 2 + 1)
  unfold hexString
  simp only
  revert hsize
  generalize dword (lpb.length * 2 + 1) = size
  intro hsize
  have hloop := forRange_inv (f := hexTurn build size lpb) (s := some ⟨0, newBuffer size old⟩)
    (fun i s => ∀ run, s = some run → run.j = dword (2 * i) ∧ run.psz.len = size ∧
      (run.psz.inside = true → ∀ t < i, dword (2 * t) + 2 < size)) (Nat.zero_le lpb.length) ?_ ?_
  · generalize forRange 0 lpb.length (hexTurn build size lpb) (some ⟨0, newBuffer size old⟩) = s at hloop
    cases s with
    | none => rfl
    | some run =>
      have hinside : run.psz.inside ≠ true := by
        intro hinside
        have hmiddle := (hloop run rfl).2.2 hinside (2 ^ 31 - 1) (by omega)
        have hj : dword (2 * (2 ^ 31 - 1)) = 2 ^ 32 - 2 := by decide
        omega
      exact if_neg hinside
  · rintro run h
    rw [← Option.some.inj h]
    exact ⟨rfl, rfl, fun _ t ht => absurd ht (Nat.not_lt_zero t)⟩
  · intro i s _ _ hs run hrun
    cases s with
    | none => exact absurd hrun nofun
    | some before =>
      obtain ⟨hj, hlen, hin⟩ := hs before rfl
      have hturn : (sprintfHex build before.psz before.j size (lpb.getD i 0)).map
          (fun psz => (⟨dword (before.j + 2), psz⟩ : HexRun)) = some run := hrun
      unfold sprintfHex at hturn
      split at hturn
      · exact absurd hturn nofun
      · rw [← Option.some.inj hturn]
        refine ⟨?_, hlen, fun hinside t ht => ?_⟩
        · show dword (before.j + 2) = _
          rw [hj]
          unfold dword
          omega
        · obtain ⟨h2, hlast⟩ := put_inside _ _ _ hinside
          have hlast' : before.j + 2 < size := hlen ▸ hlast
          have h0 := (put_inside _ _ _ (put_inside _ _ _ h2).1).1
          rcases Nat.lt_succ_iff_lt_or_eq.1 ht with ht | rfl
          · exact hin h0 t ht
          · rw [← hj]
            exact hlast'

/-- What is written for a block. -/
def blockText (old : CString) (lpb : List Byte) : CString := if lpb = [] then old.takeWhile (· ≠ 0) else hexOf lpb

theorem hexString_eq (build : Build) (old : CString) (lpb : List Byte) :
    hexString build old lpb = if lpb.length < 2 ^ 31 then some (blockText old lpb) else none := by
  unfold blockText
  by_cases hlength : lpb.length < 2 ^ 31
  · rw [if_pos hlength]
    by_cases hne : lpb = []
    · rw [if_pos hne, hne]
      exact hexString_empty build old
    · rw [if_neg hne]
      exact hexString_nonempty build old hne hlength
  · rw [if_neg hlength]
    exact hexString_large build old (Nat.not_lt.1 hlength)

end StarLib.Ini
