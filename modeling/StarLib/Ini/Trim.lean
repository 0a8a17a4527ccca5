import Mathlib.Data.List.DropRight
import StarLib.Foundations.Accesses
import StarLib.Ini.Split

/-! # `CIni::__TrimString` in memory

The string begins at index 0 of a memory that also has negative indices. The loop over the right side tests the
character before the last one that is left even when nothing is left, and the secure copy of the rest is given a
size without room for the terminator.
-/

namespace StarLib.Ini
open Foundations
set_option autoImplicit false
set_option maxHeartbeats 250000
set_option maxRecDepth 120000

/-- The string without the blanks at its ends. -/
def blankTrim (s : CString) : CString := (s.rdropWhile isBlank).dropWhile isBlank

/-! ## What `trimString` leaves -/

theorem trimRight_append (l r : CString) {n : ℕ} (h : n ≤ l.length) : trimRight (l ++ r) n = trimRight l n := by
  induction n with
  | zero => rfl
  | succ n ih =>
    unfold trimRight
    rw [ih (by omega), List.getD_append _ _ _ _ (by omega)]

theorem trimRight_eq (s : CString) :
    trimRight s s.length = if s.rdropWhile isBlank = [] then none else some (s.rdropWhile isBlank).length := by
  induction s using List.reverseRecOn with
  | nil => rfl
  | append_singleton l c ih =>
    have hlast : (l ++ [c]).getD l.length 0 = c := by
      rw [List.getD_append_right _ _ _ _ (Nat.le_refl _), Nat.sub_self]
      rfl
    rw [List.length_append, List.length_singleton]
    unfold trimRight
    rw [hlast]
    by_cases hc : isBlank c = true
    · rw [if_pos hc, List.rdropWhile_concat_pos _ _ _ hc, trimRight_append l [c] (Nat.le_refl _), ih]
    · have hne : l ++ [c] ≠ [] := List.append_ne_nil_of_right_ne_nil _ (List.cons_ne_nil _ _)
      rw [if_neg hc, List.rdropWhile_concat_neg _ _ _ hc, if_neg hne, List.length_append, List.length_singleton]

/-- A character that is no blank stays. -/
theorem rdropWhile_eq_nil_iff (s : CString) : s.rdropWhile isBlank = [] ↔ blankTrim s = [] := by
  unfold blankTrim
  constructor
  · intro h
    rw [h]
    rfl
  · intro h
    rw [List.dropWhile_eq_nil_iff] at h
    by_contra hne
    have hlast := List.rdropWhile_last_not isBlank s hne
    exact hlast (h _ (List.getLast_mem hne))

theorem take_rdropWhile (s : CString) : s.take (s.rdropWhile isBlank).length = s.rdropWhile isBlank :=
  (List.prefix_iff_eq_take.1 (List.rdropWhile_prefix isBlank s)).symm

/-- The plain build trims every string that has a character to keep. -/
theorem trimString_plain {s : CString} (hlength : s.length < 2 ^ 31) :
    trimString .plain s = if blankTrim s = [] then none else some (blankTrim s) := by
  unfold trimString
  rw [dword_of_lt (by omega)]
  simp only [if_pos hlength]
  rw [trimRight_eq]
  by_cases h : s.rdropWhile isBlank = []
  · rw [if_pos h, if_pos ((rdropWhile_eq_nil_iff s).1 h)]
    rfl
  · rw [if_neg h, if_neg fun hnil => h ((rdropWhile_eq_nil_iff s).2 hnil), Option.bind_some, take_rdropWhile]
    rw [if_neg fun hsecure => absurd hsecure.1 nofun]
    rfl

/-! ## The loops in memory -/

/-- `_tcslen` and the characters: the string at index `p`. -/
def HasText (m : ℤ → TCHAR) (p : ℤ) : CString → Prop
  | [] => m p = 0
  | c :: s => m p = c ∧ c ≠ 0 ∧ HasText m (p + 1) s

/-- The string at index `p`, of at most `n` characters. -/
def textAt (m : ℤ → TCHAR) : ℕ → ℤ → CString
  | 0, _ => []
  | n + 1, p => if m p = 0 then [] else m p :: textAt m n (p + 1)

structure RightRun where
  lpString : ℤ → TCHAR
  nLen : ℤ

def rightMore (s : RightRun) : Bool := decide (0 ≤ s.nLen) && isBlank (s.lpString (s.nLen - 1))

def rightTurn (s : RightRun) : RightRun := ⟨Function.update s.lpString (s.nLen - 1) 0, s.nLen - 1⟩

def rightReads (s : RightRun) : List ℤ := if 0 ≤ s.nLen then [s.nLen - 1] else []

def leftMore (lpString : ℤ → TCHAR) (p : ℤ) : Bool := isBlank (lpString p)

def leftTurn (p : ℤ) : ℤ := p + 1

/-- `_tcscpy_s` does not fail: the terminator has room, too. -/
def tcscpy_s_fits (sizeInWords : ℕ) (src : CString) : Bool := decide (src.length < sizeInWords)

/-- `CIni::__TrimString` on a string of `length` characters: the indices that it reads and writes, and the memory
afterwards. -/
def trimStringAt (build : Build) (lpString : ℤ → TCHAR) (length : ℕ) : Option (List ℤ × (ℤ → TCHAR)) :=
  let measured := (List.range (length + 1)).map fun i : ℕ => (i : ℤ)
  let start : RightRun := ⟨lpString, (BitVec.ofNat 32 length).toInt⟩
  let right := whileFuel rightMore rightTurn (length + 1) start
  let tests := (whileTests rightMore rightTurn (length + 1) start).flatMap rightReads
  let cuts := (whileTurns rightMore rightTurn (length + 1) start).map fun s => s.nLen - 1
  let skipped := whileTests (leftMore right.lpString) leftTurn (length + 1) 0
  let p := whileFuel (leftMore right.lpString) leftTurn (length + 1) 0
  let scans := measured ++ tests ++ cuts ++ skipped
  if p = 0 then some (scans, right.lpString)
  else
    let psz := textAt right.lpString (length + 1) p
    if build = .secure ∧ tcscpy_s_fits psz.length psz = false then none
    else
      let copied := (List.range (psz.length + 1)).map fun i : ℕ => (i : ℤ)
      some (scans ++ copied.map (p + ·) ++ copied,
        fun i => if 0 ≤ i ∧ i ≤ psz.length then psz.getD i.toNat 0 else right.lpString i)

/-- All accesses are in the string or at its terminator, and what is left is the trimmed string. -/
def TrimOk (build : Build) (m : ℤ → TCHAR) (s : CString) : Prop :=
  ∃ r, trimStringAt build m s.length = some r ∧ (∀ i ∈ r.1, 0 ≤ i ∧ i ≤ s.length) ∧ HasText r.2 0 (blankTrim s)

/-! ## Strings in memory -/

theorem hasText_iff {m : ℤ → TCHAR} {p : ℤ} {s : CString} :
    HasText m p s ↔ (∀ i < s.length, m (p + i) = s.getD i 0) ∧ m (p + s.length) = 0 ∧ ∀ c ∈ s, c ≠ 0 := by
  induction s generalizing p with
  | nil => simp [HasText]
  | cons c s ih =>
    have hnext : ∀ i : ℕ, p + 1 + i = p + (i + 1 : ℕ) := fun i => by omega
    unfold HasText
    rw [ih, List.forall_mem_cons, List.length_cons]
    simp only [hnext]
    constructor
    · rintro ⟨hfirst, hc, hcells, hend, hplain⟩
      refine ⟨fun i hi => ?_, hend, hc, hplain⟩
      cases i with
      | zero => simpa using hfirst
      | succ i => exact hcells i (by omega)
    · rintro ⟨hcells, hend, hc, hplain⟩
      refine ⟨?_, hc, fun i hi => hcells (i + 1) (by omega), hend, hplain⟩
      simpa using hcells 0 (by omega)

theorem HasText.textAt {m : ℤ → TCHAR} {p : ℤ} {s : CString} (h : HasText m p s) {n : ℕ} (hn : s.length < n) :
    textAt m n p = s := by
  induction s generalizing p n with
  | nil =>
    obtain ⟨n, rfl⟩ : ∃ k, n = k + 1 := ⟨n - 1, by omega⟩
    exact if_pos h
  | cons c s ih =>
    rw [List.length_cons] at hn
    obtain ⟨n, rfl⟩ : ∃ k, n = k + 1 := ⟨n - 1, by omega⟩
    obtain ⟨hfirst, hc, hrest⟩ := h
    unfold Ini.textAt
    rw [hfirst, if_neg hc, ih hrest (by omega)]

theorem HasText.unique {m : ℤ → TCHAR} {p : ℤ} {s t : CString} (hs : HasText m p s) (ht : HasText m p t) : s = t := by
  have h := hs.textAt (n := s.length + t.length + 1) (by omega)
  rw [ht.textAt (by omega)] at h
  exact h.symm

/-! ## The two scans -/

/-- The loop over the right side keeps `k` characters, or tests the character before the string. -/
theorem right_loop (s : CString) (n : ℕ) {fuel : ℕ} (hfuel : n < fuel) {m : ℤ → TCHAR}
    (hm : ∀ i < n, m (i : ℤ) = s.getD i 0) :
    (∀ k, trimRight s n = some k →
      (∀ i : ℤ, (whileFuel rightMore rightTurn fuel ⟨m, n⟩).lpString i = if k ≤ i ∧ i < n then 0 else m i) ∧
        ∀ t ∈ whileTests rightMore rightTurn fuel ⟨m, n⟩, 1 ≤ t.nLen ∧ t.nLen ≤ n) ∧
      (trimRight s n = none → ∃ t ∈ whileTests rightMore rightTurn fuel ⟨m, n⟩, t.nLen = 0) := by
  induction n generalizing fuel m with
  | zero =>
    refine ⟨fun k hk => ?_, fun _ => ⟨_, start_tested _ _ _ _, rfl⟩⟩
    cases hk
  | succ n ih =>
    obtain ⟨fuel, rfl⟩ : ∃ j, fuel = j + 1 := ⟨fuel - 1, by omega⟩
    have hindex : ((n + 1 : ℕ) : ℤ) - 1 = n := by omega
    have hmore : rightMore ⟨m, ((n + 1 : ℕ) : ℤ)⟩ = isBlank (s.getD n 0) := by
      unfold rightMore
      dsimp only
      rw [hindex, hm n (Nat.lt_succ_self n), decide_eq_true (by omega), Bool.true_and]
    unfold trimRight
    by_cases hb : isBlank (s.getD n 0) = true
    · have hturn : rightTurn ⟨m, ((n + 1 : ℕ) : ℤ)⟩ = ⟨Function.update m n 0, n⟩ := by
        unfold rightTurn
        dsimp only
        rw [hindex]
      have hcells : ∀ i < n, Function.update m (n : ℤ) 0 (i : ℤ) = s.getD i 0 := by
        intro i hi
        rw [Function.update_of_ne (by omega)]
        exact hm i (by omega)
      obtain ⟨hkept, hnone⟩ := ih (show n < fuel by omega) hcells
      rw [if_pos hb, whileFuel_succ (hmore.trans hb), whileTests_succ (hmore.trans hb), hturn]
      refine ⟨fun k hk => ?_, fun hk => ?_⟩
      · obtain ⟨hmem, htests⟩ := hkept k hk
        have hle := (trimRight_some hk).2.1
        refine ⟨fun i => ?_, ?_⟩
        · rw [hmem, Function.update_apply]
          split_ifs <;> first | rfl | omega
        · rw [List.forall_mem_cons]
          refine ⟨?_, fun t ht => ?_⟩
          · dsimp only
            omega
          · have ht' := htests t ht
            omega
      · obtain ⟨t, ht, hzero⟩ := hnone hk
        exact ⟨t, List.mem_cons_of_mem _ ht, hzero⟩
    · have hstop : rightMore ⟨m, ((n + 1 : ℕ) : ℤ)⟩ = false := hmore.trans (Bool.eq_false_of_not_eq_true hb)
      rw [if_neg hb, whileFuel_done hstop, whileTests_done hstop]
      refine ⟨fun k hk => ?_, fun hk => by cases hk⟩
      obtain rfl := Option.some.inj hk
      refine ⟨fun i => (if_neg (by omega)).symm, fun t ht => ?_⟩
      rw [List.mem_singleton.1 ht]
      dsimp only
      omega

/-- The loop over the left side stops at the first character that is no blank, or at the terminator. -/
theorem left_loop {m : ℤ → TCHAR} {p : ℤ} {s : CString} (h : HasText m p s) {fuel : ℕ} (hfuel : s.length < fuel) :
    whileFuel (leftMore m) leftTurn fuel p = p + (s.takeWhile isBlank).length ∧
      HasText m (p + (s.takeWhile isBlank).length) (s.dropWhile isBlank) ∧
      ∀ t ∈ whileTests (leftMore m) leftTurn fuel p, p ≤ t ∧ t ≤ p + s.length := by
  induction s generalizing p fuel with
  | nil =>
    have hstop : leftMore m p = false := by
      have hzero : m p = 0 := h
      show isBlank (m p) = false
      rw [hzero]
      rfl
    rw [whileFuel_done hstop, whileTests_done hstop]
    refine ⟨by simp, by simpa using h, fun t ht => ?_⟩
    rw [List.mem_singleton.1 ht]
    simp
  | cons c s ih =>
    rw [List.length_cons] at hfuel ⊢
    obtain ⟨fuel, rfl⟩ : ∃ j, fuel = j + 1 := ⟨fuel - 1, by omega⟩
    obtain ⟨hfirst, hc, hrest⟩ := h
    by_cases hb : isBlank c = true
    · have hmore : leftMore m p = true := by
        show isBlank (m p) = true
        rw [hfirst, hb]
      obtain ⟨hend, htext, htests⟩ := ih hrest (show s.length < fuel by omega)
      have hlead : p + 1 + ((s.takeWhile isBlank).length : ℤ) = p + ((c :: s.takeWhile isBlank).length : ℤ) := by
        rw [List.length_cons]
        omega
      rw [whileFuel_succ hmore, whileTests_succ hmore, List.takeWhile_cons_of_pos hb, List.dropWhile_cons_of_pos hb,
        ← hlead]
      refine ⟨hend, htext, ?_⟩
      rw [List.forall_mem_cons]
      refine ⟨by omega, fun t ht => ?_⟩
      have ht' := htests t ht
      omega
    · have hstop : leftMore m p = false := by
        show isBlank (m p) = false
        rw [hfirst]
        exact Bool.eq_false_of_not_eq_true hb
      rw [whileFuel_done hstop, whileTests_done hstop, List.takeWhile_cons_of_neg hb, List.dropWhile_cons_of_neg hb]
      refine ⟨by simp, by simpa using ⟨hfirst, hc, hrest⟩, fun t ht => ?_⟩
      rw [List.mem_singleton.1 ht]
      omega

/-! ## The whole function -/

def startOf (m : ℤ → TCHAR) (length : ℕ) : RightRun := ⟨m, (BitVec.ofNat 32 length).toInt⟩

/-- The tests of the loop over the right side read characters of the string only. -/
def RightInside (m : ℤ → TCHAR) (length : ℕ) : Prop :=
  ∀ t ∈ whileTests rightMore rightTurn (length + 1) (startOf m length), 0 ≤ t.nLen → 1 ≤ t.nLen ∧ t.nLen ≤ length

/-- The tests of the loop over the right side are among the accesses. -/
theorem right_accesses {build : Build} {m : ℤ → TCHAR} {length : ℕ} {r : List ℤ × (ℤ → TCHAR)}
    (h : trimStringAt build m length = some r) {i : ℤ}
    (hi : i ∈ (whileTests rightMore rightTurn (length + 1) (startOf m length)).flatMap rightReads) : i ∈ r.1 := by
  unfold trimStringAt at h
  dsimp only at h
  split at h
  · rw [← Option.some.inj h]
    simp only [List.mem_append]
    exact Or.inl (Or.inl (Or.inr hi))
  · split at h
    · cases h
    · rw [← Option.some.inj h]
      simp only [List.mem_append]
      exact Or.inl (Or.inl (Or.inl (Or.inl (Or.inr hi))))

theorem mem_indices {n : ℕ} {i : ℤ} (h : i ∈ (List.range (n + 1)).map fun i : ℕ => (i : ℤ)) : 0 ≤ i ∧ i ≤ n := by
  obtain ⟨j, hj, rfl⟩ := List.mem_map.1 h
  have hlt := List.mem_range.1 hj
  omega

section Whole
variable {m : ℤ → TCHAR} {length : ℕ} {u : CString}

/-- The accesses of both scans, when the loop over the right side has left `u`. -/
theorem scans_inside (hu : u.length ≤ length)
    (htext : HasText (whileFuel rightMore rightTurn (length + 1) (startOf m length)).lpString 0 u)
    (htests : RightInside m length) {i : ℤ}
    (hi : i ∈ ((List.range (length + 1)).map fun i : ℕ => (i : ℤ)) ++
      (whileTests rightMore rightTurn (length + 1) (startOf m length)).flatMap rightReads ++
      ((whileTurns rightMore rightTurn (length + 1) (startOf m length)).map fun s => s.nLen - 1) ++
      whileTests (leftMore (whileFuel rightMore rightTurn (length + 1) (startOf m length)).lpString) leftTurn
        (length + 1) 0) :
    0 ≤ i ∧ i ≤ length := by
  rw [List.mem_append, List.mem_append, List.mem_append] at hi
  rcases hi with ((hi | hi) | hi) | hi
  · exact mem_indices hi
  · obtain ⟨t, ht, hread⟩ := List.mem_flatMap.1 hi
    unfold rightReads at hread
    split at hread
    · next hpos =>
      have ht' := htests t ht hpos
      rw [List.mem_singleton] at hread
      omega
    · exact absurd hread List.not_mem_nil
  · obtain ⟨t, ht, rfl⟩ := List.mem_map.1 hi
    have hpos : 0 ≤ t.nLen := by
      refine whileTurns_forall (Q := fun s => 0 ≤ s.nLen) (fun _ => True) (fun _ _ _ => trivial) (fun s _ hs => ?_)
        (length + 1) trivial t ht
      exact of_decide_eq_true (Bool.and_eq_true_iff.1 hs).1
    have ht' := htests t (List.mem_append_left _ ht) hpos
    omega
  · have hbound := (left_loop htext (show u.length < length + 1 by omega)).2.2 i hi
    omega

/-- What happens after the loop over the right side: the rest is copied over the leading blanks, if there are any. -/
theorem trimStringAt_left (build : Build) (hu : u.length ≤ length)
    (htext : HasText (whileFuel rightMore rightTurn (length + 1) (startOf m length)).lpString 0 u)
    (htests : RightInside m length) :
    if build = .secure ∧ u.takeWhile isBlank ≠ [] then trimStringAt build m length = none
    else ∃ r, trimStringAt build m length = some r ∧ (∀ i ∈ r.1, 0 ≤ i ∧ i ≤ length) ∧
      HasText r.2 0 (u.dropWhile isBlank) := by
  have hscans := fun i => scans_inside hu htext htests (i := i)
  obtain ⟨hp, hrest, -⟩ := left_loop htext (show u.length < length + 1 by omega)
  rw [Int.zero_add] at hp hrest
  have hsplit : (u.takeWhile isBlank).length + (u.dropWhile isBlank).length = u.length := by
    rw [← List.length_append, List.takeWhile_append_dropWhile]
  have hpsz := hrest.textAt (n := length + 1) (by omega)
  have hfits : tcscpy_s_fits (u.dropWhile isBlank).length (u.dropWhile isBlank) = false :=
    decide_eq_false (Nat.lt_irrefl _)
  unfold trimStringAt
  dsimp only
  rw [show (⟨m, (BitVec.ofNat 32 length).toInt⟩ : RightRun) = startOf m length from rfl]
  generalize whileTests (leftMore (whileFuel rightMore rightTurn (length + 1) (startOf m length)).lpString) leftTurn
    (length + 1) 0 = skipped at hscans ⊢
  generalize (whileTests rightMore rightTurn (length + 1) (startOf m length)).flatMap rightReads = tests at hscans ⊢
  generalize (whileTurns rightMore rightTurn (length + 1) (startOf m length)).map (fun s => s.nLen - 1) = cuts at hscans ⊢
  generalize whileFuel rightMore rightTurn (length + 1) (startOf m length) = right at htext hp hrest hpsz ⊢
  rw [hp, hpsz, hfits]
  by_cases hlead : u.takeWhile isBlank = []
  · have hwhole : u.dropWhile isBlank = u := by
      have happend := List.takeWhile_append_dropWhile (p := isBlank) (l := u)
      rwa [hlead, List.nil_append] at happend
    rw [if_neg fun h => h.2 hlead, hlead, if_pos (by rfl), hwhole]
    exact ⟨_, rfl, hscans, htext⟩
  · have hpos := List.length_pos_iff.2 hlead
    have hne : ¬ ((u.takeWhile isBlank).length : ℤ) = 0 := by omega
    rw [if_neg hne]
    by_cases hsecure : build = .secure
    · rw [if_pos ⟨hsecure, hlead⟩, if_pos ⟨hsecure, rfl⟩]
    · rw [if_neg fun h => hsecure h.1, if_neg fun h => hsecure h.1]
      obtain ⟨hcells, hend, hplain⟩ := hasText_iff.1 hrest
      refine ⟨_, rfl, fun i hi => ?_, hasText_iff.2 ⟨fun i hi => ?_, ?_, hplain⟩⟩
      · rw [List.mem_append, List.mem_append] at hi
        rcases hi with (hi | hi) | hi
        · exact hscans i hi
        · obtain ⟨j, hj, rfl⟩ := List.mem_map.1 hi
          have hbound := mem_indices hj
          omega
        · have hbound := mem_indices hi
          omega
      · dsimp only
        rw [Int.zero_add, if_pos (by omega), Int.toNat_natCast]
      · dsimp only
        rw [Int.zero_add, if_pos (by omega), Int.toNat_natCast]
        exact List.getD_eq_default _ _ (Nat.le_refl _)

end Whole

/-! ## When a string is trimmed -/

/-- What a string must be like: it has a character that is no blank, or it is so long that its length is a negative
`int` and its right side is not looked at; and the secure build has no blanks to remove on the left. -/
def Trimmable (build : Build) (s : CString) : Prop :=
  (if s.length < 2 ^ 31 then ∃ c ∈ s, isBlank c = false
    else (∀ c ∈ s, isBlank c = true) ∨ ∀ c ∈ s.getLast?, isBlank c = false) ∧
    (build = .secure → ∀ c ∈ s.head?, isBlank c = false)

theorem startOf_short (m : ℤ → TCHAR) {length : ℕ} (h : length < 2 ^ 31) : startOf m length = ⟨m, length⟩ := by
  unfold startOf
  rw [BitVec.toInt_eq_toNat_cond, BitVec.toNat_ofNat, Nat.mod_eq_of_lt (by omega), if_pos (by omega)]

theorem startOf_long (m : ℤ → TCHAR) {length : ℕ} (h : 2 ^ 31 ≤ length) (h' : length < 2 ^ 32) :
    (startOf m length).nLen < 0 := by
  unfold startOf
  rw [BitVec.toInt_eq_toNat_cond, BitVec.toNat_ofNat, Nat.mod_eq_of_lt h', if_neg (by omega)]
  dsimp only
  omega

theorem rightMore_neg {s : RightRun} (h : s.nLen < 0) : rightMore s = false := by
  unfold rightMore
  rw [decide_eq_false (Int.not_le.2 h), Bool.false_and]

theorem exists_nonblank_iff (s : CString) : (∃ c ∈ s, isBlank c = false) ↔ s.rdropWhile isBlank ≠ [] := by
  rw [Ne, List.rdropWhile_eq_nil_iff]
  simp

theorem takeWhile_nil_iff (s : CString) : s.takeWhile isBlank = [] ↔ ∀ c ∈ s.head?, isBlank c = false := by
  cases s with
  | nil => simp
  | cons c s => simp [List.takeWhile_cons]

theorem head_rdropWhile {s : CString} (h : s.rdropWhile isBlank ≠ []) : (s.rdropWhile isBlank).head? = s.head? := by
  obtain ⟨r, hr⟩ := List.rdropWhile_prefix isBlank s
  calc (s.rdropWhile isBlank).head? = (s.rdropWhile isBlank ++ r).head? := (List.head?_append_of_ne_nil _ h).symm
    _ = s.head? := by rw [hr]

theorem getLast_of_suffix {l s : CString} (h : l <:+ s) (hne : l ≠ []) : l.getLast? = s.getLast? := by
  obtain ⟨r, rfl⟩ := h
  exact (List.getLast?_append_of_ne_nil _ hne).symm

/-- A string whose right side is not looked at is trimmed all the same if it has no blank there, or nothing else. -/
theorem dropWhile_eq_blankTrim_iff (s : CString) :
    s.dropWhile isBlank = blankTrim s ↔ (∀ c ∈ s, isBlank c = true) ∨ ∀ c ∈ s.getLast?, isBlank c = false := by
  unfold blankTrim
  constructor
  · intro h
    by_cases hall : ∀ c ∈ s, isBlank c = true
    · exact Or.inl hall
    · have hne : s.dropWhile isBlank ≠ [] := fun hnil => hall fun c hc => List.dropWhile_eq_nil_iff.1 hnil c hc
      have hkept : s.rdropWhile isBlank ≠ [] := fun hnil => hne (by rw [h, hnil]; rfl)
      have hlast := getLast_of_suffix (List.dropWhile_suffix isBlank) hne
      rw [h, getLast_of_suffix (List.dropWhile_suffix isBlank) (by rw [← h]; exact hne),
        List.getLast?_eq_some_getLast hkept] at hlast
      refine Or.inr fun c hc => ?_
      rw [← hlast, Option.mem_some_iff] at hc
      rw [← hc]
      exact Bool.eq_false_of_not_eq_true (List.rdropWhile_last_not isBlank s hkept)
  · rintro (hall | hlast)
    · rw [List.rdropWhile_eq_nil_iff.2 hall, List.dropWhile_eq_nil_iff.2 hall]
      rfl
    · have hwhole : s.rdropWhile isBlank = s := by
        rw [List.rdropWhile_eq_self_iff]
        intro hne
        rw [hlast _ (List.getLast?_eq_some_getLast hne)]
        exact Bool.false_ne_true
      rw [hwhole]

/-- After a loop over the right side that stays in the string and leaves `u`. -/
theorem trimOk_of_right (build : Build) {m : ℤ → TCHAR} {s u : CString} (hu : u.length ≤ s.length)
    (htext : HasText (whileFuel rightMore rightTurn (s.length + 1) (startOf m s.length)).lpString 0 u)
    (htests : RightInside m s.length) :
    TrimOk build m s ↔ u.dropWhile isBlank = blankTrim s ∧ (build = .secure → ∀ c ∈ u.head?, isBlank c = false) := by
  have hleft := trimStringAt_left build hu htext htests
  rw [← takeWhile_nil_iff]
  unfold TrimOk
  by_cases hfail : build = .secure ∧ u.takeWhile isBlank ≠ []
  · rw [if_pos hfail] at hleft
    rw [hleft]
    refine iff_of_false ?_ fun h => hfail.2 (h.2 hfail.1)
    rintro ⟨r, hr, -⟩
    cases hr
  · rw [if_neg hfail] at hleft
    obtain ⟨r, hr, hinside, hresult⟩ := hleft
    have hsecure : build = .secure → u.takeWhile isBlank = [] := fun h => not_not.1 fun hne => hfail ⟨h, hne⟩
    constructor
    · rintro ⟨r', hr', -, hresult'⟩
      rw [hr] at hr'
      rw [← Option.some.inj hr'] at hresult'
      exact ⟨hresult.unique hresult', hsecure⟩
    · rintro ⟨htrim, -⟩
      rw [htrim] at hresult
      exact ⟨r, hr, hinside, hresult⟩

/-- `__TrimString` stays in the string and trims it if and only if the string is `Trimmable`. -/
theorem trimOk_iff (build : Build) {m : ℤ → TCHAR} {s : CString} (hs : HasText m 0 s) (hlength : s.length < 2 ^ 32) :
    TrimOk build m s ↔ Trimmable build s := by
  obtain ⟨hcells, hend, hplain⟩ := hasText_iff.1 hs
  simp only [Int.zero_add] at hcells hend
  unfold Trimmable
  by_cases hshort : s.length < 2 ^ 31
  · rw [if_pos hshort, exists_nonblank_iff]
    obtain ⟨hkept, hnone⟩ := right_loop s s.length (Nat.lt_succ_self _) hcells
    rw [← startOf_short m hshort] at hkept hnone
    have hright := trimRight_eq s
    by_cases hne : s.rdropWhile isBlank = []
    · -- the test at 0 reads the character before the string
      rw [if_pos hne] at hright
      refine iff_of_false ?_ fun h => h.1 hne
      rintro ⟨r, hr, hinside, -⟩
      obtain ⟨t, ht, hzero⟩ := hnone hright
      have hread : (-1 : ℤ) ∈ rightReads t := by
        unfold rightReads
        rw [hzero]
        exact List.mem_singleton_self _
      have hbefore := hinside (-1) (right_accesses hr (List.mem_flatMap.2 ⟨t, ht, hread⟩))
      omega
    · rw [if_neg hne] at hright
      obtain ⟨hmem, htests⟩ := hkept _ hright
      have hle := (List.rdropWhile_prefix isBlank s).length_le
      have htext : HasText (whileFuel rightMore rightTurn (s.length + 1) (startOf m s.length)).lpString 0
          (s.rdropWhile isBlank) := by
        refine hasText_iff.2 ⟨fun i hi => ?_, ?_, fun c hc => hplain c ((List.rdropWhile_prefix isBlank s).subset hc)⟩
        · rw [Int.zero_add, hmem, if_neg (by omega), hcells i (by omega), ← take_rdropWhile s]
          simp [List.getD_eq_getElem?_getD, List.getElem?_take_of_lt hi]
        · rw [Int.zero_add, hmem]
          split
          · rfl
          · next hfull =>
            have heq : (s.rdropWhile isBlank).length = s.length := by omega
            rw [heq]
            exact hend
      rw [trimOk_of_right build hle htext fun t ht _ => htests t ht, head_rdropWhile hne]
      exact and_congr_left' (iff_of_true rfl hne)
  · have hneg := startOf_long m (Nat.not_lt.1 hshort) hlength
    have hstop := rightMore_neg hneg
    rw [if_neg hshort, ← dropWhile_eq_blankTrim_iff]
    refine trimOk_of_right build (Nat.le_refl _) ?_ ?_
    · rw [whileFuel_done hstop]
      exact hs
    · intro t ht hpos
      rw [whileTests_done hstop] at ht
      rw [List.mem_singleton.1 ht] at hpos
      exact absurd hpos (Int.not_le.2 hneg)

/-- A blank and a letter. -/
theorem trimOk_iff_sample :
    TrimOk .plain (fun i => if i = 0 then 0x20 else if i = 1 then 0x61 else 0) [0x20, 0x61] ↔
      Trimmable .plain [0x20, 0x61] :=
  trimOk_iff .plain (by simp [HasText]) (by decide)

/-- For the empty string the character before it is read. -/
theorem empty_string_read_before :
    ¬ ∀ (build : Build) (m : ℤ → TCHAR) (s : CString), HasText m 0 s → s.length < 2 ^ 32 → TrimOk build m s := by
  intro h
  obtain ⟨r, hr, hinside, -⟩ := h .plain (fun _ => 0) [] rfl (by decide)
  have hbefore := hinside (-1) (right_accesses hr (by decide))
  omega

end StarLib.Ini
