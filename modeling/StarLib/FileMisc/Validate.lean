import StarLib.FileMisc.Folders
import StarLib.Foundations.Substitution

/-! # `ValidateFilepath`

Blanks at the ends are taken off, then seven letters and most colons are replaced. The loop over the colons looks at
the last one only, and ends when that is at position 1.
-/

namespace StarLib.FileMisc
open Foundations
set_option autoImplicit false
set_option maxHeartbeats 250000
set_option maxRecDepth 120000

def colon : TCHAR := 0x3a

/-- The letters that are replaced: slash, asterisk, question mark, quote, less, greater and bar. -/
def forbidden : List TCHAR := [0x2f, 0x2a, 0x3f, 0x22, 0x3c, 0x3e, 0x7c]

/-- `CString::Replace` of one letter. -/
def replaceLetter (szReplace : CString) (c : TCHAR) (s : CString) : CString := substitute (fun d => d == c) szReplace s

/-- `CString::ReverseFind`; `none` is -1. -/
def reverseFind (c : TCHAR) : CString → Option ℕ
  | [] => none
  | d :: s =>
    match reverseFind c s with
    | some n => some (n + 1)
    | none => if d == c then some 0 else none

/-- `nColon != -1 && nColon != 1`. -/
def colonToReplace (sFilepath : CString) : Bool :=
  match reverseFind colon sFilepath with
  | none => false
  | some nColon => nColon != 1

def replaceColon (szReplace sFilepath : CString) : CString :=
  match reverseFind colon sFilepath with
  | none => sFilepath
  | some nColon => sFilepath.take nColon ++ szReplace ++ sFilepath.drop (nColon + 1)

/-- `ValidateFilepath`; there is no result as long as the loop wants more turns. -/
def validateFilepath (isspace : TCHAR → Bool) (fuel : ℕ) (szReplace sFilepath : CString) : Option CString :=
  let s := forbidden.foldl (fun s c => replaceLetter szReplace c s) (trim isspace sFilepath)
  whileEnds colonToReplace (replaceColon szReplace) fuel s

/-- `ValidateFilename`. -/
def validateFilename (isspace : TCHAR → Bool) (fuel : ℕ) (szReplace sFilename : CString) : Option CString :=
  validateFilepath isspace fuel szReplace (replaceLetter szReplace colon (replaceLetter szReplace 0x5c sFilename))

/-! ## The seven letters -/

def isForbidden (c : TCHAR) : Bool := forbidden.contains c

/-- The replacement has no letter that is replaced, no colon and no blank. -/
structure Harmless (isspace : TCHAR → Bool) (szReplace : CString) : Prop where
  forbidden : ∀ c ∈ szReplace, isForbidden c = false
  colon : ∀ c ∈ szReplace, c ≠ colon
  blank : ∀ c ∈ szReplace, isspace c = false

theorem replaceLetters_eq {r : CString} (l : List TCHAR) (hr : ∀ c ∈ l, c ∉ r) (s : CString) :
    l.foldl (fun s c => replaceLetter r c s) s = substitute (fun c => l.contains c) r s := by
  induction l generalizing s with
  | nil => exact (substitute_of_none fun c _ => rfl).symm
  | cons d l ih =>
    rw [List.forall_mem_cons] at hr
    have hl : ∀ c ∈ r, l.contains c = false := by
      intro c hc
      rw [List.contains_eq_mem, decide_eq_false_iff_not]
      exact fun hmem => hr.2 c hmem hc
    rw [List.foldl_cons, ih hr.2]
    unfold replaceLetter
    rw [substitute_substitute hl]
    congr 1

theorem replaceForbidden_eq {isspace : TCHAR → Bool} {r : CString} (h : Harmless isspace r) (s : CString) :
    forbidden.foldl (fun s c => replaceLetter r c s) s = substitute isForbidden r s := by
  refine replaceLetters_eq forbidden (fun c hc hr => ?_) s
  have hclean := h.forbidden c hr
  unfold isForbidden at hclean
  rw [List.contains_eq_mem, decide_eq_false_iff_not] at hclean
  exact hclean hc

/-! ## The colons -/

section Colons
variable {r s t : CString}

theorem reverseFind_none : reverseFind colon s = none ↔ colon ∉ s := by
  induction s with
  | nil => simp [reverseFind]
  | cons d s ih =>
    unfold reverseFind
    cases h : reverseFind colon s with
    | none =>
      have hs := ih.1 h
      by_cases hd : d = colon
      · simp [hd]
      · simp [hd, hs, Ne.symm hd]
    | some n =>
      have hs : colon ∈ s := by
        by_contra hnot
        rw [ih.2 hnot] at h
        exact absurd h (by simp)
      simp [hs]

theorem reverseFind_split (s t : CString) (ht : colon ∉ t) : reverseFind colon (s ++ colon :: t) = some s.length := by
  induction s with
  | nil =>
    rw [List.nil_append, reverseFind, reverseFind_none.2 ht]
    rfl
  | cons d s ih =>
    rw [List.cons_append, reverseFind, ih]
    rfl

theorem exists_last_colon (h : colon ∈ s) : ∃ a b, s = a ++ colon :: b ∧ colon ∉ b := by
  obtain ⟨b, a, hs, hb⟩ := List.eq_append_cons_of_mem (List.mem_reverse.2 h)
  refine ⟨a.reverse, b.reverse, ?_, fun hmem => hb (List.mem_reverse.1 hmem)⟩
  have hrev := congrArg List.reverse hs
  rw [List.reverse_reverse, List.reverse_append, List.reverse_cons, List.append_assoc] at hrev
  exact hrev

theorem replaceColons_none (h : colon ∉ s) : replaceLetter r colon s = s := by
  refine substitute_of_none fun c hc => ?_
  rw [beq_eq_false_iff_ne]
  exact fun heq => h (heq ▸ hc)

theorem replaceColons_split (a b : CString) :
    replaceLetter r colon (a ++ colon :: b) = replaceLetter r colon a ++ r ++ replaceLetter r colon b := by
  unfold replaceLetter
  rw [substitute_append, substitute_cons_pos (p := fun d => d == colon) (beq_self_eq_true colon), List.append_assoc]

/-- A colon at position 1 stays, and the text before it; every other colon is replaced. -/
def colonsReplaced (r s : CString) : CString :=
  if s[1]? = some colon then s.take 2 ++ replaceLetter r colon (s.drop 2) else replaceLetter r colon s

theorem colonsReplaced_none (h : colon ∉ s) : colonsReplaced r s = s := by
  have hne : s[1]? ≠ some colon := fun heq => h (List.mem_of_getElem? heq)
  unfold colonsReplaced
  rw [if_neg hne, replaceColons_none h]

theorem colonsReplaced_drive {x : TCHAR} (h : colon ∉ s) : colonsReplaced r (x :: colon :: s) = x :: colon :: s := by
  show x :: colon :: replaceLetter r colon s = _
  rw [replaceColons_none h]

/-- The turn for the last colon, where it is not at position 1, leaves the outcome. -/
theorem colonsReplaced_turn (hr : colon ∉ r) {a b : CString} (ha : a.length ≠ 1) (hb : colon ∉ b) :
    colonsReplaced r (a ++ r ++ b) = colonsReplaced r (a ++ colon :: b) := by
  match a, ha with
  | [], _ =>
    have hclean : colon ∉ r ++ b := by simp [hr, hb]
    have hne : (colon :: b)[1]? ≠ some colon := by
      rw [List.getElem?_cons_succ]
      exact fun heq => hb (List.mem_of_getElem? heq)
    have hsplit := replaceColons_split (r := r) [] b
    rw [List.nil_append, colonsReplaced_none hclean]
    unfold colonsReplaced
    rw [List.nil_append] at hsplit ⊢
    rw [if_neg hne, hsplit, replaceColons_none hb]
    rfl
  | [x], ha => exact absurd rfl ha
  | x :: y :: a, _ =>
    have hrest : replaceLetter r colon (a ++ r ++ b) = replaceLetter r colon (a ++ colon :: b) := by
      rw [replaceColons_split]
      unfold replaceLetter
      rw [substitute_append, substitute_append]
      congr 2
      exact replaceColons_none hr
    show (if some y = some colon then x :: y :: replaceLetter r colon (a ++ r ++ b) else
      replaceLetter r colon ([x, y] ++ (a ++ r ++ b))) = if some y = some colon then
        x :: y :: replaceLetter r colon (a ++ colon :: b) else replaceLetter r colon ([x, y] ++ (a ++ colon :: b))
    have hall : ∀ u, replaceLetter r colon ([x, y] ++ u) = replaceLetter r colon [x, y] ++ replaceLetter r colon u :=
      fun u => substitute_append
    rw [hall, hall, hrest]

/-- The loop ends after at most as many turns as there are colons. -/
theorem colonLoop_eq (hr : colon ∉ r) (fuel : ℕ) (s : CString) (hfuel : s.count colon ≤ fuel) :
    whileEnds colonToReplace (replaceColon r) fuel s = some (colonsReplaced r s) := by
  induction fuel generalizing s with
  | zero =>
    have hnone : colon ∉ s := List.count_eq_zero.1 (Nat.le_zero.1 hfuel)
    have hstop : colonToReplace s = false := by
      unfold colonToReplace
      rw [reverseFind_none.2 hnone]
    rw [whileEnds_done hstop, colonsReplaced_none hnone]
  | succ fuel ih =>
    by_cases hcolon : colon ∈ s
    · obtain ⟨a, b, rfl, hb⟩ := exists_last_colon hcolon
      have hfind := reverseFind_split a b hb
      by_cases ha : a.length = 1
      · have hstop : colonToReplace (a ++ colon :: b) = false := by
          unfold colonToReplace
          rw [hfind, ha]
          rfl
        obtain ⟨x, rfl⟩ := List.length_eq_one_iff.1 ha
        rw [whileEnds_done hstop]
        exact congrArg some (colonsReplaced_drive hb).symm
      · have hturn : colonToReplace (a ++ colon :: b) = true := by
          unfold colonToReplace
          rw [hfind]
          exact bne_iff_ne.2 ha
        have hbody : replaceColon r (a ++ colon :: b) = a ++ r ++ b := by
          unfold replaceColon
          rw [hfind]
          simp
        rw [whileEnds_succ hturn, hbody, ← colonsReplaced_turn hr ha hb]
        refine ih _ ?_
        rw [List.count_append, List.count_cons_self] at hfuel
        rw [List.count_append, List.count_append, List.count_eq_zero.2 hr]
        omega
    · have hstop : colonToReplace s = false := by
        unfold colonToReplace
        rw [reverseFind_none.2 hcolon]
      rw [whileEnds_done hstop, colonsReplaced_none hcolon]

theorem drive_cases (s : CString) : (∃ x t, s = x :: colon :: t) ∨ s[1]? ≠ some colon := by
  match s with
  | [] => exact Or.inr (by simp)
  | [x] => exact Or.inr (by simp)
  | x :: y :: t =>
    by_cases hy : y = colon
    · exact Or.inl ⟨x, t, by rw [hy]⟩
    · exact Or.inr (by simpa using hy)

theorem not_mem_replaceColons (hr : colon ∉ r) : colon ∉ replaceLetter r colon s := by
  intro hmem
  rcases mem_substitute hmem with hmem | ⟨-, hne⟩
  · exact hr hmem
  · exact beq_eq_false_iff_ne.1 hne rfl

/-- The text begins with two colons. -/
def StartsWithColons (s : CString) : Prop := s[0]? = some colon ∧ s[1]? = some colon

theorem colonsReplaced_positions (hr : colon ∉ r) :
    (∀ i, (colonsReplaced r s)[i]? = some colon → i = 1) ↔ ¬ StartsWithColons s := by
  rcases drive_cases s with ⟨x, t, rfl⟩ | hno
  · have hdrive : colonsReplaced r (x :: colon :: t) = x :: colon :: replaceLetter r colon t := rfl
    rw [hdrive]
    constructor
    · rintro hall ⟨hfirst, -⟩
      exact absurd (hall 0 hfirst) (by decide)
    · intro hstart i hi
      match i, hi with
      | 0, hi => exact absurd ⟨hi, rfl⟩ hstart
      | 1, _ => rfl
      | i + 2, hi =>
        have hrest : (replaceLetter r colon t)[i]? = some colon := hi
        exact absurd (List.mem_of_getElem? hrest) (not_mem_replaceColons hr)
  · have hall : colonsReplaced r s = replaceLetter r colon s := if_neg hno
    rw [hall]
    refine iff_of_true (fun i hi => ?_) fun hstart => hno hstart.2
    exact absurd (List.mem_of_getElem? hi) (not_mem_replaceColons hr)

theorem colonsReplaced_again (hr : colon ∉ r) : colonsReplaced r (colonsReplaced r s) = colonsReplaced r s := by
  rcases drive_cases s with ⟨x, t, rfl⟩ | hno
  · exact colonsReplaced_drive (not_mem_replaceColons hr)
  · have hall : colonsReplaced r s = replaceLetter r colon s := if_neg hno
    rw [hall]
    exact colonsReplaced_none (not_mem_replaceColons hr)

theorem mem_colonsReplaced {c : TCHAR} (h : c ∈ colonsReplaced r s) : c ∈ r ∨ c ∈ s := by
  have hpart : ∀ t, c ∈ replaceLetter r colon t → c ∈ r ∨ c ∈ t := fun t hc =>
    (mem_substitute hc).imp_right And.left
  rcases drive_cases s with ⟨x, t, rfl⟩ | hno
  · have hdrive : colonsReplaced r (x :: colon :: t) = [x, colon] ++ replaceLetter r colon t := rfl
    rw [hdrive, List.mem_append] at h
    rcases h with hmem | hmem
    · exact Or.inr (List.mem_append_left t hmem)
    · exact (hpart t hmem).imp_right fun hc => List.mem_append_right [x, colon] hc
  · unfold colonsReplaced at h
    rw [if_neg hno] at h
    exact hpart s h

theorem colonsReplaced_nil_length : (colonsReplaced [] s).length ≤ s.length := by
  have hpart : ∀ t, (replaceLetter [] colon t).length ≤ t.length := by
    intro t
    unfold replaceLetter
    rw [substitute_empty]
    exact List.length_filter_le _ t
  unfold colonsReplaced
  split
  · have hsplit := congrArg List.length (List.take_append_drop 2 s)
    have hdrop := hpart (s.drop 2)
    rw [List.length_append] at hsplit ⊢
    omega
  · exact hpart s

end Colons

/-! ## What a result should be -/

/-- The loop ends with a text without the seven letters, with a colon at position 1 at most, and the same text comes
out of it again. -/
structure Validated (isspace : TCHAR → Bool) (szReplace sFilepath result : CString) : Prop where
  ends : ∃ turns, ∀ fuel, turns ≤ fuel → validateFilepath isspace fuel szReplace sFilepath = some result
  forbidden : ∀ c ∈ result, isForbidden c = false
  colon : ∀ i, result[i]? = some colon → i = 1
  again : ∃ turns, ∀ fuel, turns ≤ fuel → validateFilepath isspace fuel szReplace result = some result

/-- The text between its blanks does not begin with two colons. Where letters are left out instead of replaced, it does
not do so without the seven letters, and without them and the colons no blank is at an end. -/
def Settled (isspace : TCHAR → Bool) (szReplace sFilepath : CString) : Prop :=
  let s := trim isspace sFilepath
  if szReplace = [] then
    ¬ StartsWithColons (s.filter fun c => !isForbidden c) ∧
      Trimmed isspace (s.filter fun c => !(isForbidden c || c == colon))
  else ¬ StartsWithColons s

section Results
variable {isspace : TCHAR → Bool} {r s : CString}

theorem validateFilepath_eq (h : Harmless isspace r) (s : CString) :
    ∃ turns, ∀ fuel, turns ≤ fuel → validateFilepath isspace fuel r s =
      some (colonsReplaced r (substitute isForbidden r (trim isspace s))) := by
  refine ⟨(substitute isForbidden r (trim isspace s)).count colon, fun fuel hfuel => ?_⟩
  unfold validateFilepath
  dsimp only
  rw [replaceForbidden_eq h]
  exact colonLoop_eq (fun hmem => h.colon _ hmem rfl) fuel _ hfuel

theorem result_unique (h : Harmless isspace r) {result : CString}
    (hends : ∃ turns, ∀ fuel, turns ≤ fuel → validateFilepath isspace fuel r s = some result) :
    result = colonsReplaced r (substitute isForbidden r (trim isspace s)) := by
  obtain ⟨turns, hturns⟩ := validateFilepath_eq h s
  obtain ⟨turns', hturns'⟩ := hends
  have heq := hturns _ (Nat.le_max_left turns turns')
  rw [hturns' _ (Nat.le_max_right turns turns'), Option.some.injEq] at heq
  exact heq

theorem isForbidden_result (h : Harmless isspace r) {c : TCHAR}
    (hc : c ∈ colonsReplaced r (substitute isForbidden r s)) : isForbidden c = false := by
  rcases mem_colonsReplaced hc with hc | hc
  · exact h.forbidden c hc
  · rcases mem_substitute hc with hc | ⟨-, hc⟩
    · exact h.forbidden c hc
    · exact hc

/-- The same text comes out again when no blank is at an end of it. -/
theorem again_iff (h : Harmless isspace r) (s : CString) :
    (∃ turns, ∀ fuel, turns ≤ fuel →
      validateFilepath isspace fuel r (colonsReplaced r (substitute isForbidden r s)) =
        some (colonsReplaced r (substitute isForbidden r s))) ↔
    colonsReplaced r (trim isspace (colonsReplaced r (substitute isForbidden r s))) =
      colonsReplaced r (substitute isForbidden r s) := by
  have hclean : substitute isForbidden r (trim isspace (colonsReplaced r (substitute isForbidden r s))) =
      trim isspace (colonsReplaced r (substitute isForbidden r s)) :=
    substitute_of_none fun c hc => isForbidden_result h (trim_sublist.subset hc)
  constructor
  · intro hagain
    have heq := result_unique h hagain
    rw [hclean] at heq
    exact heq.symm
  · intro heq
    obtain ⟨turns, hturns⟩ := validateFilepath_eq h (colonsReplaced r (substitute isForbidden r s))
    rw [hclean, heq] at hturns
    exact ⟨turns, hturns⟩

theorem trimmed_result (h : Harmless isspace r) (hcolon : isspace colon = false) (hne : r ≠ []) (hs : Trimmed isspace s) :
    Trimmed isspace (colonsReplaced r (substitute isForbidden r s)) := by
  have hhead := head_substitute (p := isForbidden) hne h.blank hs.head
  have hlast := getLast_substitute (p := isForbidden) hne h.blank hs.last
  generalize substitute isForbidden r s = t at hhead hlast
  rcases drive_cases t with ⟨x, t, rfl⟩ | hno
  · have hdrive : colonsReplaced r (x :: colon :: t) = [x, colon] ++ replaceLetter r colon t := rfl
    have hend : ∀ c ∈ [x, colon].getLast?, isspace c = false := by
      intro c hc
      rw [← Option.some.inj hc]
      exact hcolon
    have hrest : ∀ c ∈ t.getLast?, isspace c = false := (getLast_append_iff hend).1 hlast
    rw [hdrive]
    exact ⟨hhead, (getLast_append_iff hend).2 (getLast_substitute hne h.blank hrest)⟩
  · have hall : colonsReplaced r t = replaceLetter r colon t := if_neg hno
    rw [hall]
    exact ⟨head_substitute hne h.blank hhead, getLast_substitute hne h.blank hlast⟩

/-- Left-out letters may bring one there. -/
theorem trimmed_result_nil_iff (hcolon : isspace colon = false)
    (hstart : ¬ StartsWithColons (s.filter fun c => !isForbidden c)) :
    Trimmed isspace (colonsReplaced [] (s.filter fun c => !isForbidden c)) ↔
      Trimmed isspace (s.filter fun c => !(isForbidden c || c == colon)) := by
  have hfilter : (s.filter fun c => !(isForbidden c || c == colon)) =
      replaceLetter [] colon (s.filter fun c => !isForbidden c) := by
    unfold replaceLetter
    rw [substitute_empty, List.filter_filter]
    congr 1
    funext c
    rw [Bool.not_or, Bool.and_comm]
  rw [hfilter]
  generalize (s.filter fun c => !isForbidden c) = t at hstart
  rcases drive_cases t with ⟨x, t, rfl⟩ | hno
  · have hx : x ≠ colon := fun heq => hstart ⟨congrArg some heq, rfl⟩
    have hdrive : colonsReplaced [] (x :: colon :: t) = [x, colon] ++ replaceLetter [] colon t := rfl
    have hplain : replaceLetter [] colon (x :: colon :: t) = [x] ++ replaceLetter [] colon t := by
      have hsplit := replaceColons_split (r := []) [x] t
      have hsingle : replaceLetter [] colon [x] = [x] := replaceColons_none fun hmem => hx (List.mem_singleton.1 hmem).symm
      rw [hsingle, List.append_nil] at hsplit
      exact hsplit
    rw [hdrive, hplain]
    generalize replaceLetter [] colon t = y
    have hend : ∀ c ∈ [x, colon].getLast?, isspace c = false := by
      intro c hc
      rw [← Option.some.inj hc]
      exact hcolon
    constructor
    · intro htrim
      have hfirst : ∀ c ∈ [x].getLast?, isspace c = false := htrim.head
      exact ⟨htrim.head, (getLast_append_iff hfirst).2 ((getLast_append_iff hend).1 htrim.last)⟩
    · intro htrim
      have hfirst : ∀ c ∈ [x].getLast?, isspace c = false := htrim.head
      exact ⟨htrim.head, (getLast_append_iff hend).2 ((getLast_append_iff hfirst).1 htrim.last)⟩
  · have hall : colonsReplaced [] t = replaceLetter [] colon t := if_neg hno
    rw [hall]

theorem startsWithColons_substitute (h : Harmless isspace r) (hne : r ≠ []) :
    StartsWithColons (substitute isForbidden r s) ↔ StartsWithColons s := by
  have hsame : isForbidden colon = false := rfl
  obtain ⟨d, r', rfl⟩ := List.exists_cons_of_ne_nil hne
  have hd : d ≠ colon := h.colon d List.mem_cons_self
  match s with
  | [] => rfl
  | [x] =>
    cases hx : isForbidden x with
    | true =>
      rw [substitute_cons_pos hx]
      refine iff_of_false (fun hstart => hd (Option.some.inj hstart.1)) fun hstart => ?_
      exact absurd hstart.2 (by simp)
    | false =>
      rw [substitute_cons_neg hx]
      rfl
  | x :: y :: t =>
    have hfixed : ∀ c, isForbidden c = true → c ≠ colon := by
      intro c hc heq
      rw [heq, hsame] at hc
      exact Bool.false_ne_true hc
    cases hx : isForbidden x with
    | true =>
      rw [substitute_cons_pos hx]
      exact iff_of_false (fun hstart => hd (Option.some.inj hstart.1)) fun hstart =>
        hfixed x hx (Option.some.inj hstart.1)
    | false =>
      rw [substitute_cons_neg hx]
      cases hy : isForbidden y with
      | true =>
        rw [substitute_cons_pos hy]
        exact iff_of_false (fun hstart => hd (Option.some.inj hstart.2)) fun hstart =>
          hfixed y hy (Option.some.inj hstart.2)
      | false =>
        rw [substitute_cons_neg hy]
        rfl

/-- The result is right exactly when the text is settled. -/
theorem validateFilepath_iff (h : Harmless isspace r) (hcolon : isspace colon = false) (s : CString) :
    (∃ result, Validated isspace r s result) ↔ Settled isspace r s := by
  have hr : colon ∉ r := fun hmem => h.colon _ hmem rfl
  have hresult : (∃ result, Validated isspace r s result) ↔
      ¬ StartsWithColons (substitute isForbidden r (trim isspace s)) ∧
        colonsReplaced r (trim isspace (colonsReplaced r (substitute isForbidden r (trim isspace s)))) =
          colonsReplaced r (substitute isForbidden r (trim isspace s)) := by
    rw [← colonsReplaced_positions hr, ← again_iff h]
    constructor
    · rintro ⟨result, hvalid⟩
      have heq := result_unique h hvalid.ends
      subst heq
      exact ⟨hvalid.colon, hvalid.again⟩
    · rintro ⟨hpositions, hagain⟩
      exact ⟨_, validateFilepath_eq h s, fun c hc => isForbidden_result h hc, hpositions, hagain⟩
  -- a text without blanks at its ends comes out again
  have hstays : Trimmed isspace (colonsReplaced r (substitute isForbidden r (trim isspace s))) →
      colonsReplaced r (trim isspace (colonsReplaced r (substitute isForbidden r (trim isspace s)))) =
        colonsReplaced r (substitute isForbidden r (trim isspace s)) := by
    intro htrim
    rw [htrim.trim_eq, colonsReplaced_again hr]
  rw [hresult]
  unfold Settled
  dsimp only
  by_cases hne : r = []
  · subst hne
    rw [if_pos rfl, substitute_empty]
    refine and_congr_right fun hstart => ?_
    rw [substitute_empty] at hstays
    rw [← trimmed_result_nil_iff hcolon hstart]
    refine ⟨fun heq => ?_, hstays⟩
    -- nothing is put in, so that no letter can have been taken off
    rw [← trim_eq_iff]
    apply trim_sublist.eq_of_length_le
    have hlength := colonsReplaced_nil_length
      (s := trim isspace (colonsReplaced [] ((trim isspace s).filter fun c => !isForbidden c)))
    rw [heq] at hlength
    exact hlength
  · rw [if_neg hne, startsWithColons_substitute h hne]
    exact and_iff_left (hstays (trimmed_result h hcolon hne trimmed_trim))

theorem validateFilename_clean (h : Harmless isspace r) (hr : 0x5c ∉ r) (s : CString) :
    ∃ result, (∃ turns, ∀ fuel, turns ≤ fuel → validateFilename isspace fuel r s = some result) ∧
      ∀ c ∈ result, isForbidden c = false ∧ c ≠ colon ∧ c ≠ 0x5c := by
  refine ⟨_, validateFilepath_eq h _, fun c hc => ⟨isForbidden_result h hc, ?_⟩⟩
  rcases mem_colonsReplaced hc with hc | hc
  · exact ⟨h.colon c hc, fun heq => hr (heq ▸ hc)⟩
  · rcases mem_substitute hc with hc | ⟨hc, -⟩
    · exact ⟨h.colon c hc, fun heq => hr (heq ▸ hc)⟩
    · rcases mem_substitute (trim_sublist.subset hc) with hc | ⟨hc, hcolon⟩
      · exact ⟨h.colon c hc, fun heq => hr (heq ▸ hc)⟩
      · rcases mem_substitute hc with hc | ⟨-, hbackslash⟩
        · exact ⟨h.colon c hc, fun heq => hr (heq ▸ hc)⟩
        · exact ⟨beq_eq_false_iff_ne.1 hcolon, beq_eq_false_iff_ne.1 hbackslash⟩

end Results

/-- The blanks of the C locale. -/
def isBlank (c : TCHAR) : Bool := c == 0x20 || (decide (9 ≤ c) && decide (c ≤ 13))

theorem underscore_harmless : Harmless isBlank [0x5f] := by
  constructor <;> intro c hc <;> rw [List.mem_singleton.1 hc] <;> decide

theorem empty_harmless : Harmless isBlank [] := by
  constructor <;> intro c hc <;> exact absurd hc List.not_mem_nil

theorem validateFilepath_sample :
    (∃ result, Validated isBlank [0x5f] [0x43, 0x3a, 0x5c, 0x61, 0x2f, 0x3a] result) ↔
      Settled isBlank [0x5f] [0x43, 0x3a, 0x5c, 0x61, 0x2f, 0x3a] :=
  validateFilepath_iff underscore_harmless (by decide) [0x43, 0x3a, 0x5c, 0x61, 0x2f, 0x3a]

/-- In `::a` the last colon is at position 1, and the one before it stays. -/
theorem twoColons_stay :
    ¬ ∀ (isspace : TCHAR → Bool) (r s : CString), Harmless isspace r → isspace colon = false →
      ∃ result, Validated isspace r s result := by
  intro hall
  obtain ⟨result, hvalid⟩ := hall isBlank [] [0x3a, 0x3a, 0x61] empty_harmless (by decide)
  have heq := result_unique empty_harmless hvalid.ends
  have hfirst := hvalid.colon 0 (by rw [heq]; decide)
  exact absurd hfirst (by decide)

end StarLib.FileMisc
