import StarLib.Ini.Growing

/-! # What a copy or a move leaves

Every step of `CopySection`, `CopyKey`, `MoveSection` and `MoveKey` is a write of its own, and nothing takes back
the ones before a write that fails. A copy of a key is one write; a section that is replaced is deleted first; a move
that cannot remove the source leaves it beside the copy.
-/

namespace StarLib.Ini
open Foundations
set_option autoImplicit false
set_option maxHeartbeats 250000
set_option maxRecDepth 120000

variable {ok : ℕ → Bool} {fuel : ℕ} {bFailIfExist : Bool} {d : Disk}

/-- The section `dest` has the lines of `src`. -/
def Sections.copied (f : Sections) (src dest : CString) : Sections := Function.update f (fold dest) (f (fold src))

theorem Disk.write_true {change : Sections → Sections} (h : (d.write ok change).1 = true) : (d.write ok change).2.file = change d.file :=
  if_pos h

theorem Disk.write_false {change : Sections → Sections} (h : (d.write ok change).1 = false) : (d.write ok change).2.file = d.file := by
  have hfailed : ¬ ok d.writes = true := by
    rw [Bool.not_eq_true]
    exact h
  exact if_neg hfailed

/-- The section itself is all that a deletion changes. -/
theorem deleteSection_other {sec s : CString} (hs : s ≠ fold sec) : (deleteSection ok sec d).2.file s = d.file s := by
  cases h : (deleteSection ok sec d).1 with
  | true =>
    rw [deleteSection, Disk.write_true h, Function.update_of_ne hs]
  | false =>
    rw [deleteSection, Disk.write_false h]

theorem deleteSection_absent {sec : CString} (hsec : d.file (fold sec) = none) : (deleteSection ok sec d).2.file = d.file := by
  cases h : (deleteSection ok sec d).1 with
  | true =>
    rw [deleteSection, Disk.write_true h, ← hsec, Function.update_eq_self]
  | false =>
    rw [deleteSection, Disk.write_false h]

theorem isSectionExist_iff {sec : CString} : isSectionExist d sec = true ↔ ∃ lines, d.file (fold sec) = some lines :=
  Option.isSome_iff_exists

/-! ## Sections -/

/-- A copy that got to its writes: the destination deleted, and the lines of the source written. -/
structure Written (ok : ℕ → Bool) (bFailIfExist : Bool) (d : Disk) (src dest : CString) (r : Bool × Disk) : Prop where
  apart : fold src ≠ fold dest
  absent : bFailIfExist = true → d.file (fold dest) = none
  result : r = (deleteSection ok dest d).2.write ok fun f => Function.update f (fold dest) (d.file (fold src))

theorem copySection_cases {lpSrcSection lpDestSection : Option CString} {r : Bool × Disk}
    (h : copySection ok fuel lpSrcSection lpDestSection bFailIfExist d = some r) :
    r = (false, d) ∨ ∃ src dest, lpSrcSection = some src ∧ lpDestSection = some dest ∧ Written ok bFailIfExist d src dest r := by
  unfold copySection at h
  split at h
  · next src dest =>
    split at h
    · exact Or.inl (Option.some.inj h).symm
    · next hapart =>
      split at h
      · exact Or.inl (Option.some.inj h).symm
      · next hsrc =>
        split at h
        · exact Or.inl (Option.some.inj h).symm
        · next hdest =>
          refine Or.inr ⟨src, dest, rfl, rfl, hapart, fun hfail => ?_, ?_⟩
          · rw [hfail, Bool.true_and, isSectionExist, Option.not_isSome_iff_eq_none] at hdest
            exact hdest
          · rw [Bool.not_eq_true', Bool.not_eq_false, isSectionExist_iff] at hsrc
            obtain ⟨lines, hlines⟩ := hsrc
            obtain ⟨n, hsize, rfl⟩ := Option.map_eq_some_iff.1 h
            have hlines' : (deleteSection ok dest d).2.file (fold src) = some lines := (deleteSection_other hapart).trans hlines
            rw [getPrivateProfileSection_room hlines' (keyLinesSize_some hlines' hsize), writePrivateProfileSection, lines_parsed, hlines]
  · exact Or.inl (Option.some.inj h).symm

section Written
variable {src dest : CString} {r : Bool × Disk} (h : Written ok bFailIfExist d src dest r)

include h

theorem Written.other {s : CString} (hs : s ≠ fold dest) : r.2.file s = d.file s := by
  rw [h.result]
  cases hok : ((deleteSection ok dest d).2.write ok fun f => Function.update f (fold dest) (d.file (fold src))).1 with
  | true => rw [Disk.write_true hok, Function.update_of_ne hs, deleteSection_other hs]
  | false => rw [Disk.write_false hok, deleteSection_other hs]

theorem Written.copied (hr : r.1 = true) : r.2.file = d.file.copied src dest := by
  rw [h.result] at hr ⊢
  rw [Disk.write_true hr]
  funext s
  unfold Sections.copied
  by_cases hs : s = fold dest
  · rw [hs, Function.update_self, Function.update_self]
  · rw [Function.update_of_ne hs, Function.update_of_ne hs, deleteSection_other hs]

theorem Written.failed (hr : r.1 = false) :
    r.2.file = d.file ∨ bFailIfExist = false ∧ (d.file (fold dest)).isSome = true := by
  cases hdest : d.file (fold dest) with
  | none =>
    left
    rw [h.result] at hr ⊢
    rw [Disk.write_false hr, deleteSection_absent hdest]
  | some lines =>
    right
    refine ⟨?_, rfl⟩
    cases hfail : bFailIfExist with
    | true => exact absurd ((h.absent hfail).symm.trans hdest) (Option.some_ne_none lines).symm
    | false => rfl

end Written

/-- Only the section `dest`, which was there and was to be replaced, is not as before. -/
def ReplacedOnly (d : Disk) (bFailIfExist : Bool) (lpDestSection : Option CString) (f : Sections) : Prop :=
  bFailIfExist = false ∧ ∃ dest, lpDestSection = some dest ∧ (d.file (fold dest)).isSome = true ∧ ∀ s, s ≠ fold dest → f s = d.file s

theorem copySection_safe {lpSrcSection lpDestSection : Option CString} {RES : Bool} {d' : Disk}
    (h : copySection ok fuel lpSrcSection lpDestSection bFailIfExist d = some (RES, d')) :
    (RES = true → ∃ src dest, lpSrcSection = some src ∧ lpDestSection = some dest ∧ fold src ≠ fold dest ∧
      d'.file = d.file.copied src dest) ∧
    (RES = false → d'.file = d.file ∨ ReplacedOnly d bFailIfExist lpDestSection d'.file) := by
  rcases copySection_cases h with heq | ⟨src, dest, hsrc, hdest, hwritten⟩
  · obtain ⟨rfl, rfl⟩ := Prod.mk.inj heq
    exact ⟨fun h => absurd h Bool.false_ne_true, fun _ => Or.inl rfl⟩
  · refine ⟨fun hr => ⟨src, dest, hsrc, hdest, hwritten.apart, hwritten.copied hr⟩, fun hr => ?_⟩
    rcases hwritten.failed hr with hsame | ⟨hfail, hsome⟩
    · exact Or.inl hsame
    · exact Or.inr ⟨hfail, dest, hdest, hsome, fun s hs => hwritten.other hs⟩

theorem moveSection_safe {lpSrcSection lpDestSection : Option CString} {RES : Bool} {d' : Disk}
    (h : moveSection ok fuel lpSrcSection lpDestSection bFailIfExist d = some (RES, d')) :
    (RES = true → ∃ src dest, lpSrcSection = some src ∧ lpDestSection = some dest ∧ fold src ≠ fold dest ∧
      d'.file = Function.update (d.file.copied src dest) (fold src) none) ∧
    (RES = false → d'.file = d.file ∨ ReplacedOnly d bFailIfExist lpDestSection d'.file ∨
      ∃ src dest, lpSrcSection = some src ∧ lpDestSection = some dest ∧ d'.file = d.file.copied src dest) := by
  obtain ⟨⟨b, d1⟩, hcopy, hr⟩ := Option.map_eq_some_iff.1 h
  obtain ⟨htrue, hfalse⟩ := copySection_safe hcopy
  cases b with
  | false =>
    obtain ⟨rfl, rfl⟩ := Prod.mk.inj hr
    refine ⟨fun h => absurd h Bool.false_ne_true, fun _ => ?_⟩
    rcases hfalse rfl with hsame | hreplaced
    · exact Or.inl hsame
    · exact Or.inr (Or.inl hreplaced)
  | true =>
    obtain ⟨src, dest, rfl, rfl, hapart, hcopied⟩ := htrue rfl
    have hdelete : deleteSection ok src d1 = (RES, d') := hr
    have hok : (deleteSection ok src d1).1 = RES := congrArg Prod.fst hdelete
    have hfile : (deleteSection ok src d1).2.file = d'.file := congrArg (fun r => r.2.file) hdelete
    refine ⟨fun hRES => ⟨src, dest, rfl, rfl, hapart, ?_⟩, fun hRES => Or.inr (Or.inr ⟨src, dest, rfl, rfl, ?_⟩)⟩
    · rw [← hcopied, ← hfile]
      exact Disk.write_true (hok.trans hRES)
    · rw [← hcopied, ← hfile]
      exact Disk.write_false (hok.trans hRES)

/-- Sections whose text a `DWORD` can measure are copied in the end. -/
theorem copySection_returns {src : CString} (dest : CString)
    (hread : ∀ lines, d.file (fold src) = some lines → (sectionText lines).length + 2 < 2 ^ 32 - threshold) :
    (copySection ok (2 ^ 32) (some src) (some dest) bFailIfExist d).isSome = true := by
  unfold copySection
  simp only
  split
  · rfl
  · next hapart =>
    split
    · rfl
    · next hsrc =>
      split
      · rfl
      · rw [Bool.not_eq_true', Bool.not_eq_false, isSectionExist_iff] at hsrc
        obtain ⟨lines, hlines⟩ := hsrc
        rw [Option.isSome_map]
        exact keyLinesSize_returns ((deleteSection_other hapart).trans hlines) (hread lines hlines)

/-! ## Keys -/

theorem value_setValue (f : Sections) (sec : CString) (key : KeyName) (value : Text) (s k : CString) :
    (f.setValue sec key value).value s k = if s = sec ∧ k = foldKey key then some value else f.value s k := by
  unfold Sections.setValue Sections.value
  by_cases hs : s = sec
  · rw [hs, Function.update_self, Option.bind_some, Keyed.lookup_insert]
    by_cases hk : k = foldKey key
    · rw [if_pos hk, if_pos ⟨rfl, hk⟩]
    · rw [if_neg hk, if_neg fun h => hk h.2]
      cases f sec with
      | none => rfl
      | some lines => rfl
  · rw [Function.update_of_ne hs, if_neg fun h => hs h.1]

theorem value_removeKey (f : Sections) (sec key s k : CString) :
    (f.removeKey sec key).value s k = if s = sec ∧ k = key then none else f.value s k := by
  unfold Sections.removeKey Sections.value
  by_cases hs : s = sec
  · rw [hs, Function.update_self]
    cases f sec with
    | none => exact (ite_self _).symm
    | some lines =>
      rw [Option.map_some, Option.bind_some, Option.bind_some, Keyed.lookup_erase]
      by_cases hk : k = key
      · rw [if_pos hk, if_pos ⟨rfl, hk⟩]
      · rw [if_neg hk, if_neg fun h => hk h.2]
  · rw [Function.update_of_ne hs, if_neg fun h => hs h.1]

theorem profile_some {sec key : CString} {value : Text} (h : d.file.value (fold sec) (fold key) = some value) (lpDefault : CString) :
    (d.profile sec key).getD lpDefault = value.1 := by
  unfold Disk.profile
  rw [h]
  rfl

theorem profile_none {sec key : CString} (h : d.file.value (fold sec) (fold key) = none) (lpDefault : CString) :
    (d.profile sec key).getD lpDefault = lpDefault := by
  unfold Disk.profile
  rw [h]
  rfl

/-- A key that the test finds has a value. -/
theorem isKeyExist_true {sec key : CString} (h : isKeyExist fuel d sec key = some true) :
    ∃ value, d.file.value (fold sec) (fold key) = some value := by
  obtain ⟨psz, hget, hne⟩ := Option.map_eq_some_iff.1 h
  cases hvalue : d.file.value (fold sec) (fold key) with
  | some value => exact ⟨value, rfl⟩
  | none =>
    rw [(getStringDynamic_some (profile_none hvalue _) hget).1, Option.getD_some, bne_self_eq_false] at hne
    exact absurd hne Bool.false_ne_true

theorem takeWhile_text (value : Text) : value.1.takeWhile (· ≠ 0) = value.1 :=
  List.takeWhile_eq_self_iff.2 fun c hc => decide_eq_true fun hzero => value.2 (hzero ▸ hc)

/-- A copy of a key that got to its write. -/
structure KeyWritten (ok : ℕ → Bool) (d : Disk) (src srcKey lpDestSection : CString) (destKey : KeyName) (r : Bool × Disk) : Prop where
  apart : ¬ (fold src = fold lpDestSection ∧ fold srcKey = foldKey destKey)
  result : ∃ value, d.file.value (fold src) (fold srcKey) = some value ∧
    r = d.write ok fun f => f.setValue (fold lpDestSection) destKey value

theorem copyKey_cases {lpSrcSection lpSrcKey : Option CString} {lpDestSection : CString} {lpDestKey : Option KeyName} {r : Bool × Disk}
    (h : copyKey ok fuel lpSrcSection lpSrcKey lpDestSection lpDestKey bFailIfExist d = some r) :
    r = (false, d) ∨ ∃ src srcKey destKey, lpSrcSection = some src ∧ lpSrcKey = some srcKey ∧ lpDestKey = some destKey ∧
      KeyWritten ok d src srcKey lpDestSection destKey r := by
  unfold copyKey at h
  split at h
  · next src srcKey destKey =>
    split at h
    · exact Or.inl (Option.some.inj h).symm
    · next hapart =>
      obtain ⟨exist, hexist, h⟩ := Option.bind_eq_some_iff.1 h
      cases exist with
      | false => exact Or.inl (Option.some.inj h).symm
      | true =>
        obtain ⟨exist', _, h⟩ := Option.bind_eq_some_iff.1 h
        cases exist' with
        | true => exact Or.inl (Option.some.inj h).symm
        | false =>
          obtain ⟨value, hvalue⟩ := isKeyExist_true hexist
          obtain ⟨psz, hget, rfl⟩ := Option.map_eq_some_iff.1 h
          refine Or.inr ⟨src, srcKey, destKey, rfl, rfl, rfl, hapart, value, hvalue, ?_⟩
          unfold writeText
          simp only [(getStringDynamic_some (profile_some hvalue _) hget).1, takeWhile_text]
  · exact Or.inl (Option.some.inj h).symm

/-- The key has the value of the source, and everything else is as before. -/
structure KeyCopied (f f' : Sections) (src srcKey dest destKey : CString) : Prop where
  here : ∃ value, f.value src srcKey = some value ∧ f'.value dest destKey = some value
  other : ∀ s k, ¬ (s = dest ∧ k = destKey) → f'.value s k = f.value s k
  sections : ∀ s, s ≠ dest → f' s = f s

/-- The key has the value that the source had, the source is gone, and everything else is as before. -/
structure KeyMoved (f f' : Sections) (src srcKey dest destKey : CString) : Prop where
  here : ∃ value, f.value src srcKey = some value ∧ f'.value dest destKey = some value
  gone : f'.value src srcKey = none
  other : ∀ s k, ¬ (s = dest ∧ k = destKey) → ¬ (s = src ∧ k = srcKey) → f'.value s k = f.value s k
  sections : ∀ s, s ≠ dest → s ≠ src → f' s = f s

theorem KeyCopied.moved {f f' : Sections} {src srcKey dest destKey : CString} (h : KeyCopied f f' src srcKey dest destKey)
    (hapart : ¬ (src = dest ∧ srcKey = destKey)) : KeyMoved f (f'.removeKey src srcKey) src srcKey dest destKey := by
  obtain ⟨value, hsrc, hdest⟩ := h.here
  refine ⟨⟨value, hsrc, ?_⟩, ?_, fun s k hdest hsrc => ?_, fun s hdest hsrc => ?_⟩
  · rw [value_removeKey, if_neg fun h => hapart ⟨h.1.symm, h.2.symm⟩, hdest]
  · rw [value_removeKey, if_pos ⟨rfl, rfl⟩]
  · rw [value_removeKey, if_neg hsrc, h.other s k hdest]
  · exact (Function.update_of_ne hsrc ..).trans (h.sections s hdest)

section Keys
variable {lpSrcSection lpSrcKey : Option CString} {lpDestSection : CString} {lpDestKey : Option KeyName} {RES : Bool} {d' : Disk}

theorem copyKey_safe (h : copyKey ok fuel lpSrcSection lpSrcKey lpDestSection lpDestKey bFailIfExist d = some (RES, d')) :
    (RES = true → ∃ src srcKey destKey, lpSrcSection = some src ∧ lpSrcKey = some srcKey ∧ lpDestKey = some destKey ∧
      ¬ (fold src = fold lpDestSection ∧ fold srcKey = foldKey destKey) ∧
      KeyCopied d.file d'.file (fold src) (fold srcKey) (fold lpDestSection) (foldKey destKey)) ∧
    (RES = false → d'.file = d.file) := by
  rcases copyKey_cases h with heq | ⟨src, srcKey, destKey, rfl, rfl, rfl, hwritten⟩
  · obtain ⟨rfl, rfl⟩ := Prod.mk.inj heq
    exact ⟨fun h => absurd h Bool.false_ne_true, fun _ => rfl⟩
  · obtain ⟨value, hvalue, hresult⟩ := hwritten.result
    have hok : (d.write ok fun f => f.setValue (fold lpDestSection) destKey value).1 = RES := (congrArg Prod.fst hresult).symm
    have hfile : (d.write ok fun f => f.setValue (fold lpDestSection) destKey value).2.file = d'.file :=
      (congrArg (fun r => r.2.file) hresult).symm
    refine ⟨fun hRES => ⟨src, srcKey, destKey, rfl, rfl, rfl, hwritten.apart, ?_⟩, fun hRES => ?_⟩
    · rw [← hfile, Disk.write_true (hok.trans hRES)]
      refine ⟨⟨value, hvalue, ?_⟩, fun s k hother => ?_, fun s hs => Function.update_of_ne hs ..⟩
      · rw [value_setValue, if_pos ⟨rfl, rfl⟩]
      · rw [value_setValue, if_neg hother]
    · rw [← hfile, Disk.write_false (hok.trans hRES)]

theorem moveKey_safe (h : moveKey ok fuel lpSrcSection lpSrcKey lpDestSection lpDestKey bFailIfExist d = some (RES, d')) :
    (RES = true → ∃ src srcKey destKey, lpSrcSection = some src ∧ lpSrcKey = some srcKey ∧ lpDestKey = some destKey ∧
      KeyMoved d.file d'.file (fold src) (fold srcKey) (fold lpDestSection) (foldKey destKey)) ∧
    (RES = false → d'.file = d.file ∨ ∃ src srcKey destKey, lpSrcSection = some src ∧ lpSrcKey = some srcKey ∧
      lpDestKey = some destKey ∧ KeyCopied d.file d'.file (fold src) (fold srcKey) (fold lpDestSection) (foldKey destKey)) := by
  obtain ⟨⟨b, d1⟩, hcopy, hr⟩ := Option.map_eq_some_iff.1 h
  obtain ⟨htrue, hfalse⟩ := copyKey_safe hcopy
  cases b with
  | false =>
    obtain ⟨rfl, rfl⟩ := Prod.mk.inj hr
    exact ⟨fun h => absurd h Bool.false_ne_true, fun _ => Or.inl (hfalse rfl)⟩
  | true =>
    obtain ⟨src, srcKey, destKey, rfl, rfl, rfl, hapart, hcopied⟩ := htrue rfl
    have hdelete : deleteKey ok src srcKey d1 = (RES, d') := hr
    have hok : (deleteKey ok src srcKey d1).1 = RES := congrArg Prod.fst hdelete
    have hfile : (deleteKey ok src srcKey d1).2.file = d'.file := congrArg (fun r => r.2.file) hdelete
    refine ⟨fun hRES => ⟨src, srcKey, destKey, rfl, rfl, rfl, ?_⟩, fun hRES => Or.inr ⟨src, srcKey, destKey, rfl, rfl, rfl, ?_⟩⟩
    · have hremoved : d'.file = d1.file.removeKey (fold src) (fold srcKey) := hfile.symm.trans (Disk.write_true (hok.trans hRES))
      rw [hremoved]
      exact hcopied.moved hapart
    · have hkept : d'.file = d1.file := hfile.symm.trans (Disk.write_false (hok.trans hRES))
      rw [hkept]
      exact hcopied

end Keys

theorem readable_testString : Readable testString := by
  have hlength : testString.length = 38 := rfl
  show testString.length + 1 < 2 ^ 32 - 512
  omega

/-- With enough turns a text that a `DWORD` can measure is read. -/
theorem getStringDynamic_returns {f : Profile} {sec key text : CString} {lpDefault : Option CString}
    (htext : (f sec key).getD (lpDefault.getD []) = text) (hread : Readable text) :
    getStringDynamic (2 ^ 32) f (some sec) (some key) lpDefault = some text := by
  have hmax : text.length + 1 < 2 ^ 32 := hread.trans (by decide)
  refine getStringDynamic_readable htext hread (hmax.trans_le ?_)
  exact (Nat.le_succ _).trans (Nat.le_mul_of_pos_left _ (by decide))

theorem isKeyExist_returns {sec key : CString} (hread : ∀ value, d.file.value (fold sec) (fold key) = some value → Readable value.1) :
    (isKeyExist (2 ^ 32) d sec key).isSome = true := by
  unfold isKeyExist
  rw [Option.isSome_map]
  cases hvalue : d.file.value (fold sec) (fold key) with
  | none =>
    rw [getStringDynamic_returns (profile_none hvalue testString) readable_testString]
    rfl
  | some value =>
    rw [getStringDynamic_returns (profile_some hvalue _) (hread value hvalue)]
    rfl

/-- Keys whose texts a `DWORD` can measure are copied in the end. -/
theorem copyKey_returns (ok : ℕ → Bool) {src srcKey lpDestSection : CString} {destKey : KeyName}
    (hread : ∀ sec key value, d.file.value sec key = some value → Readable value.1) :
    (copyKey ok (2 ^ 32) (some src) (some srcKey) lpDestSection (some destKey) bFailIfExist d).isSome = true := by
  unfold copyKey
  simp only
  split
  · rfl
  · obtain ⟨exist, hexist⟩ := Option.isSome_iff_exists.1 (isKeyExist_returns (hread (fold src) (fold srcKey)))
    rw [hexist, Option.bind_some]
    cases exist with
    | false => rfl
    | true =>
      have hdest : ∃ b, (if bFailIfExist then isKeyExist (2 ^ 32) d lpDestSection destKey.1 else some false) = some b := by
        cases bFailIfExist with
        | false => exact ⟨false, rfl⟩
        | true => exact Option.isSome_iff_exists.1 (isKeyExist_returns (hread (fold lpDestSection) (fold destKey.1)))
      obtain ⟨b, hb⟩ := hdest
      rw [hb]
      cases b with
      | true => rfl
      | false =>
        obtain ⟨value, hvalue⟩ := isKeyExist_true hexist
        show (Option.map _ _).isSome = true
        rw [Option.isSome_map, getStringDynamic_returns (profile_some hvalue _) (hread _ _ value hvalue)]
        rfl

/-- A file with the section `a`, where the key `k` is `1`, and the section `b`, where it is `2`. -/
def twoSections : Disk where
  file := fun s =>
    if s = [0x61] then some [(⟨[0x6b], by decide⟩, ⟨[0x31], by decide⟩)]
    else if s = [0x62] then some [(⟨[0x6b], by decide⟩, ⟨[0x32], by decide⟩)]
    else none
  writes := 0

end StarLib.Ini
