import StarLib.Zip.Session

/-! # Names from an archive

Whatever an archive consists of, an entry has a name that neither is absolute nor leads up again from inside.
-/

namespace StarLib.Zip
open Foundations
set_option autoImplicit false
set_option maxHeartbeats 250000
set_option maxRecDepth 120000

/-! ## Chopping -/

def Separator (c : Byte) : Prop := c = 0x5c ∨ c = 0x2f

/-- A name relative to the folder it is put into, without a `..` between two separators. -/
structure SafeName (sfn : List Byte) : Prop where
  drive : sfn.getD 1 0 ≠ 0x3a
  relative : ∀ c ∈ sfn.head?, ¬ Separator c
  inside : ∀ s s', Separator s → Separator s' → ¬ [s, 0x2e, 0x2e, s'] <:+: sfn

theorem afterPart_none {sfn : List Byte} {parts : List (List Byte)} (h : afterPart sfn parts = none) :
    ∀ part ∈ parts, ¬ part <:+: sfn := by
  induction parts with
  | nil => exact fun part hpart => absurd hpart List.not_mem_nil
  | cons part parts ih =>
    unfold afterPart at h
    cases hmatch : firstMatch part sfn with
    | some i =>
      simp only [hmatch] at h
      exact absurd h (Option.some_ne_none _)
    | none =>
      simp only [hmatch] at h
      intro part' hpart'
      rcases List.mem_cons.1 hpart' with rfl | hpart'
      · rintro ⟨before, rest, rfl⟩
        refine firstMatch_none hmatch before.length ?_
        rw [List.append_assoc, List.drop_left]
        exact List.prefix_append ..
      · exact ih h part' hpart'

/-- The part that was found is left out. -/
theorem afterPart_shorter {sfn sfn' : List Byte} {parts : List (List Byte)} (hparts : ∀ part ∈ parts, part.length = 4)
    (h : afterPart sfn parts = some sfn') : sfn' <:+ sfn ∧ sfn'.length < sfn.length := by
  induction parts with
  | nil => exact absurd h (Option.some_ne_none _).symm
  | cons part parts ih =>
    unfold afterPart at h
    cases hmatch : firstMatch part sfn with
    | none =>
      simp only [hmatch] at h
      exact ih (fun part' hpart' => hparts part' (List.mem_cons_of_mem _ hpart')) h
    | some i =>
      simp only [hmatch, Option.some.injEq] at h
      have hlength := hparts part (List.mem_cons_self ..)
      have hprefix := (firstMatch_some hmatch).1.length_le
      rw [List.length_drop] at hprefix
      rw [← h, List.length_drop]
      exact ⟨List.drop_suffix .., by omega⟩

theorem chop_shorter {sfn sfn' : List Byte} (h : chop sfn = some sfn') : sfn' <:+ sfn ∧ sfn'.length < sfn.length := by
  have hsome : ∀ n, 0 < n → sfn ≠ [] → sfn.drop n <:+ sfn ∧ (sfn.drop n).length < sfn.length := fun n hn hne => by
    have hpos := List.length_pos_of_ne_nil hne
    rw [List.length_drop]
    exact ⟨List.drop_suffix .., by omega⟩
  unfold chop at h
  by_cases hdrive : sfn.getD 1 0 = 0x3a
  · rw [if_pos hdrive] at h
    rw [← Option.some.inj h]
    refine hsome 2 (by decide) fun hnil => ?_
    rw [hnil] at hdrive
    exact absurd hdrive (by decide)
  rw [if_neg hdrive] at h
  by_cases hback : sfn.head? = some 0x5c
  · rw [if_pos hback] at h
    rw [← Option.some.inj h]
    refine hsome 1 (by decide) fun hnil => ?_
    rw [hnil] at hback
    exact absurd hback (by simp)
  rw [if_neg hback] at h
  by_cases hslash : sfn.head? = some 0x2f
  · rw [if_pos hslash] at h
    rw [← Option.some.inj h]
    refine hsome 1 (by decide) fun hnil => ?_
    rw [hnil] at hslash
    exact absurd hslash (by simp)
  rw [if_neg hslash] at h
  exact afterPart_shorter (by decide) h

theorem chop_none {sfn : List Byte} (h : chop sfn = none) : SafeName sfn := by
  unfold chop at h
  by_cases hdrive : sfn.getD 1 0 = 0x3a
  · rw [if_pos hdrive] at h
    exact absurd h (Option.some_ne_none _)
  rw [if_neg hdrive] at h
  by_cases hback : sfn.head? = some 0x5c
  · rw [if_pos hback] at h
    exact absurd h (Option.some_ne_none _)
  rw [if_neg hback] at h
  by_cases hslash : sfn.head? = some 0x2f
  · rw [if_pos hslash] at h
    exact absurd h (Option.some_ne_none _)
  rw [if_neg hslash] at h
  refine ⟨hdrive, ?_, ?_⟩
  · rintro c hc (rfl | rfl)
    · exact hback hc
    · exact hslash hc
  · rintro s s' (rfl | rfl) (rfl | rfl)
    all_goals exact afterPart_none h _ (by decide)

/-- The loop ends with a safe name, and only leaves out what is in front. -/
theorem safeName_spec {fuel : ℕ} {sfn : List Byte} (hfuel : sfn.length ≤ fuel) :
    safeName fuel sfn <:+ sfn ∧ SafeName (safeName fuel sfn) := by
  induction fuel generalizing sfn with
  | zero =>
    rw [List.eq_nil_of_length_eq_zero (Nat.le_zero.1 hfuel)]
    exact ⟨List.suffix_refl _, chop_none rfl⟩
  | succ fuel ih =>
    unfold safeName
    cases hchop : chop sfn with
    | none => exact ⟨List.suffix_refl _, chop_none hchop⟩
    | some sfn' =>
      obtain ⟨hsuffix, hlength⟩ := chop_shorter hchop
      obtain ⟨hrest, hsafe⟩ := ih (by omega : sfn'.length ≤ fuel)
      exact ⟨hrest.trans hsuffix, hsafe⟩

/-! ## Any archive, any session -/

variable {ι : Type} {z : Inflater ι} {fileTime : SYSTEMTIME → FILETIME} {turns : ℕ}

/-- The entries in an answer. -/
def Answer.entries : Answer → List ZIPENTRY
  | .entry (.ok ze) => [ze]
  | .found (.ok res) => [res.2]
  | _ => []

/-- The entry that is remembered is safe. -/
def Keeps (u : TUnzip ι) : Prop := ∀ c ∈ u.cached, SafeName c.2.name

theorem getEntry_safe {s s' : unz_s ι} {ze : ZIPENTRY} (h : getEntry fileTime s = some (.ok ze, s')) :
    SafeName ze.name := by
  unfold getEntry at h
  simp only [bind, Option.bind_eq_some_iff, pure] at h
  obtain ⟨⟨ufi, fn, uf⟩, -, h⟩ := h
  split at h
  · exact absurd h (Option.some_ne_none _).symm
  obtain ⟨⟨res, size, offset, extralen, file⟩, -, h⟩ := Option.bind_eq_some_iff.1 h
  split at h
  · exact absurd (congrArg Prod.fst (Option.some.inj h)) (by simp)
  obtain ⟨⟨extra, file'⟩, -, h⟩ := Option.bind_eq_some_iff.1 h
  split at h
  · exact absurd (congrArg Prod.fst (Option.some.inj h)) (by simp)
  obtain ⟨times, -, h⟩ := Option.bind_eq_some_iff.1 h
  have hze := Except.ok.inj (congrArg Prod.fst (Option.some.inj h))
  rw [← hze]
  exact (safeName_spec (Nat.le_refl fn.length)).2

variable {u u' : TUnzip ι}

theorem Keeps.close (h : Keeps u) : Keeps u.close := by
  intro c hc
  rw [(close_fields u).2.1] at hc
  exact h c hc

theorem getAt_keeps {index : ℕ} {res : Except ZRESULT ZIPENTRY} (hu : Keeps u)
    (h : u.getAt fileTime turns index = .done (res, u')) : (∀ ze, res = .ok ze → SafeName ze.name) ∧ Keeps u' := by
  unfold TUnzip.getAt at h
  split at h
  · exact absurd h (by simp)
  · exact absurd h (by simp)
  next uf hgo =>
    split at h
    · exact absurd h (by simp)
    · next res' uf' hget =>
      obtain ⟨rfl, rfl⟩ := Prod.mk.inj (Outcome.done.inj h)
      exact ⟨fun ze hze => absurd hze (by simp), hu⟩
    · next ze uf' hget =>
      have hsafe := getEntry_safe hget
      obtain ⟨rfl, rfl⟩ := Prod.mk.inj (Outcome.done.inj h)
      refine ⟨fun ze' hze => Except.ok.inj hze ▸ hsafe, fun c hc => ?_⟩
      rw [← Option.some.inj hc]
      exact hsafe

theorem Get_keeps {index : ℤ} {res : Except ZRESULT ZIPENTRY} (hu : Keeps u)
    (h : u.Get fileTime turns index = .done (res, u')) : (∀ ze, res = .ok ze → SafeName ze.name) ∧ Keeps u' := by
  unfold TUnzip.Get at h
  split at h
  · obtain ⟨rfl, rfl⟩ := Prod.mk.inj (Outcome.done.inj h)
    exact ⟨fun ze hze => absurd hze (by simp), hu⟩
  dsimp only at h
  split at h
  · obtain ⟨rfl, rfl⟩ := Prod.mk.inj (Outcome.done.inj h)
    refine ⟨fun ze hze => ?_, hu.close⟩
    rw [← Except.ok.inj hze]
    exact chop_none rfl
  · split at h
    · next cached hcached =>
      obtain ⟨rfl, rfl⟩ := Prod.mk.inj (Outcome.done.inj h)
      refine ⟨fun ze hze => ?_, hu.close⟩
      rw [← Except.ok.inj hze]
      exact hu.close cached (Option.filter_eq_some_iff.1 hcached).1
    · exact getAt_keeps hu.close h

theorem Find_keeps {name : List Byte} {ic : Bool} {res : Except ZRESULT (ℕ × ZIPENTRY)} (hu : Keeps u)
    (h : u.Find fileTime turns name ic = .done (res, u')) : (∀ r, res = .ok r → SafeName r.2.name) ∧ Keeps u' := by
  unfold TUnzip.Find at h
  split at h
  · exact absurd h (by simp)
  · exact absurd h (by simp)
  · next uf hlocate =>
    have hclosed : Keeps ({ u with uf := uf } : TUnzip ι).close := Keeps.close (u := { u with uf := uf }) hu
    dsimp only at h
    split at h
    · exact absurd h (by simp)
    · exact absurd h (by simp)
    · next res' u'' hget =>
      obtain ⟨-, hkept⟩ := Get_keeps hclosed hget
      obtain ⟨rfl, rfl⟩ := Prod.mk.inj (Outcome.done.inj h)
      exact ⟨fun r hr => absurd hr (by simp), hkept⟩
    · next ze u'' hget =>
      obtain ⟨hsafe, hkept⟩ := Get_keeps hclosed hget
      obtain ⟨rfl, rfl⟩ := Prod.mk.inj (Outcome.done.inj h)
      exact ⟨fun r hr => Except.ok.inj hr ▸ hsafe ze rfl, hkept⟩
  · obtain ⟨rfl, rfl⟩ := Prod.mk.inj (Outcome.done.inj h)
    exact ⟨fun r hr => absurd hr (by simp), hu⟩

theorem openIndex_keeps {index : ℕ} (hu : Keeps u) (h : u.openIndex z turns index = .done (.ok u')) : Keeps u' := by
  unfold TUnzip.openIndex at h
  split at h
  · rw [← Except.ok.inj (Outcome.done.inj h)]
    exact hu
  · dsimp only at h
    split at h
    · exact absurd h (by simp)
    · split at h
      · exact absurd h (by simp)
      · exact absurd h (by simp)
      · split at h
        · exact absurd h (by simp)
        · rw [← Except.ok.inj (Outcome.done.inj h)]
          exact hu.close

theorem Unzip_keeps {index len : ℕ} {res : ZRESULT × List Byte} (hu : Keeps u)
    (h : u.Unzip z turns index len = .done (res, u')) : Keeps u' := by
  unfold TUnzip.Unzip at h
  split at h
  · exact absurd h (by simp)
  · exact absurd h (by simp)
  · rw [← (Prod.mk.inj (Outcome.done.inj h)).2]
    exact hu.close
  · next u'' hopen =>
    have hopened := openIndex_keeps hu hopen
    split at h
    · exact absurd h (by simp)
    · exact absurd h (by simp)
    · rw [← (Prod.mk.inj (Outcome.done.inj h)).2]
      dsimp only
      split
      · exact hopened
      · exact hopened

theorem OpenZip_keeps {buf password : List Byte} (h : OpenZip buf password = some (.ok u)) : Keeps u := by
  unfold OpenZip at h
  obtain ⟨uf, -, hres⟩ := Option.bind_eq_some_iff.1 h
  cases uf with
  | none => exact absurd (Option.some.inj hres) (by simp)
  | some uf =>
    rw [← Except.ok.inj (Option.some.inj hres)]
    exact fun c hc => absurd hc (by simp)

theorem entry_safe {res : Except ZRESULT ZIPENTRY} (h : ∀ ze, res = .ok ze → SafeName ze.name) :
    ∀ ze ∈ (Answer.entry res).entries, SafeName ze.name := by
  intro ze hze
  cases res with
  | error res => exact absurd hze List.not_mem_nil
  | ok ze' =>
    rw [List.mem_singleton.1 hze]
    exact h ze' rfl

theorem found_safe {res : Except ZRESULT (ℕ × ZIPENTRY)} (h : ∀ r, res = .ok r → SafeName r.2.name) :
    ∀ ze ∈ (Answer.found res).entries, SafeName ze.name := by
  intro ze hze
  cases res with
  | error res => exact absurd hze List.not_mem_nil
  | ok r =>
    rw [List.mem_singleton.1 hze]
    exact h r rfl

theorem call_keeps {c : Call} {a : Answer} (hu : Keeps u) (h : u.call z fileTime turns c = .done (a, u')) :
    (∀ ze ∈ a.entries, SafeName ze.name) ∧ Keeps u' := by
  cases c with
  | Get index =>
    obtain ⟨r, hget, hr⟩ := Outcome.map_eq_done h
    obtain ⟨rfl, rfl⟩ := Prod.mk.inj hr
    obtain ⟨hsafe, hkept⟩ := Get_keeps hu hget
    exact ⟨entry_safe hsafe, hkept⟩
  | Find name ic =>
    obtain ⟨r, hfind, hr⟩ := Outcome.map_eq_done h
    obtain ⟨rfl, rfl⟩ := Prod.mk.inj hr
    obtain ⟨hsafe, hkept⟩ := Find_keeps hu hfind
    exact ⟨found_safe hsafe, hkept⟩
  | Unzip index len =>
    obtain ⟨r, hunzip, hr⟩ := Outcome.map_eq_done h
    obtain ⟨rfl, rfl⟩ := Prod.mk.inj hr
    exact ⟨fun ze hze => absurd hze List.not_mem_nil, Unzip_keeps hu hunzip⟩

/-- An archive with the empty file `/b/../../a`. -/
def hostileInfo : TZipFileInfo :=
  ⟨0xb17, 20, 0, 0, 0, 0, 0, 0, 0, 0, 0, 0, 0, [], [], [0x2f, 0x62, 0x2f, 0x2e, 0x2e, 0x2f, 0x2e, 0x2e, 0x2f, 0x61]⟩

def hostileArchive : List Byte := archive [⟨hostileInfo, [], hostileInfo⟩]

def copying : Inflater Unit := ⟨(), fun stream inp avail_out => (.Z_OK, inp.take avail_out, inp.drop avail_out, stream)⟩

/-- The names of the answers, if there are any. -/
def answeredNames (buf : List Byte) (calls : List Call) : Option (List (List Byte)) :=
  match OpenZip buf [] with
  | some (.ok u) =>
    match session (TUnzip.call copying (fun _ => 0) 9) u calls with
    | .done answers => some (answers.flatMap fun a => a.entries.map ZIPENTRY.name)
    | _ => none
  | _ => none

end StarLib.Zip
