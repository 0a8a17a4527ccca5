import StarLib.Ini.DataBlock

/-! # Blocks appended to blocks

What `GetDataBlock` returns after `WriteDataBlock` and any number of `AppendDataBlock`.
-/

namespace StarLib.Ini
open Foundations
set_option autoImplicit false
set_option maxHeartbeats 250000
set_option maxRecDepth 120000

/-! ## A window of the data -/

/-- `dest'` is `dest` with `w` written at its start. -/
structure Window (w : List Byte) (dest dest' : Buf Byte) : Prop where
  len : dest'.len = dest.len
  inside : dest'.inside = dest.inside
  cells : ∀ i, dest'.cell i = w.getD i (dest.cell i)

theorem readPair_hexOf {data : List Byte} {i : ℕ} (hi : i < data.length) :
    readPair ((hexOf data).drop (2 * i)) = data[i] := by
  rw [hexOf_drop, List.drop_eq_getElem_cons hi, hexOf_cons]
  exact (hexPair_facts data[i]).2

theorem getDataBlock_window {fuel : ℕ} {f : Profile} {sec key : CString} {data : List Byte}
    (hget : getStringDynamic fuel f (some sec) (some key) none = some (hexOf data)) (hread : Readable (hexOf data))
    (n k : ℕ) {dest : Buf Byte} (hn : n ≤ dest.len) :
    ∃ dest', getDataBlock fuel f (some sec) (some key) (some dest) n k =
        some (((data.drop k).take n).length, some dest') ∧ Window ((data.drop k).take n) dest dest' := by
  have hmax : (hexOf data).length + 1 < 2 ^ 32 - threshold := hread
  rw [hexOf_length] at hmax
  have hlen : (hexOf data).length / 2 = data.length := by
    rw [hexOf_length]
    omega
  unfold getDataBlock
  rw [hget]
  simp only
  rw [hlen, hexOf_all, if_pos rfl]
  by_cases hk : data.length ≤ k
  · have hw : (data.drop k).take n = [] := by rw [List.drop_eq_nil_of_le hk, List.take_nil]
    rw [if_pos hk, hw]
    exact ⟨dest, rfl, rfl, rfl, fun i => rfl⟩
  · have hoffset : dword (k * 2) = 2 * k := by
      rw [dword_of_lt (by omega), Nat.mul_comm]
    have hcount : min (data.length - k) n = ((data.drop k).take n).length := by
      rw [List.length_take, List.length_drop, Nat.min_comm]
    rw [if_neg hk, hoffset, hexOf_drop, hcount]
    refine ⟨_, rfl, ?_⟩
    generalize hw : (data.drop k).take n = w
    have hfit : w.length ≤ dest.len := by
      rw [← hw, List.length_take]
      omega
    obtain ⟨hlen', hinside, hcell⟩ := Buf.put_loop (fun i => readPair ((hexOf (data.drop k)).drop (2 * i))) w.length dest
    refine ⟨hlen', ?_, fun i => ?_⟩
    · rw [hinside, decide_eq_true hfit, Bool.and_true]
    · rw [hcell]
      by_cases hi : i < w.length
      · have hi' : i < (data.drop k).length := by
          rw [← hw, List.length_take] at hi
          omega
        rw [if_pos hi, readPair_hexOf hi', List.getD_eq_getElem?_getD, List.getElem?_eq_getElem hi]
        simp [← hw]
      · rw [if_neg hi, List.getD_eq_default _ _ (Nat.not_lt.1 hi)]

/-! ## Runs -/

/-- `AppendDataBlock` of one block after the other, each buffer over what is in memory at its time. -/
def appendBlocks (build : Build) (fuel : ℕ) (sec key : CString) :
    (ℕ → CString) → Profile → List (List Byte) → Option Profile
  | _, f, [] => some f
  | old, f, b :: bs =>
    (appendDataBlock build (old 0) fuel f (some sec) (some key) (some b)).bind fun r =>
      appendBlocks build fuel sec key (fun i => old (i + 1)) r.2 bs

/-- `WriteDataBlock(a)`, then `AppendDataBlock` of each of `bs`. -/
def writeBlocks (build : Build) (fuel : ℕ) (sec key : CString) (old : ℕ → CString) (f : Profile) (a : List Byte)
    (bs : List (List Byte)) : Option Profile :=
  (writeDataBlock build (old 0) f (some sec) (some key) (some a)).bind fun r =>
    appendBlocks build fuel sec key (fun i => old (i + 1)) r.2 bs

/-- After the run every window is read as the blocks have it, and nothing is written outside of it. -/
def ReadsBack (build : Build) (sec key : CString) (old : ℕ → CString) (f : Profile) (a : List Byte)
    (bs : List (List Byte)) : Prop :=
  ∃ fuel f', writeBlocks build fuel sec key old f a bs = some f' ∧
    ∀ (k n : DWORD) (dest : Buf Byte), n.toNat ≤ dest.len →
      let w := ((a ++ bs.flatten).drop k.toNat).take n.toNat
      ∃ dest', getDataBlock fuel f' (some sec) (some key) (some dest) n.toNat k.toNat = some (w.length, some dest') ∧
        Window w dest dest'

/-- The text that the appended blocks add. -/
def appendedText : (ℕ → CString) → List (List Byte) → CString
  | _, [] => []
  | old, b :: bs => blockText (old 0) b ++ appendedText (fun i => old (i + 1)) bs

section Runs

variable (build : Build) (fuel : ℕ) {sec key : CString}

theorem appendDataBlock_readable {f : Profile} {text : CString} (htext : f sec key = some text) (old : CString)
    {b : List Byte} (hb : b.length < 2 ^ 31) (hread : Readable (text ++ blockText old b))
    (hfuel : (text ++ blockText old b).length + 1 < threshold * (fuel + 1)) :
    ∃ r, appendDataBlock build old fuel f (some sec) (some key) (some b) = some r ∧
      r.2 sec key = some (text ++ blockText old b) := by
  refine ⟨writeString f (some sec) (some key) (some (text ++ blockText old b)), ?_, writeString_here _ _ _ _⟩
  unfold appendDataBlock
  simp only
  rw [hexString_eq, if_pos hb]
  exact appendString_readable htext hread hfuel

theorem appendDataBlock_some {f : Profile} {text : CString} (htext : f sec key = some text) (old : CString)
    {b : List Byte} {r : Bool × Profile}
    (h : appendDataBlock build old fuel f (some sec) (some key) (some b) = some r) :
    r.2 sec key = some (text ++ blockText old b) := by
  unfold appendDataBlock at h
  simp only at h
  rw [hexString_eq] at h
  by_cases hb : b.length < 2 ^ 31
  · rw [if_pos hb] at h
    exact appendString_some htext h
  · rw [if_neg hb] at h
    exact absurd h nofun

theorem appendBlocks_readable (old : ℕ → CString) {bs : List (List Byte)} (hbs : ∀ b ∈ bs, b.length < 2 ^ 31)
    {f : Profile} {text : CString} (htext : f sec key = some text) (hread : Readable (text ++ appendedText old bs))
    (hfuel : (text ++ appendedText old bs).length + 1 < threshold * (fuel + 1)) :
    ∃ f', appendBlocks build fuel sec key old f bs = some f' ∧ f' sec key = some (text ++ appendedText old bs) := by
  induction bs generalizing old f text with
  | nil => exact ⟨f, rfl, by rw [htext, appendedText, List.append_nil]⟩
  | cons b bs ih =>
    rw [appendedText, ← List.append_assoc] at hread hfuel
    have hfuel' : (text ++ blockText (old 0) b).length + 1 < threshold * (fuel + 1) := by
      rw [List.length_append] at hfuel
      omega
    obtain ⟨r, hr, hr'⟩ := appendDataBlock_readable build fuel htext (old 0) (hbs b List.mem_cons_self) hread.start hfuel'
    obtain ⟨f', hf', htext'⟩ := ih (fun i => old (i + 1)) (fun b' hb' => hbs b' (List.mem_cons_of_mem b hb')) hr' hread hfuel
    refine ⟨f', ?_, by rw [htext', appendedText, List.append_assoc]⟩
    show (appendDataBlock build (old 0) fuel f (some sec) (some key) (some b)).bind _ = _
    rw [hr]
    exact hf'

theorem appendBlocks_some (old : ℕ → CString) (bs : List (List Byte)) {f f' : Profile} {text : CString}
    (htext : f sec key = some text) (h : appendBlocks build fuel sec key old f bs = some f') :
    f' sec key = some (text ++ appendedText old bs) := by
  induction bs generalizing old f text with
  | nil =>
    rw [appendedText, List.append_nil, ← htext]
    exact congrFun (congrFun (Option.some.inj h).symm sec) key
  | cons b bs ih =>
    have hbind : (appendDataBlock build (old 0) fuel f (some sec) (some key) (some b)).bind
        (fun r => appendBlocks build fuel sec key (fun i => old (i + 1)) r.2 bs) = some f' := h
    obtain ⟨r, hr, hrest⟩ := Option.bind_eq_some_iff.1 hbind
    have hr' := appendDataBlock_some build fuel htext (old 0) hr
    rw [ih (fun i => old (i + 1)) hr' hrest, appendedText, List.append_assoc]

theorem writeBlocks_some (old : ℕ → CString) {f f' : Profile} {a : List Byte} {bs : List (List Byte)}
    (h : writeBlocks build fuel sec key old f a bs = some f') : f' sec key = some (appendedText old (a :: bs)) := by
  obtain ⟨r, hr, hrest⟩ := Option.bind_eq_some_iff.1 h
  unfold writeDataBlock at hr
  simp only at hr
  rw [hexString_eq] at hr
  by_cases ha : a.length < 2 ^ 31
  · rw [if_pos ha] at hr
    have hr' : r.2 sec key = some (blockText (old 0) a) := by
      rw [← Option.some.inj hr]
      exact writeString_here _ _ _ _
    exact appendBlocks_some build fuel (fun i => old (i + 1)) bs hr' hrest
  · rw [if_neg ha] at hr
    exact absurd hr nofun

theorem writeBlocks_readable (old : ℕ → CString) (f : Profile) {a : List Byte} {bs : List (List Byte)}
    (hbs : ∀ b ∈ a :: bs, b.length < 2 ^ 31) (hread : Readable (appendedText old (a :: bs)))
    (hfuel : (appendedText old (a :: bs)).length + 1 < threshold * (fuel + 1)) :
    ∃ f', writeBlocks build fuel sec key old f a bs = some f' ∧ f' sec key = some (appendedText old (a :: bs)) := by
  obtain ⟨f', hf', htext⟩ := appendBlocks_readable build fuel (fun i => old (i + 1))
    (fun b hb => hbs b (List.mem_cons_of_mem a hb)) (writeString_here f sec key (blockText (old 0) a)) hread hfuel
  refine ⟨f', ?_, htext⟩
  unfold writeBlocks writeDataBlock
  simp only
  rw [hexString_eq, if_pos (hbs a List.mem_cons_self)]
  exact hf'

end Runs

/-! ## The blocks read back -/

theorem appendedText_nonempty (old : ℕ → CString) {bs : List (List Byte)} (hbs : ∀ b ∈ bs, b ≠ []) :
    appendedText old bs = hexOf bs.flatten := by
  induction bs generalizing old with
  | nil => rfl
  | cons b bs ih =>
    rw [appendedText, ih (fun i => old (i + 1)) fun b' hb' => hbs b' (List.mem_cons_of_mem b hb'), List.flatten_cons,
      hexOf_append]
    unfold blockText
    rw [if_neg (hbs b List.mem_cons_self)]

/-- Two digits in memory where the buffers are. -/
def zeroDigits : ℕ → CString := fun _ => [0x30, 0x30]

/-- Over `zeroDigits` an empty block is written as the byte 0. -/
def padded (bs : List (List Byte)) : List Byte := bs.flatMap fun b => if b = [] then [0] else b

theorem appendedText_zeroDigits (bs : List (List Byte)) : appendedText zeroDigits bs = hexOf (padded bs) := by
  induction bs with
  | nil => rfl
  | cons b bs ih =>
    have hpadded : padded (b :: bs) = (if b = [] then [0] else b) ++ padded bs := rfl
    show blockText [0x30, 0x30] b ++ appendedText zeroDigits bs = _
    rw [ih, hpadded, hexOf_append]
    congr 1
    unfold blockText
    by_cases hb : b = []
    · rw [if_pos hb, if_pos hb]
      rfl
    · rw [if_neg hb, if_neg hb]

theorem padded_length (bs : List (List Byte)) : (padded bs).length = bs.flatten.length + bs.countP (·.isEmpty) := by
  induction bs with
  | nil => rfl
  | cons b bs ih =>
    have hpadded : padded (b :: bs) = (if b = [] then [0] else b) ++ padded bs := rfl
    rw [hpadded, List.length_append, ih, List.flatten_cons, List.length_append, List.countP_cons]
    by_cases hb : b = []
    · rw [if_pos hb, hb]
      simp
      omega
    · rw [if_neg hb]
      simp [hb]
      omega

/-- Where the blocks are read back over `zeroDigits`, none of them is empty and the text is not too long. -/
theorem readsBack_zeroDigits {build : Build} {sec key : CString} {f : Profile} {a : List Byte} {bs : List (List Byte)}
    (h : ReadsBack build sec key zeroDigits f a bs) :
    (∀ b ∈ a :: bs, b ≠ []) ∧ Readable (hexOf (a ++ bs.flatten)) := by
  obtain ⟨fuel, f', hrun, hwindow⟩ := h
  have htext := writeBlocks_some build fuel zeroDigits hrun
  rw [appendedText_zeroDigits] at htext
  -- the window over everything
  obtain ⟨dest', hwhole, -⟩ := hwindow 0 (BitVec.allOnes 32) ⟨2 ^ 32, fun _ => 0, true⟩ (by decide)
  have hget : getStringDynamic fuel f' (some sec) (some key) none = some (hexOf (padded (a :: bs))) ∧
      Readable (hexOf (padded (a :: bs))) := by
    cases hget : getStringDynamic fuel f' (some sec) (some key) none with
    | none =>
      unfold getDataBlock at hwhole
      rw [hget] at hwhole
      exact absurd hwhole nofun
    | some psz =>
      obtain ⟨rfl, hread⟩ := getStringDynamic_some (stored_text htext) hget
      exact ⟨rfl, hread⟩
  obtain ⟨hget, hread⟩ := hget
  obtain ⟨dest'', hwhole', -⟩ := getDataBlock_window hget hread (BitVec.allOnes 32).toNat 0
    (show _ ≤ (⟨2 ^ 32, fun _ => 0, true⟩ : Buf Byte).len by decide)
  have hmax : (hexOf (padded (a :: bs))).length + 1 < 2 ^ 32 - threshold := hread
  have hthreshold : threshold = 512 := rfl
  rw [hexOf_length, hthreshold] at hmax
  have hones : (BitVec.allOnes 32).toNat = 2 ^ 32 - 1 := by decide
  have hzero : (0 : DWORD).toNat = 0 := rfl
  have hcount : ((padded (a :: bs)).drop 0).take (2 ^ 32 - 1) = padded (a :: bs) := by
    rw [List.drop_zero, List.take_of_length_le (by omega)]
  have hsame := hwhole'.symm.trans hwhole
  rw [hones, hzero, hcount] at hsame
  have hlength := (Prod.mk.inj (Option.some.inj hsame)).1
  have hpadded := padded_length (a :: bs)
  have hflat : (a :: bs).flatten = a ++ bs.flatten := List.flatten_cons
  rw [hflat] at hpadded
  rw [List.drop_zero, List.length_take] at hlength
  have hnone : (a :: bs).countP (·.isEmpty) = 0 := by omega
  have hall : ∀ b ∈ a :: bs, b ≠ [] := by
    intro b hb hempty
    have := List.countP_eq_zero.1 hnone b hb
    rw [hempty] at this
    exact this rfl
  refine ⟨hall, ?_⟩
  unfold Readable
  rw [hexOf_length, hthreshold]
  omega

/-- Whatever is in memory where the buffers are, the blocks are read back, exactly when no block is empty and the
text of all of them can be read. -/
theorem dataBlocks_iff (build : Build) (sec key : CString) (f : Profile) (a : List Byte) (bs : List (List Byte)) :
    (∀ old, ReadsBack build sec key old f a bs) ↔
      (∀ b ∈ a :: bs, b ≠ []) ∧ 2 * (a ++ bs.flatten).length + 1 < 2 ^ 32 - threshold := by
  have hiff : Readable (hexOf (a ++ bs.flatten)) ↔ 2 * (a ++ bs.flatten).length + 1 < 2 ^ 32 - threshold := by
    unfold Readable
    rw [hexOf_length]
  rw [← hiff]
  constructor
  · intro h
    exact readsBack_zeroDigits (h zeroDigits)
  · rintro ⟨hbs, hread⟩ old
    have htext : appendedText old (a :: bs) = hexOf (a ++ bs.flatten) := appendedText_nonempty old hbs
    have hmax := hiff.1 hread
    have hsmall : ∀ b ∈ a :: bs, b.length < 2 ^ 31 := by
      intro b hb
      have hle : b.length ≤ (a :: bs).flatten.length := (List.sublist_flatten_of_mem hb).length_le
      rw [List.flatten_cons] at hle
      omega
    generalize hfuel : (2 * (a ++ bs.flatten).length + 1) = fuel
    have hthreshold : threshold = 512 := rfl
    have henough : (hexOf (a ++ bs.flatten)).length + 1 < threshold * (fuel + 1) := by
      rw [hexOf_length, hthreshold]
      omega
    obtain ⟨f', hrun, hf'⟩ := writeBlocks_readable build fuel old f hsmall (by rw [htext]; exact hread)
      (by rw [htext]; exact henough)
    rw [htext] at hf'
    refine ⟨fuel, f', hrun, fun k n dest hn => ?_⟩
    exact getDataBlock_window (getStringDynamic_readable (stored_text hf') hread henough) hread n.toNat k.toNat hn

/-- `WriteDataBlock(0x41); AppendDataBlock` of no bytes, with two digits in memory. -/
theorem emptyBlock_garbage : ¬ ReadsBack .secure [0x53] [0x4b] zeroDigits (fun _ _ => none) [0x41] [[]] := fun h =>
  (readsBack_zeroDigits h).1 [] (List.mem_cons_of_mem _ (List.mem_singleton_self _)) rfl

end StarLib.Ini
