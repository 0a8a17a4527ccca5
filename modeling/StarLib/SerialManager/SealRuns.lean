import StarLib.SerialManager.Seal

/-! # Runs of the SEAL stream

After `seal_key` or `seal_resynch` the position is 1024, and the buffer is filled only when the position is
past 1024. So the reads of a run go through 1025 indices: the first one after a synchronisation is at 1024,
behind the buffer, and so is the last one of every refill. Encryption and decryption read the same words and
undo each other all the same.
-/

namespace StarLib.SerialManager
open Foundations
set_option autoImplicit false
set_option maxHeartbeats 250000
set_option maxRecDepth 120000

def sealResynch (c : SealCtx) (synch_word : DWord) : SealCtx :=
  { c with counter := synch_word, ksPos := WORDS_PER_SEAL_CALL }

def sealDecrypt (c : SealCtx) (data : ℕ → DWord) (w : ℕ) : SealRun := sealEncrypt c data w

/-! ## Word by word -/

/-- The context after a word. -/
def sealAdvance (c : SealCtx) : SealCtx := { sealReady c with ksPos := (sealReady c).ksPos + 1 }

/-- The word that a context is about to read. -/
def sealWord (c : SealCtx) : DWord := ksWord (sealReady c)

theorem sealEncrypt_c (c : SealCtx) (data : ℕ → DWord) (w : ℕ) : (sealEncrypt c data w).c = sealAdvance^[w] c := by
  refine forRange_inv (P := fun n (s : SealRun) => s.c = sealAdvance^[n] c) (Nat.zero_le w) rfl ?_
  intro n s _ _ hs
  rw [Function.iterate_succ_apply', ← hs]
  rfl

theorem sealEncrypt_data (c : SealCtx) (data : ℕ → DWord) (w i : ℕ) :
    (sealEncrypt c data w).data i = if i < w then data i ^^^ sealWord (sealAdvance^[i] c) else data i := by
  have hrun := forRange_inv (f := fun i (s : SealRun) =>
      let c := sealReady s.c
      ⟨{ c with ksPos := c.ksPos + 1 }, Function.update s.data i (s.data i ^^^ ksWord c)⟩) (s := ⟨c, data⟩)
    (P := fun n (s : SealRun) => s.c = sealAdvance^[n] c ∧
      ∀ i, s.data i = if i < n then data i ^^^ sealWord (sealAdvance^[i] c) else data i)
    (Nat.zero_le w) ⟨rfl, fun i => (if_neg (Nat.not_lt_zero i)).symm⟩ ?_
  · exact hrun.2 i
  · rintro n s _ _ ⟨hc, hdata⟩
    refine ⟨?_, fun i => ?_⟩
    · rw [Function.iterate_succ_apply', ← hc]
      rfl
    · show Function.update s.data n (s.data n ^^^ ksWord (sealReady s.c)) i = _
      by_cases hi : i = n
      · have hlast : s.data n = data n := by rw [hdata n, if_neg (Nat.lt_irrefl n)]
        rw [hi, Function.update_self, if_pos (Nat.lt_succ_self n), hc, hlast]
        rfl
      · have hiff : i < n + 1 ↔ i < n := by omega
        rw [Function.update_of_ne hi, hdata i]
        simp only [hiff]

/-! ## Where a run reads -/

/-- A read of the key stream: the counter of the block in the buffer, and the index. -/
structure KsRead where
  block : DWord
  index : ℕ

def ksRead (c : SealCtx) : KsRead := ⟨(sealReady c).counter - 1, (sealReady c).ksPos⟩

def ksReads (c : SealCtx) (w : ℕ) : List KsRead := (List.range w).map fun i => ksRead (sealAdvance^[i] c)

inductive SealCall where
  | resynch (synch_word : DWord)
  | encrypt (data : ℕ → DWord) (w : ℤ)
  | decrypt (data : ℕ → DWord) (w : ℤ)

/-- The number of words that a call goes through. -/
def SealCall.words : SealCall → ℕ
  | .resynch _ => 0
  | .encrypt _ w => w.toNat
  | .decrypt _ w => w.toNat

/-- The reads since a synchronisation. -/
structure Segment where
  synch : DWord
  reads : List KsRead

structure SealHistory where
  c : SealCtx
  past : List Segment
  current : Segment

def SealHistory.segments (h : SealHistory) : List Segment := h.past ++ [h.current]

/-- A call of `seal_encrypt` or `seal_decrypt` that has taken the context to `c`. -/
def SealHistory.reading (h : SealHistory) (c : SealCtx) (w : ℕ) : SealHistory :=
  ⟨c, h.past, ⟨h.current.synch, h.current.reads ++ ksReads h.c w⟩⟩

def SealHistory.step (h : SealHistory) : SealCall → SealHistory
  | .resynch synch_word => ⟨sealResynch h.c synch_word, h.segments, ⟨synch_word, []⟩⟩
  | .encrypt data w => h.reading (sealEncrypt h.c data w.toNat).c w.toNat
  | .decrypt data w => h.reading (sealDecrypt h.c data w.toNat).c w.toNat

/-- `seal_key`, then the calls. -/
def sealRun (w : ℕ → ℕ → DWord) (c : SealCtx) (key : List Byte) (calls : List SealCall) : SealHistory :=
  calls.foldl SealHistory.step ⟨sealKey w c key, [], ⟨0, []⟩⟩

/-- What the code reads as word `k` after a synchronisation. -/
def codeRead (synch : DWord) (k : ℕ) : KsRead := ⟨synch + BitVec.ofNat 32 ((k + 1024) / 1025) - 1, (k + 1024) % 1025⟩

/-- The context after `n` words. -/
structure ReadWords (synch : DWord) (n : ℕ) (c : SealCtx) : Prop where
  counter : c.counter = synch + BitVec.ofNat 32 ((n + 1023) / 1025)
  ksPos : c.ksPos = (n + 1023) % 1025 + 1

theorem ReadWords.ready {synch : DWord} {n : ℕ} {c : SealCtx} (h : ReadWords synch n c) :
    (sealReady c).counter = synch + BitVec.ofNat 32 ((n + 1024) / 1025) ∧ (sealReady c).ksPos = (n + 1024) % 1025 := by
  have hpos := h.ksPos
  unfold sealReady
  by_cases hpast : WORDS_PER_SEAL_CALL < c.ksPos
  · rw [if_pos hpast]
    have hlast : 1024 < c.ksPos := hpast
    have hblock : (n + 1024) / 1025 = (n + 1023) / 1025 + 1 := by omega
    refine ⟨?_, ?_⟩
    · show c.counter + 1 = _
      rw [h.counter, hblock, BitVec.ofNat_add, BitVec.add_assoc]
      rfl
    · show 0 = _
      omega
  · rw [if_neg hpast]
    have hin : ¬ 1024 < c.ksPos := hpast
    have hblock : (n + 1024) / 1025 = (n + 1023) / 1025 := by omega
    refine ⟨?_, ?_⟩
    · rw [h.counter, hblock]
    · omega

theorem ReadWords.advance {synch : DWord} {n : ℕ} {c : SealCtx} (h : ReadWords synch n c) :
    ReadWords synch (n + 1) (sealAdvance c) := by
  obtain ⟨hcounter, hpos⟩ := h.ready
  have hidx : n + 1 + 1023 = n + 1024 := by omega
  refine ⟨?_, ?_⟩
  · rw [hidx]
    exact hcounter
  · rw [hidx]
    exact congrArg (· + 1) hpos

theorem ReadWords.iterate {synch : DWord} {n : ℕ} {c : SealCtx} (h : ReadWords synch n c) (m : ℕ) :
    ReadWords synch (n + m) (sealAdvance^[m] c) := by
  induction m with
  | zero => exact h
  | succ m ih =>
    rw [Function.iterate_succ_apply']
    exact ih.advance

theorem ReadWords.ksRead {synch : DWord} {n : ℕ} {c : SealCtx} (h : ReadWords synch n c) :
    ksRead c = codeRead synch n := by
  obtain ⟨hcounter, hpos⟩ := h.ready
  unfold SerialManager.ksRead codeRead
  rw [hcounter, hpos]

theorem readWords_synch (c : SealCtx) (synch : DWord) : ReadWords synch 0 (sealResynch c synch) := by
  refine ⟨?_, rfl⟩
  show synch = synch + 0#32
  rw [BitVec.add_zero]

/-- The reads of a segment are those of `codeRead`, one after the other. -/
def Segment.FollowsCode (s : Segment) : Prop := s.reads = (List.range s.reads.length).map (codeRead s.synch)

structure HistoryFollows (h : SealHistory) : Prop where
  position : ReadWords h.current.synch h.current.reads.length h.c
  segments : ∀ s ∈ h.segments, s.FollowsCode

theorem ksReads_length (c : SealCtx) (w : ℕ) : (ksReads c w).length = w := by simp [ksReads]

theorem Segment.FollowsCode.append {s : Segment} (hs : s.FollowsCode) {c : SealCtx}
    (hc : ReadWords s.synch s.reads.length c) (w : ℕ) :
    Segment.FollowsCode ⟨s.synch, s.reads ++ ksReads c w⟩ := by
  have hreads : ksReads c w = (List.range w).map fun i => codeRead s.synch (s.reads.length + i) :=
    List.map_congr_left fun i _ => (hc.iterate i).ksRead
  unfold Segment.FollowsCode at hs ⊢
  rw [List.length_append, ksReads_length, List.range_add, List.map_append, ← hs, List.map_map, hreads]
  rfl

theorem HistoryFollows.reading {h : SealHistory} (hh : HistoryFollows h) (w : ℕ) :
    HistoryFollows (h.reading (sealAdvance^[w] h.c) w) := by
  refine ⟨?_, fun s hs => ?_⟩
  · show ReadWords h.current.synch (h.current.reads ++ ksReads h.c w).length (sealAdvance^[w] h.c)
    rw [List.length_append, ksReads_length]
    exact hh.position.iterate w
  · rcases List.mem_append.mp hs with hs | hs
    · exact hh.segments s (List.mem_append_left _ hs)
    · rw [List.mem_singleton.mp hs]
      exact (hh.segments h.current (by simp [SealHistory.segments])).append hh.position w

theorem HistoryFollows.step {h : SealHistory} (hh : HistoryFollows h) (call : SealCall) :
    HistoryFollows (h.step call) := by
  cases call with
  | resynch synch_word =>
    refine ⟨readWords_synch h.c synch_word, fun s hs => ?_⟩
    rcases List.mem_append.mp hs with hs | hs
    · exact hh.segments s hs
    · rw [List.mem_singleton.mp hs]
      rfl
  | encrypt data w =>
    have hc := sealEncrypt_c h.c data w.toNat
    show HistoryFollows (h.reading (sealEncrypt h.c data w.toNat).c w.toNat)
    rw [hc]
    exact hh.reading _
  | decrypt data w =>
    have hc := sealEncrypt_c h.c data w.toNat
    show HistoryFollows (h.reading (sealEncrypt h.c data w.toNat).c w.toNat)
    rw [hc]
    exact hh.reading _

theorem sealRun_follows (w : ℕ → ℕ → DWord) (c : SealCtx) (key : List Byte) (calls : List SealCall) :
    HistoryFollows (sealRun w c key calls) := by
  have hstart : HistoryFollows ⟨sealKey w c key, [], ⟨0, []⟩⟩ := by
    refine ⟨readWords_synch (sealInit w c key) 0, fun s hs => ?_⟩
    rw [List.mem_singleton.mp hs]
    rfl
  have hrun : ∀ h, HistoryFollows h → HistoryFollows (calls.foldl SealHistory.step h) := by
    induction calls with
    | nil => exact fun h hh => hh
    | cons call calls ih => exact fun h hh => ih _ (hh.step call)
  exact hrun _ hstart

/-! ## Undoing -/

/-- A message that goes through the stream in several calls, of the lengths `ws`, from word `off` on. -/
def cryptCalls (c : SealCtx) (data : ℕ → DWord) (off : ℕ) : List ℕ → SealRun
  | [] => ⟨c, data⟩
  | w :: ws =>
    let r := sealEncrypt c (fun i => data (off + i)) w
    cryptCalls r.c (fun i => if i < off then data i else r.data (i - off)) (off + w) ws

theorem cryptCalls_data (c : SealCtx) (data : ℕ → DWord) (off : ℕ) (ws : List ℕ) (i : ℕ) :
    (cryptCalls c data off ws).data i =
      if off ≤ i ∧ i < off + ws.sum then data i ^^^ sealWord (sealAdvance^[i - off] c) else data i := by
  induction ws generalizing c data off with
  | nil =>
    have hno : ¬ (off ≤ i ∧ i < off + 0) := by omega
    exact (if_neg hno).symm
  | cons w ws ih =>
    unfold cryptCalls
    simp only
    rw [ih, sealEncrypt_c, sealEncrypt_data, ← Function.iterate_add_apply, List.sum_cons]
    by_cases hbefore : i < off
    · have hno : ¬ (off + w ≤ i ∧ i < off + w + ws.sum) := by omega
      have hno' : ¬ (off ≤ i ∧ i < off + (w + ws.sum)) := by omega
      rw [if_neg hno, if_neg hno', if_pos hbefore]
    · have hback : off + (i - off) = i := by omega
      rw [if_neg hbefore, hback]
      by_cases hfirst : i - off < w
      · have hno : ¬ (off + w ≤ i ∧ i < off + w + ws.sum) := by omega
        have hyes : off ≤ i ∧ i < off + (w + ws.sum) := by omega
        rw [if_neg hno, if_pos hyes, if_pos hfirst]
      · have hiff : (off + w ≤ i ∧ i < off + w + ws.sum) ↔ (off ≤ i ∧ i < off + (w + ws.sum)) := by omega
        have hsteps : off + w ≤ i → i - (off + w) + w = i - off := by omega
        rw [if_neg hfirst]
        simp only [hiff]
        refine ite_congr rfl (fun hin => ?_) fun _ => rfl
        rw [hsteps (by omega)]

/-- The tables of a context, which only `seal_key` writes. -/
structure SameTables (c c' : SealCtx) : Prop where
  t : c.t = c'.t
  s : c.s = c'.s
  r : c.r = c'.r

theorem sealAdvance_tables (c : SealCtx) (n : ℕ) : SameTables (sealAdvance^[n] c) c := by
  induction n with
  | zero => exact ⟨rfl, rfl, rfl⟩
  | succ n ih =>
    rw [Function.iterate_succ_apply']
    have hready : ∀ c, SameTables (sealReady c) c := by
      intro c
      unfold sealReady
      split
      · exact ⟨rfl, rfl, rfl⟩
      · exact ⟨rfl, rfl, rfl⟩
    have hnext := hready (sealAdvance^[n] c)
    exact ⟨hnext.t.trans ih.t, hnext.s.trans ih.s, hnext.r.trans ih.r⟩

theorem sealRun_tables (w : ℕ → ℕ → DWord) (c : SealCtx) (key : List Byte) (calls : List SealCall) :
    SameTables (sealRun w c key calls).c (sealKey w c key) := by
  have hcrypt : ∀ c data w, SameTables (sealEncrypt c data w).c c := by
    intro c data w
    rw [sealEncrypt_c]
    exact sealAdvance_tables c w
  have hstep : ∀ (h : SealHistory) call, SameTables (h.step call).c h.c := by
    intro h call
    cases call with
    | resynch synch_word => exact ⟨rfl, rfl, rfl⟩
    | encrypt data w => exact hcrypt h.c data w.toNat
    | decrypt data w => exact hcrypt h.c data w.toNat
  have hrun : ∀ h : SealHistory, SameTables (calls.foldl SealHistory.step h).c h.c := by
    induction calls with
    | nil => exact fun h => ⟨rfl, rfl, rfl⟩
    | cons call calls ih =>
      intro h
      have hfirst := hstep h call
      have hrest := ih (h.step call)
      exact ⟨hrest.t.trans hfirst.t, hrest.s.trans hfirst.s, hrest.r.trans hfirst.r⟩
  exact hrun _

theorem sealResynch_agree {c c' : SealCtx} (ht : AgreeBelow 512 c.t c'.t) (hs : AgreeBelow 256 c.s c'.s)
    (hr : AgreeBelow 16 c.r c'.r) (synch : DWord) : SealAgree (sealResynch c synch) (sealResynch c' synch) :=
  ⟨ht, hs, hr, rfl, rfl, Or.inl (Nat.le_refl _)⟩

/-- Two runs with one key, synchronised with one word. -/
theorem synch_agree (w w' : ℕ → ℕ → DWord) (c c' : SealCtx) (key : List Byte) (calls calls' : List SealCall)
    (synch : DWord) :
    SealAgree (sealResynch (sealRun w c key calls).c synch) (sealResynch (sealRun w' c' key calls').c synch) := by
  have hkey := sealKey_agree w w' c c' key
  have h := sealRun_tables w c key calls
  have h' := sealRun_tables w' c' key calls'
  refine sealResynch_agree ?_ ?_ ?_ synch
  · rw [h.t, h'.t]
    exact hkey.t
  · rw [h.s, h'.s]
    exact hkey.s
  · rw [h.r, h'.r]
    exact hkey.r

theorem SealAgree.iterate {c c' : SealCtx} (h : SealAgree c c') (n : ℕ) :
    SealAgree (sealAdvance^[n] c) (sealAdvance^[n] c') := by
  induction n with
  | zero => exact h
  | succ n ih =>
    rw [Function.iterate_succ_apply', Function.iterate_succ_apply']
    exact (sealReady_agree ih).1.next

theorem SealAgree.sealWord {c c' : SealCtx} (h : SealAgree c c') (n : ℕ) :
    sealWord (sealAdvance^[n] c) = sealWord (sealAdvance^[n] c') := by
  obtain ⟨hready, hpos⟩ := sealReady_agree (h.iterate n)
  exact ksWord_congr hready hpos

/-- Contexts that agree undo each other's work, however the two sides cut the message. -/
theorem cryptCalls_undo {c c' : SealCtx} (h : SealAgree c c') (data : ℕ → DWord) {ws ws' : List ℕ}
    (hsum : ws.sum = ws'.sum) : (cryptCalls c' (cryptCalls c data 0 ws).data 0 ws').data = data := by
  funext i
  rw [cryptCalls_data, cryptCalls_data, hsum, ← h.sealWord]
  split
  · rw [BitVec.xor_assoc, BitVec.xor_self, BitVec.xor_zero]
  · rfl

/-! ## What holds of a run -/

/-- Word `k` of the stream after a synchronisation. -/
def streamRead (synch : DWord) (k : ℕ) : KsRead :=
  ⟨synch + BitVec.ofNat 32 (k / WORDS_PER_SEAL_CALL), k % WORDS_PER_SEAL_CALL⟩

/-- The reads of a run stay in the buffer and go through the stream word by word, and decryption in any
context with the same key undoes encryption after it. -/
structure StreamSound (w : ℕ → ℕ → DWord) (c : SealCtx) (key : List Byte) (calls : List SealCall) : Prop where
  inBounds : ∀ s ∈ (sealRun w c key calls).segments, ∀ r ∈ s.reads, r.index < WORDS_PER_SEAL_CALL
  inOrder : ∀ s ∈ (sealRun w c key calls).segments, s.reads = (List.range s.reads.length).map (streamRead s.synch)
  restores : ∀ (w' : ℕ → ℕ → DWord) (c' : SealCtx) (calls' : List SealCall) (synch : DWord) (data : ℕ → DWord)
    (ws ws' : List ℕ), ws.sum = ws'.sum →
      let enc := cryptCalls (sealResynch (sealRun w c key calls).c synch) data 0 ws
      (cryptCalls (sealResynch (sealRun w' c' key calls').c synch) enc.data 0 ws').data = data

/-- Nothing has been read yet. -/
def SealHistory.Unread (h : SealHistory) : Prop := ∀ s ∈ h.segments, s.reads = []

theorem unread_step (h : SealHistory) (call : SealCall) : (h.step call).Unread ↔ h.Unread ∧ call.words = 0 := by
  have hreading : ∀ c w, (h.reading c w).Unread ↔ h.Unread ∧ w = 0 := by
    intro c w
    have hnil : ksReads h.c w = [] ↔ w = 0 := by rw [← List.length_eq_zero_iff, ksReads_length]
    unfold SealHistory.Unread SealHistory.segments SealHistory.reading
    simp only [List.mem_append, List.mem_singleton, or_imp, forall_and, forall_eq, List.append_eq_nil_iff, hnil, and_assoc]
  cases call with
  | resynch synch_word => simp [SealHistory.Unread, SealHistory.step, SealHistory.segments, SealCall.words, or_imp, forall_and]
  | encrypt data w => exact hreading _ _
  | decrypt data w => exact hreading _ _

theorem unread_run (w : ℕ → ℕ → DWord) (c : SealCtx) (key : List Byte) (calls : List SealCall) :
    (sealRun w c key calls).Unread ↔ ∀ call ∈ calls, call.words = 0 := by
  have hrun : ∀ h : SealHistory,
      (calls.foldl SealHistory.step h).Unread ↔ h.Unread ∧ ∀ call ∈ calls, call.words = 0 := by
    induction calls with
    | nil => simp
    | cons call calls ih =>
      intro h
      rw [List.foldl_cons, ih, unread_step, List.forall_mem_cons, and_assoc]
  have hstart : SealHistory.Unread ⟨sealKey w c key, [], ⟨0, []⟩⟩ := by
    intro s hs
    rw [List.mem_singleton.mp hs]
  exact (hrun _).trans (and_iff_right hstart)

/-- The first read after a synchronisation is behind the buffer. -/
theorem followsCode_bounds {s : Segment} (hs : s.FollowsCode) (hbounds : ∀ r ∈ s.reads, r.index < WORDS_PER_SEAL_CALL) :
    s.reads = [] := by
  by_contra hne
  have hpos : 0 < s.reads.length := List.length_pos_iff.mpr hne
  have hmem : codeRead s.synch 0 ∈ s.reads := by
    rw [hs]
    exact List.mem_map_of_mem (List.mem_range.mpr hpos)
  exact absurd (hbounds _ hmem) (Nat.lt_irrefl 1024)

theorem StreamSound.unread {w : ℕ → ℕ → DWord} {c : SealCtx} {key : List Byte} {calls : List SealCall}
    (h : StreamSound w c key calls) : ∀ call ∈ calls, call.words = 0 :=
  (unread_run w c key calls).mp fun s hs =>
    followsCode_bounds ((sealRun_follows w c key calls).segments s hs) (h.inBounds s hs)

/-- A context of zeros. -/
def emptyContext : SealCtx := ⟨fun _ => 0, fun _ => 0, fun _ => 0, 0, fun _ => 0, 0⟩

end StarLib.SerialManager
