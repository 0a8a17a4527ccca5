import StarLib.Rijndael.KeySchedule

/-! # `CRijndael::EncryptBlock` and `CRijndael::DecryptBlock`

Blocks of 16 bytes take the unrolled `DefEncryptBlock` and `DefDecryptBlock`, the longer ones a loop
over the columns. Both are instances of one block function (`crypt`), which computes the cipher on
columns for whatever mixing and substitution its four tables and its byte table hold.
-/

namespace StarLib.Rijndael
open Foundations
set_option autoImplicit false
set_option maxHeartbeats 250000
set_option maxRecDepth 120000

structure RowTables where
  T1 : List DWord
  T2 : List DWord
  T3 : List DWord
  T4 : List DWord

/-- A column of a round before key addition, from the words that hold its rows. -/
def RowTables.column (T : RowTables) (w x y z : DWord) : DWord :=
  entry T.T1 (byteIndex w 24) ^^^ entry T.T2 (byteIndex x 16) ^^^ entry T.T3 (byteIndex y 8) ^^^
    entry T.T4 (byteIndex z 0)

def encryptionTables : RowTables := ⟨smT1, smT2, smT3, smT4⟩

def decryptionTables : RowTables := ⟨smT5, smT6, smT7, smT8⟩

/-- Four bytes of the last round. `tt` is the round key word, whose shifts end in a `char`. -/
def lastBytes (box : List Byte) (w x y z tt : DWord) : List Byte :=
  [entry box (byteIndex w 24) ^^^ (tt.sshiftRight 24).setWidth 8,
    entry box (byteIndex x 16) ^^^ (tt.sshiftRight 16).setWidth 8,
    entry box (byteIndex y 8) ^^^ (tt.sshiftRight 8).setWidth 8,
    entry box (byteIndex z 0) ^^^ tt.setWidth 8]

/-! ## Blocks of 16 bytes -/

structure Quad where
  t0 : DWord
  t1 : DWord
  t2 : DWord
  t3 : DWord

def defEncryptBlock (o : CRijndael) (inp : List Byte) : List Byte :=
  let T := encryptionTables
  let Ker := o.Ke 0
  let q : Quad := ⟨loadWord inp 0 ^^^ Ker 0, loadWord inp 1 ^^^ Ker 1, loadWord inp 2 ^^^ Ker 2,
    loadWord inp 3 ^^^ Ker 3⟩
  let q := forRange 1 o.iROUNDS (fun r q =>
    let Ker := o.Ke r
    ⟨T.column q.t0 q.t1 q.t2 q.t3 ^^^ Ker 0, T.column q.t1 q.t2 q.t3 q.t0 ^^^ Ker 1,
      T.column q.t2 q.t3 q.t0 q.t1 ^^^ Ker 2, T.column q.t3 q.t0 q.t1 q.t2 ^^^ Ker 3⟩) q
  let Ker := o.Ke o.iROUNDS
  lastBytes smS q.t0 q.t1 q.t2 q.t3 (Ker 0) ++ lastBytes smS q.t1 q.t2 q.t3 q.t0 (Ker 1) ++
    lastBytes smS q.t2 q.t3 q.t0 q.t1 (Ker 2) ++ lastBytes smS q.t3 q.t0 q.t1 q.t2 (Ker 3)

def defDecryptBlock (o : CRijndael) (inp : List Byte) : List Byte :=
  let T := decryptionTables
  let Kdr := o.Kd 0
  let q : Quad := ⟨loadWord inp 0 ^^^ Kdr 0, loadWord inp 1 ^^^ Kdr 1, loadWord inp 2 ^^^ Kdr 2,
    loadWord inp 3 ^^^ Kdr 3⟩
  let q := forRange 1 o.iROUNDS (fun r q =>
    let Kdr := o.Kd r
    ⟨T.column q.t0 q.t3 q.t2 q.t1 ^^^ Kdr 0, T.column q.t1 q.t0 q.t3 q.t2 ^^^ Kdr 1,
      T.column q.t2 q.t1 q.t0 q.t3 ^^^ Kdr 2, T.column q.t3 q.t2 q.t1 q.t0 ^^^ Kdr 3⟩) q
  let Kdr := o.Kd o.iROUNDS
  lastBytes smSi q.t0 q.t3 q.t2 q.t1 (Kdr 0) ++ lastBytes smSi q.t1 q.t0 q.t3 q.t2 (Kdr 1) ++
    lastBytes smSi q.t2 q.t1 q.t0 q.t3 (Kdr 2) ++ lastBytes smSi q.t3 q.t2 q.t1 q.t0 (Kdr 3)

/-! ## Blocks of `BC` columns -/

def cryptRound (T : RowTables) (BC s1 s2 s3 : ℕ) (Kr : ℕ → DWord) (t : ℕ → DWord) : ℕ → DWord :=
  let a := fill BC (fun i =>
    T.column (t i) (t ((i + s1) % BC)) (t ((i + s2) % BC)) (t ((i + s3) % BC)) ^^^ Kr i) (fun _ => 0)
  fill BC a t

/-- The loops of `EncryptBlock` and `DecryptBlock` for the longer blocks. -/
def crypt (T : RowTables) (box : List Byte) (BC s1 s2 s3 rounds : ℕ) (K : ℕ → ℕ → DWord) (inp : List Byte) :
    List Byte :=
  let t := fill BC (fun i => loadWord inp i ^^^ K 0 i) (fun _ => 0)
  let t := forRange 1 rounds (fun r t => cryptRound T BC s1 s2 s3 (K r) t) t
  (List.range BC).flatMap fun i =>
    lastBytes box (t i) (t ((i + s1) % BC)) (t ((i + s2) % BC)) (t ((i + s3) % BC)) (K rounds i)

def shift (SC row : ℕ) : ℕ × ℕ := (smShifts.getD SC []).getD row (0, 0)

def shiftClass (BC : ℕ) : ℕ := if BC = 4 then 0 else if BC = 6 then 1 else 2

/-- `EncryptBlock` after the check of `m_bKeyInit`. -/
def encryptBlockBody (o : CRijndael) (inp : List Byte) : List Byte :=
  if o.blockSize = 16 then defEncryptBlock o inp
  else
    let BC := o.blockSize / 4
    let SC := shiftClass BC
    crypt encryptionTables smS BC (shift SC 1).1 (shift SC 2).1 (shift SC 3).1 o.iROUNDS o.Ke inp

def decryptBlockBody (o : CRijndael) (inp : List Byte) : List Byte :=
  if o.blockSize = 16 then defDecryptBlock o inp
  else
    let BC := o.blockSize / 4
    let SC := shiftClass BC
    crypt decryptionTables smSi BC (shift SC 1).2 (shift SC 2).2 (shift SC 3).2 o.iROUNDS o.Kd inp

def encryptBlock (o : CRijndael) (inp : List Byte) : Except String (List Byte) :=
  if o.bKeyInit = false then .error szErrorMsg1 else .ok (encryptBlockBody o inp)

def decryptBlock (o : CRijndael) (inp : List Byte) : Except String (List Byte) :=
  if o.bKeyInit = false then .error szErrorMsg1 else .ok (decryptBlockBody o inp)

/-! ## One block function -/

/-- What four row tables compute: `f` on a column of substituted bytes. -/
def RowTables.Computes (T : RowTables) (f : Column Byte → Column Byte) (box : Byte → Byte) : Prop :=
  ∀ a b c d, entry T.T1 a ^^^ entry T.T2 b ^^^ entry T.T3 c ^^^ entry T.T4 d =
    beWord (f ⟨box a, box b, box c, box d⟩)

theorem encryptionTables_computes : encryptionTables.Computes (Column.mix double) sBox := encryption_tables

theorem decryptionTables_computes : decryptionTables.Computes (Column.invMix double) invSBox :=
  decryption_tables

theorem beColumn_column {T : RowTables} {f : Column Byte → Column Byte} {box : Byte → Byte}
    (hT : T.Computes f box) (w x y z : DWord) : beColumn (T.column w x y z) =
      f ⟨box (byteAt w 3), box (byteAt x 2), box (byteAt y 1), box (byteAt z 0)⟩ := by
  unfold RowTables.column
  rw [hT, beColumn_beWord, byteIndex_zero, byteIndex_one, byteIndex_two, byteIndex_three]

theorem setWidth_sshiftRight (w : DWord) (k : ℕ) (hk : k < 4) :
    (w.sshiftRight (8 * k)).setWidth 8 = byteAt w k := by
  apply BitVec.eq_of_getLsbD_eq
  intro i hi
  have hin : 8 * k + i < 32 := by omega
  have hnot : ¬ 32 ≤ i := by omega
  simp only [getLsbD_byteAt, BitVec.getLsbD_setWidth, BitVec.getLsbD_sshiftRight, hi, hin, hnot,
    decide_true, decide_false, Bool.true_and, Bool.not_false, if_true]

theorem lastBytes_eq (box : List Byte) (w x y z tt : DWord) : lastBytes box w x y z tt =
    columnBytes (Column.xor ⟨entry box (byteAt w 3), entry box (byteAt x 2), entry box (byteAt y 1),
      entry box (byteAt z 0)⟩ (beColumn tt)) := by
  unfold lastBytes
  rw [byteIndex_zero, byteIndex_one, byteIndex_two, byteIndex_three,
    setWidth_sshiftRight tt 3 (by omega), setWidth_sshiftRight tt 2 (by omega),
    setWidth_sshiftRight tt 1 (by omega), setWidth_zero_byte]
  rfl

section Crypt
variable {n : ℕ} [NeZero n] {T : RowTables} {f : Column Byte → Column Byte} {box : List Byte}

def words (n : ℕ) (t : ℕ → DWord) : State n := fun i => beColumn (t i)

theorem val_add_ofNat (i : Fin n) (s : ℕ) : ((i + Fin.ofNat n s : Fin n) : ℕ) = (i + s) % n := by
  simp [Fin.val_add]

theorem words_cryptRound (hT : T.Computes f (entry box)) (s1 s2 s3 r : ℕ) (K : ℕ → ℕ → DWord)
    (t : ℕ → DWord) : words n (cryptRound T n s1 s2 s3 (K r) t) =
      addState (fun i => f (subShift (entry box) (Fin.ofNat n s1) (Fin.ofNat n s2) (Fin.ofNat n s3)
        (words n t) i)) (roundKey n K r) := by
  funext i
  simp only [words, cryptRound, fill_apply_of_lt i.isLt, beColumn_xor, beColumn_column hT, addState,
    subShift, roundKey, val_add_ofNat]
  rfl

/-- The loops of the longer blocks compute the cipher whose mixing the tables compute. -/
theorem crypt_eq (hT : T.Computes f (entry box)) (s1 s2 s3 : ℕ) {R : ℕ} (hR : 1 ≤ R) (K : ℕ → ℕ → DWord)
    (inp : List Byte) :
    toState n (crypt T box n s1 s2 s3 R K inp) =
        KeyAlternating.cipher addState
          (subShift (entry box) (Fin.ofNat n s1) (Fin.ofNat n s2) (Fin.ofNat n s3)) (fun s i => f (s i))
          (roundKey n K) R (toState n inp) ∧
      (crypt T box n s1 s2 s3 R K inp).length = 4 * n := by
  have hload : words n (fill n (fun i => loadWord inp i ^^^ K 0 i) fun _ => 0) =
      addState (toState n inp) (roundKey n K 0) := by
    funext i
    simp only [words, fill_apply_of_lt i.isLt, beColumn_xor, loadWord_eq]
    rfl
  have hrounds : words n (forRange 1 R (fun r t => cryptRound T n s1 s2 s3 (K r) t)
      (fill n (fun i => loadWord inp i ^^^ K 0 i) fun _ => 0)) =
      KeyAlternating.rounds addState
        (subShift (entry box) (Fin.ofNat n s1) (Fin.ofNat n s2) (Fin.ofNat n s3)) (fun s i => f (s i))
        (roundKey n K) (R - 1) (addState (toState n inp) (roundKey n K 0)) := by
    refine forRange_inv (P := fun r (t : ℕ → DWord) => words n t = KeyAlternating.rounds addState
      (subShift (entry box) (Fin.ofNat n s1) (Fin.ofNat n s2) (Fin.ofNat n s3)) (fun s i => f (s i))
      (roundKey n K) (r - 1) (addState (toState n inp) (roundKey n K 0))) hR hload ?_
    intro r t h1 _ ih
    have hr : r + 1 - 1 = (r - 1) + 1 := by omega
    have hr' : r - 1 + 1 = r := by omega
    rw [hr, KeyAlternating.rounds_succ, ← ih, hr', words_cryptRound hT]
  simp only [crypt]
  generalize forRange 1 R (fun r t => cryptRound T n s1 s2 s3 (K r) t)
    (fill n (fun i => loadWord inp i ^^^ K 0 i) fun _ => 0) = t at hrounds ⊢
  simp only [lastBytes_eq]
  refine ⟨?_, bytesOf_length n _⟩
  funext i
  have hcol := columnAt_bytesOf (fun i => Column.xor ⟨entry box (byteAt (t i) 3),
    entry box (byteAt (t ((i + s1) % n)) 2), entry box (byteAt (t ((i + s2) % n)) 1),
    entry box (byteAt (t ((i + s3) % n)) 0)⟩ (beColumn (K R i))) i.isLt
  refine hcol.trans ?_
  unfold KeyAlternating.cipher
  rw [← hrounds]
  simp only [addState, subShift, words, roundKey, val_add_ofNat]
  rfl

end Crypt

/-! ## The unrolled functions -/

def Quad.Holds (q : Quad) (t : ℕ → DWord) : Prop := t 0 = q.t0 ∧ t 1 = q.t1 ∧ t 2 = q.t2 ∧ t 3 = q.t3

theorem flatMap_range_four (f : ℕ → List Byte) : (List.range 4).flatMap f = f 0 ++ f 1 ++ f 2 ++ f 3 := by
  simp [List.range_succ]

theorem defEncryptBlock_eq (o : CRijndael) (inp : List Byte) (hR : 1 ≤ o.iROUNDS) :
    defEncryptBlock o inp = crypt encryptionTables smS 4 1 2 3 o.iROUNDS o.Ke inp := by
  have hquad := forRange_rel (fun _ (q : Quad) (t : ℕ → DWord) => q.Holds t) hR
    (f := fun r q => ⟨encryptionTables.column q.t0 q.t1 q.t2 q.t3 ^^^ o.Ke r 0,
      encryptionTables.column q.t1 q.t2 q.t3 q.t0 ^^^ o.Ke r 1,
      encryptionTables.column q.t2 q.t3 q.t0 q.t1 ^^^ o.Ke r 2,
      encryptionTables.column q.t3 q.t0 q.t1 q.t2 ^^^ o.Ke r 3⟩)
    (g := fun r t => cryptRound encryptionTables 4 1 2 3 (o.Ke r) t)
    (s := ⟨loadWord inp 0 ^^^ o.Ke 0 0, loadWord inp 1 ^^^ o.Ke 0 1, loadWord inp 2 ^^^ o.Ke 0 2,
      loadWord inp 3 ^^^ o.Ke 0 3⟩)
    (t := fill 4 (fun i => loadWord inp i ^^^ o.Ke 0 i) fun _ => 0) ?_ ?_
  · obtain ⟨h0, h1, h2, h3⟩ := hquad
    simp only [defEncryptBlock, crypt, ← h0, ← h1, ← h2, ← h3, flatMap_range_four]
  · simp [Quad.Holds, fill_apply]
  · rintro r q t _ _ ⟨h0, h1, h2, h3⟩
    simp [Quad.Holds, cryptRound, fill_apply, h0, h1, h2, h3]

theorem defDecryptBlock_eq (o : CRijndael) (inp : List Byte) (hR : 1 ≤ o.iROUNDS) :
    defDecryptBlock o inp = crypt decryptionTables smSi 4 3 2 1 o.iROUNDS o.Kd inp := by
  have hquad := forRange_rel (fun _ (q : Quad) (t : ℕ → DWord) => q.Holds t) hR
    (f := fun r q => ⟨decryptionTables.column q.t0 q.t3 q.t2 q.t1 ^^^ o.Kd r 0,
      decryptionTables.column q.t1 q.t0 q.t3 q.t2 ^^^ o.Kd r 1,
      decryptionTables.column q.t2 q.t1 q.t0 q.t3 ^^^ o.Kd r 2,
      decryptionTables.column q.t3 q.t2 q.t1 q.t0 ^^^ o.Kd r 3⟩)
    (g := fun r t => cryptRound decryptionTables 4 3 2 1 (o.Kd r) t)
    (s := ⟨loadWord inp 0 ^^^ o.Kd 0 0, loadWord inp 1 ^^^ o.Kd 0 1, loadWord inp 2 ^^^ o.Kd 0 2,
      loadWord inp 3 ^^^ o.Kd 0 3⟩)
    (t := fill 4 (fun i => loadWord inp i ^^^ o.Kd 0 i) fun _ => 0) ?_ ?_
  · obtain ⟨h0, h1, h2, h3⟩ := hquad
    simp only [defDecryptBlock, crypt, ← h0, ← h1, ← h2, ← h3, flatMap_range_four]
  · simp [Quad.Holds, fill_apply]
  · rintro r q t _ _ ⟨h0, h1, h2, h3⟩
    simp [Quad.Holds, cryptRound, fill_apply, h0, h1, h2, h3]

/-! ## Keyed objects -/

section Keyed
variable {key : List Byte} {nk nb : ℕ} {o : CRijndael} [NeZero nb]

omit [NeZero nb] in
theorem Keyed.rounds_pos (h : Keyed key nk nb o) : 1 ≤ o.iROUNDS := by
  rw [h.rounds]
  exact roundCount_pos ..

theorem encryptBlockBody_eq (h : Keyed key nk nb o) (hnb : nb = 4 ∨ nb = 6 ∨ nb = 8)
    (inp : List Byte) :
    toState nb (encryptBlockBody o inp) =
        encryptState sBox (Fin.ofNat nb 1) (Fin.ofNat nb (offset2 nb)) (Fin.ofNat nb (offset3 nb))
          (roundKey nb o.Ke) o.iROUNDS (toState nb inp) ∧
      (encryptBlockBody o inp).length = 4 * nb := by
  have hR := h.rounds_pos
  unfold encryptBlockBody
  rw [h.size]
  rcases hnb with rfl | rfl | rfl
  · rw [if_pos (by omega), defEncryptBlock_eq o inp hR]
    exact crypt_eq encryptionTables_computes 1 2 3 hR o.Ke inp
  · rw [if_neg (by omega)]
    exact crypt_eq encryptionTables_computes 1 2 3 hR o.Ke inp
  · rw [if_neg (by omega)]
    exact crypt_eq encryptionTables_computes 1 3 4 hR o.Ke inp

theorem decryptBlockBody_eq (h : Keyed key nk nb o) (hnb : nb = 4 ∨ nb = 6 ∨ nb = 8)
    (inp : List Byte) :
    toState nb (decryptBlockBody o inp) =
        decryptState invSBox (Fin.ofNat nb 1) (Fin.ofNat nb (offset2 nb)) (Fin.ofNat nb (offset3 nb))
          (invKeys (roundKey nb o.Ke) o.iROUNDS) o.iROUNDS (toState nb inp) ∧
      (decryptBlockBody o inp).length = 4 * nb := by
  have hR := h.rounds_pos
  unfold decryptBlockBody decryptState
  rw [h.size, ← KeyAlternating.cipher_congr _ h.decryption]
  rcases hnb with rfl | rfl | rfl
  · rw [if_pos (by omega), defDecryptBlock_eq o inp hR]
    exact crypt_eq decryptionTables_computes 3 2 1 hR o.Kd inp
  · rw [if_neg (by omega)]
    exact crypt_eq decryptionTables_computes 5 4 3 hR o.Kd inp
  · rw [if_neg (by omega)]
    exact crypt_eq decryptionTables_computes 7 5 4 hR o.Kd inp

/-- `DecryptBlock` restores what `EncryptBlock` was given. -/
theorem decryptBlockBody_encryptBlockBody (h : Keyed key nk nb o) (hnb : nb = 4 ∨ nb = 6 ∨ nb = 8)
    {inp : List Byte} (hinp : inp.length = 4 * nb) : decryptBlockBody o (encryptBlockBody o inp) = inp := by
  obtain ⟨henc, _⟩ := encryptBlockBody_eq h hnb inp
  obtain ⟨hdec, hlen⟩ := decryptBlockBody_eq h hnb (encryptBlockBody o inp)
  refine eq_of_toState_eq hlen hinp ?_
  rw [hdec, henc]
  exact decryptState_encryptState invSBox_sBox _ _ _ _ h.rounds_pos _

end Keyed

/-! ## The loops at four columns -/

/-- The loops of `EncryptBlock` at `BC` columns. -/
def encryptColumns (o : CRijndael) (BC : ℕ) (inp : List Byte) : List Byte :=
  let SC := shiftClass BC
  crypt encryptionTables smS BC (shift SC 1).1 (shift SC 2).1 (shift SC 3).1 o.iROUNDS o.Ke inp

/-- The loops of `DecryptBlock`. -/
def decryptColumns (o : CRijndael) (BC : ℕ) (inp : List Byte) : List Byte :=
  let SC := shiftClass BC
  crypt decryptionTables smSi BC (shift SC 1).2 (shift SC 2).2 (shift SC 3).2 o.iROUNDS o.Kd inp

theorem encryptBlockBody_columns (o : CRijndael) (inp : List Byte) : encryptBlockBody o inp =
    if o.blockSize = 16 then defEncryptBlock o inp else encryptColumns o (o.blockSize / 4) inp := rfl

theorem decryptBlockBody_columns (o : CRijndael) (inp : List Byte) : decryptBlockBody o inp =
    if o.blockSize = 16 then defDecryptBlock o inp else decryptColumns o (o.blockSize / 4) inp := rfl

theorem makeKey_rounds {key : Option (List Byte)} {chain : List Byte} {keylength blockSize : ℕ} {memory o : CRijndael}
    (h : makeKey key chain keylength blockSize memory = .ok o) : o.iROUNDS = roundCount keylength blockSize := by
  unfold makeKey at h
  split at h
  · cases h
  · split at h
    · cases h
    · split at h
      · cases h
      · rw [← Except.ok.inj h]

theorem defBlock_length (o : CRijndael) (inp : List Byte) :
    (defEncryptBlock o inp).length = 16 ∧ (defDecryptBlock o inp).length = 16 := by
  simp [defEncryptBlock, defDecryptBlock, lastBytes]

/-- After `MakeKey` for blocks of 16 bytes, and with any chain block since, the unrolled functions are the loops. -/
theorem defBlocks_eq_columns {key : Option (List Byte)} {chain : List Byte} {keylength : ℕ} {memory o : CRijndael}
    (h : makeKey key chain keylength 16 memory = .ok o) (chain' inp : List Byte) :
    defEncryptBlock { o with chain := chain' } inp = encryptColumns { o with chain := chain' } 4 inp ∧
      defDecryptBlock { o with chain := chain' } inp = decryptColumns { o with chain := chain' } 4 inp ∧
      (defEncryptBlock { o with chain := chain' } inp).length = 16 ∧
      (defDecryptBlock { o with chain := chain' } inp).length = 16 := by
  have hR : 1 ≤ o.iROUNDS := by
    rw [makeKey_rounds h]
    exact roundCount_pos ..
  exact ⟨defEncryptBlock_eq { o with chain := chain' } inp hR, defDecryptBlock_eq { o with chain := chain' } inp hR,
    defBlock_length _ inp⟩

/-- A key of 24 zeros. -/
theorem defBlocks_eq_columns_sample : ∃ o, makeKey (some (List.replicate 24 0)) [] 24 16
      ⟨false, fun _ _ => 0, fun _ _ => 0, 0, 0, 0, [], []⟩ = .ok o ∧
    defEncryptBlock { o with chain := [] } (List.replicate 16 7) = encryptColumns { o with chain := [] } 4 (List.replicate 16 7) ∧
    defDecryptBlock { o with chain := [] } (List.replicate 16 7) = decryptColumns { o with chain := [] } 4 (List.replicate 16 7) ∧
    (defEncryptBlock { o with chain := [] } (List.replicate 16 7)).length = 16 ∧
    (defDecryptBlock { o with chain := [] } (List.replicate 16 7)).length = 16 := by
  obtain ⟨o, hmake, -, -⟩ := makeKey_keyed (List.replicate 24 0) [] (by decide : 6 = 4 ∨ 6 = 6 ∨ 6 = 8)
    (by decide : 4 = 4 ∨ 4 = 6 ∨ 4 = 8) ⟨false, fun _ _ => 0, fun _ _ => 0, 0, 0, 0, [], []⟩
  exact ⟨o, hmake, defBlocks_eq_columns hmake [] (List.replicate 16 7)⟩

end StarLib.Rijndael
