import StarLib.Aes.Cipher

/-! # `AES.cpp` computes the cipher on columns

The words of `AES.cpp` hold the first row of a column in their least significant byte. Read that way
(`leColumn`), a round of `encrypt` is a round of the cipher on columns, a round of `decrypt` a round
of the equivalent inverse, and the reversed key array holds the round keys of the latter. Decryption
after encryption then restores a block by the inverse law of the cipher on columns.
-/

namespace StarLib.Aes
open Foundations StarLib.Rijndael
set_option autoImplicit false
set_option maxHeartbeats 250000
set_option maxRecDepth 120000

def leColumn (w : DWord) : Column Byte := ⟨byteAt w 0, byteAt w 1, byteAt w 2, byteAt w 3⟩

theorem leColumn_xor (a b : DWord) : leColumn (a ^^^ b) = (leColumn a).xor (leColumn b) := by
  simp [leColumn, Column.xor]

theorem leColumn_ofBytes (b0 b1 b2 b3 : Byte) : leColumn (ofBytes b0 b1 b2 b3) = ⟨b0, b1, b2, b3⟩ := by
  simp [leColumn]

theorem columnBytes_leColumn (w : DWord) : columnBytes (leColumn w) = unpack w := by
  unfold unpack
  rw [setWidth_one_byte, setWidth_two_byte, setWidth_three_byte, setWidth_zero_byte]
  rfl

theorem leColumn_pack (b0 b1 b2 b3 : Byte) : leColumn (pack b0 b1 b2 b3) = ⟨b0, b1, b2, b3⟩ := by
  rw [pack_eq_ofBytes, leColumn_ofBytes]

/-! ## Round tables -/

/-- A lookup table whose four rotations together compute `f` on a column of substituted bytes. -/
def RoundTable (f : Column Byte → Column Byte) (box : Byte → Byte) (table : Byte → DWord) : Prop :=
  ∀ a b c d, leColumn (table a ^^^ rotl (table b) 8 ^^^ rotl (table c) 16 ^^^ rotl (table d) 24) =
    f ⟨box a, box b, box c, box d⟩

theorem ftable_roundTable : RoundTable (Column.mix double) sBox (entry gentables.ftable) := by
  intro a b c d
  simp only [gentables_ftable, rotl_eight_ofBytes, rotl_sixteen_ofBytes, rotl_twentyFour_ofBytes,
    ofBytes_xor, leColumn_ofBytes, Column.mix]
  ext1 <;> ac_rfl

theorem rtable_roundTable : RoundTable (Column.invMix double) invSBox (entry gentables.rtable) := by
  intro a b c d
  simp only [gentables_rtable, rotl_eight_ofBytes, rotl_sixteen_ofBytes, rotl_twentyFour_ofBytes,
    ofBytes_xor, leColumn_ofBytes, Column.invMix]

theorem byteTable_roundTable (box : Byte → Byte) :
    RoundTable id box (fun b => (box b).setWidth 32) := by
  intro a b c d
  simp only [setWidth_shiftLeft_zero, rotl_eight_ofBytes, rotl_sixteen_ofBytes,
    rotl_twentyFour_ofBytes, ofBytes_xor, leColumn_ofBytes]
  ext1 <;> simp

/-! ## Rounds -/

section Rounds
variable {n : ℕ} {inc : ℕ → ℕ} {o1 o2 o3 : Fin n}

def columns (n : ℕ) (x : ℕ → DWord) : State n := fun i => leColumn (x i)

def keyState (n : ℕ) (key : ℕ → DWord) (r : ℕ) : State n := fun i => leColumn (key (r * n + i))

/-- The increments send column `j` to the columns at offsets `o1 o2 o3`. -/
def Increments (inc : ℕ → ℕ) (o1 o2 o3 : Fin n) : Prop :=
  ∀ j : Fin n, inc (3 * j) = (j + o1 : Fin n) ∧ inc (3 * j + 1) = (j + o2 : Fin n) ∧
    inc (3 * j + 2) = (j + o3 : Fin n)

theorem columns_round (hinc : Increments inc o1 o2 o3) {f : Column Byte → Column Byte} {box : Byte → Byte}
    {table : Byte → DWord} (htable : RoundTable f box table) (key : ℕ → DWord) (r : ℕ) (x y : ℕ → DWord) :
    columns n (round n inc key table (r * n) x y) =
      addState (fun i => f (subShift box o1 o2 o3 (columns n x) i)) (keyState n key r) := by
  funext j
  obtain ⟨h1, h2, h3⟩ := hinc j
  have hsum := htable (byteAt (x j) 0) (byteAt (x (j + o1 : Fin n)) 1) (byteAt (x (j + o2 : Fin n)) 2)
    (byteAt (x (j + o3 : Fin n)) 3)
  have hkey : ∀ k a b c d : DWord, k ^^^ a ^^^ b ^^^ c ^^^ d = (a ^^^ b ^^^ c ^^^ d) ^^^ k := by
    intro k a b c d
    ac_rfl
  simp only [columns, round, fill_apply_of_lt j.isLt, h1, h2, h3]
  rw [setWidth_one_byte, setWidth_two_byte, setWidth_three_byte, setWidth_zero_byte, hkey, leColumn_xor,
    hsum]
  rfl

theorem columns_loadBlock (key : ℕ → DWord) (buff : List Byte) (a : ℕ → DWord) :
    columns n (loadBlock n key buff a) = addState (toState n buff) (keyState n key 0) := by
  funext i
  simp only [columns, loadBlock, fill_apply_of_lt i.isLt, leColumn_xor, leColumn_pack, addState, keyState,
    Nat.zero_mul, Nat.zero_add]
  rfl

theorem cryptBlock_rounds (hinc : Increments inc o1 o2 o3) {f : Column Byte → Column Byte}
    {box : Byte → Byte} {table : Byte → DWord} (htable : RoundTable f box table) (key : ℕ → DWord) {Nr : ℕ}
    (hNr : 0 < Nr) (x y : ℕ → DWord) :
    let w := forRange 1 Nr (fun _ w => Work.mk (round n inc key table w.k w.x w.y) w.x (w.k + n)) ⟨x, y, n⟩
    columns n w.x = KeyAlternating.rounds addState (subShift box o1 o2 o3) (fun s i => f (s i))
      (keyState n key) (Nr - 1) (columns n x) ∧ w.k = Nr * n := by
  refine forRange_inv (P := fun r (w : Work) =>
    columns n w.x = KeyAlternating.rounds addState (subShift box o1 o2 o3) (fun s i => f (s i))
      (keyState n key) (r - 1) (columns n x) ∧ w.k = r * n) hNr ⟨rfl, (Nat.one_mul n).symm⟩ ?_
  rintro r w h1 _ ⟨hx, hk⟩
  have hr : r + 1 - 1 = (r - 1) + 1 := by omega
  have hr' : r - 1 + 1 = r := by omega
  refine ⟨?_, ?_⟩
  · rw [hr, KeyAlternating.rounds_succ, ← hx, hr', hk, columns_round hinc htable]
  · simp only [hk, Nat.add_mul, Nat.one_mul]

/-- `cryptBlock` computes the cipher whose mixing its table computes, on a block of `n` words. -/
theorem cryptBlock_eq (hinc : Increments inc o1 o2 o3) {f : Column Byte → Column Byte} {box : Byte → Byte}
    {table : Byte → DWord} (htable : RoundTable f box table) (key : ℕ → DWord) {Nr : ℕ} (hNr : 0 < Nr)
    {buff : List Byte} (hbuff : buff.length = 4 * n) :
    toState n (cryptBlock n Nr inc key table box buff) =
        KeyAlternating.cipher addState (subShift box o1 o2 o3) (fun s i => f (s i)) (keyState n key) Nr
          (toState n buff) ∧
      (cryptBlock n Nr inc key table box buff).length = 4 * n := by
  obtain ⟨hx, hk⟩ := cryptBlock_rounds hinc htable key hNr (loadBlock n key buff fun _ => 0) fun _ => 0
  have hlast := columns_round hinc (byteTable_roundTable box) key Nr
  have hout : ∀ y : ℕ → DWord, ((List.range n).flatMap fun i => unpack (y i)) ++ buff.drop (4 * n) =
      bytesOf n fun i => leColumn (y i) := by
    intro y
    simp only [bytesOf, columnBytes_leColumn]
    rw [List.drop_eq_nil_of_le (by omega), List.append_nil]
  have hstate : ∀ s : ℕ → Column Byte, toState n (bytesOf n s) = fun i : Fin n => s i := by
    intro s
    funext i
    exact columnAt_bytesOf s i.isLt
  simp only [cryptBlock, hout, bytesOf_length, and_true, hstate]
  generalize forRange 1 Nr (fun _ w => Work.mk (round n inc key table w.k w.x w.y) w.x (w.k + n))
    ⟨loadBlock n key buff fun _ => 0, fun _ => 0, n⟩ = w at hx hk ⊢
  rw [hk]
  have hround := hlast w.x w.y
  rw [hx, columns_loadBlock] at hround
  exact hround

end Rounds

/-! ## Increments -/

theorem incrementsBody_apply (o1 o2 o3 : ℕ → ℕ) (f : ℕ → ℕ) {n j : ℕ} (hj : j < n) :
    let g := forRange 0 n (incrementsBody o1 o2 o3) f
    g (3 * j) = o1 j ∧ g (3 * j + 1) = o2 j ∧ g (3 * j + 2) = o3 j := by
  refine forRange_inv (P := fun i (g : ℕ → ℕ) =>
    ∀ j < i, g (3 * j) = o1 j ∧ g (3 * j + 1) = o2 j ∧ g (3 * j + 2) = o3 j) (Nat.zero_le n) ?_ ?_ j hj
  · intro j hj
    omega
  · intro i g _ _ ih j hj
    simp only [incrementsBody, Function.update_apply]
    by_cases hji : j = i
    · subst hji
      simp
    · obtain ⟨h1, h2, h3⟩ := ih j (by omega)
      refine ⟨?_, ?_, ?_⟩
      · rw [if_neg (by omega), if_neg (by omega), if_neg (by omega), h1]
      · rw [if_neg (by omega), if_neg (by omega), if_neg (by omega), h2]
      · rw [if_neg (by omega), if_neg (by omega), if_neg (by omega), h3]

theorem increments_forward {n : ℕ} [NeZero n] (C1 C2 C3 : ℕ) (fi : ℕ → ℕ) :
    Increments (forwardIncrements n C1 C2 C3 fi) (Fin.ofNat n C1) (Fin.ofNat n C2) (Fin.ofNat n C3) := by
  intro j
  have hadd : ∀ C, ((j + Fin.ofNat n C : Fin n) : ℕ) = (j + C) % n := by
    intro C
    simp [Fin.val_add]
  simp only [hadd]
  exact incrementsBody_apply _ _ _ fi j.isLt

theorem increments_reverse {n : ℕ} [NeZero n] {C1 C2 C3 : ℕ} (h1 : C1 ≤ n) (h2 : C2 ≤ n) (h3 : C3 ≤ n)
    (ri : ℕ → ℕ) :
    Increments (reverseIncrements n C1 C2 C3 ri) (-Fin.ofNat n C1) (-Fin.ofNat n C2) (-Fin.ofNat n C3) := by
  intro j
  have hsub : ∀ C ≤ n, ((j + -Fin.ofNat n C : Fin n) : ℕ) = (n + j - C) % n := by
    intro C hC
    have hidx : n + j - C = j + (n - C) := by omega
    rcases Nat.lt_or_ge C n with hlt | hge
    · simp [Fin.val_add, Fin.val_neg', hidx, Nat.mod_eq_of_lt hlt]
    · have hCn : C = n := by omega
      subst hCn
      simp [Nat.mod_eq_of_lt j.isLt]
  simp only [hsub C1 h1, hsub C2 h2, hsub C3 h3]
  exact incrementsBody_apply _ _ _ ri j.isLt

/-! ## The decryption keys -/

theorem leColumn_invMixCol (x : DWord) :
    leColumn (invMixCol gentables x) = Column.invMix double (leColumn x) := by
  have hptab : gentables.ptab = powers := by simp only [gentables, powLog_eq]
  have hltab : gentables.ltab = logs := by simp only [gentables, powLog_eq]
  have hproduct : ∀ a b c d, product gentables (ofBytes a b c d) x =
      bmul powers logs a (byteAt x 0) ^^^ bmul powers logs b (byteAt x 1) ^^^
        bmul powers logs c (byteAt x 2) ^^^ bmul powers logs d (byteAt x 3) := by
    intro a b c d
    unfold product unpack
    rw [setWidth_one_byte, setWidth_two_byte, setWidth_three_byte, setWidth_zero_byte, setWidth_one_byte,
      setWidth_two_byte, setWidth_three_byte, setWidth_zero_byte, hptab, hltab]
    simp
  have hinCo : pack (inCo.getD 0 0) (inCo.getD 1 0) (inCo.getD 2 0) (inCo.getD 3 0) =
      ofBytes 0xB 0xD 0x9 0xE := pack_eq_ofBytes ..
  simp only [invMixCol, hinCo, rotl_twentyFour_ofBytes, hproduct, leColumn_pack, bmul_eleven, bmul_thirteen,
    bmul_nine, bmul_fourteen]
  ext1 <;> simp only [Column.invMix, leColumn]

theorem keyState_fillAt {n : ℕ} (s r : ℕ) (g a : ℕ → DWord) :
    keyState n (fillAt (s * n) n g a) r = if r = s then columns n g else keyState n a r := by
  funext i
  have hi := i.isLt
  unfold keyState
  rw [fillAt_apply]
  rcases Nat.lt_trichotomy r s with h | h | h
  · have hmul : r * n + n ≤ s * n := by
      rw [← Nat.succ_mul]
      exact Nat.mul_le_mul_right n h
    have hout : ¬ (s * n ≤ r * n + i ∧ r * n + i < s * n + n) := by omega
    rw [if_neg hout, if_neg (by omega)]
  · subst h
    have hin : r * n ≤ r * n + i ∧ r * n + i < r * n + n := by omega
    rw [if_pos hin, if_pos rfl, Nat.add_sub_cancel_left]
    rfl
  · have hmul : s * n + n ≤ r * n := by
      rw [← Nat.succ_mul]
      exact Nat.mul_le_mul_right n h
    have hout : ¬ (s * n ≤ r * n + i ∧ r * n + i < s * n + n) := by omega
    rw [if_neg hout, if_neg (by omega)]

theorem keyState_fill {n : ℕ} (r : ℕ) (g a : ℕ → DWord) :
    keyState n (fill n g a) r = if r = 0 then columns n g else keyState n a r := by
  have h := keyState_fillAt (n := n) 0 r g a
  simpa [fillAt, fill] using h

theorem keyState_middle {n Nr : ℕ} (fkey rkey : ℕ → DWord) {m : ℕ} (h1 : 1 ≤ m) (hm : m ≤ Nr) (r : ℕ) :
    keyState n (forRange 1 m (fun r rkey =>
        fillAt ((Nr - r) * n) n (fun j => invMixCol gentables (fkey (r * n + j))) rkey) rkey) r =
      if Nr - m < r ∧ r < Nr then invMixState (keyState n fkey (Nr - r)) else keyState n rkey r := by
  induction m, h1 using Nat.le_induction with
  | base =>
    have hno : ¬ (Nr - 1 < r ∧ r < Nr) := by omega
    rw [forRange_of_le (Nat.le_refl 1), if_neg hno]
  | succ m h1 ih =>
    rw [forRange_succ h1, keyState_fillAt, ih (by omega)]
    by_cases hr : r = Nr - m
    · have hin : Nr - (m + 1) < r ∧ r < Nr := by omega
      have hback : Nr - r = m := by omega
      rw [if_pos hr, if_pos hin, hback]
      funext i
      exact leColumn_invMixCol _
    · have hiff : (Nr - (m + 1) < r ∧ r < Nr) ↔ (Nr - m < r ∧ r < Nr) := by omega
      simp only [hr, if_false, hiff]

/-- The stored decryption keys are the round keys of the equivalent inverse cipher. -/
theorem keyState_reverseKeys {n Nr : ℕ} (hNr : 0 < Nr) (fkey rkey : ℕ → DWord) {r : ℕ} (hr : r ≤ Nr) :
    keyState n (reverseKeys gentables n Nr fkey rkey) r = invKeys (keyState n fkey) Nr r := by
  have hlast : n * (Nr + 1) - n = Nr * n := by
    rw [Nat.mul_succ, Nat.add_sub_cancel, Nat.mul_comm]
  have hoff : ∀ r, Nr * n - r * n = (Nr - r) * n := fun r => (Nat.sub_mul Nr r n).symm
  simp only [reverseKeys, hlast, hoff]
  rw [keyState_fill, keyState_middle fkey _ hNr (Nat.le_refl Nr), keyState_fillAt]
  unfold invKeys
  by_cases h0 : r = 0
  · subst h0
    simp only [if_true, true_or, Nat.sub_zero]
    rfl
  · by_cases hlastr : r = Nr
    · subst hlastr
      simp only [h0, if_true, if_false, or_true, Nat.sub_self]
      funext i
      simp [columns, keyState]
    · have hmid : Nr - Nr < r ∧ r < Nr := by omega
      simp only [h0, hlastr, hmid, if_true, if_false, or_false, and_self]

/-! ## The two block functions -/

section BlockFunctions
variable {n : ℕ} [NeZero n]

theorem encrypt_eq (g : KeyData) (nk : ℕ) (key : List Byte) {buff : List Byte}
    (hbuff : buff.length = 4 * n) :
    let gk := gkey gentables g n nk key
    toState n (encrypt gentables gk buff) =
        encryptState sBox (Fin.ofNat n 1) (Fin.ofNat n (offset2 n)) (Fin.ofNat n (offset3 n))
          (keyState n gk.fkey) gk.Nr (toState n buff) ∧
      (encrypt gentables gk buff).length = 4 * n := by
  intro gk
  have hNr : 0 < gk.Nr := by
    simp only [gk, gkey]
    split <;> omega
  have h := cryptBlock_eq (increments_forward 1 (offset2 n) (offset3 n) g.fi) ftable_roundTable gk.fkey hNr
    hbuff
  unfold encrypt
  rw [gentables_fbsub]
  exact h

theorem decrypt_eq (g : KeyData) (nk : ℕ) (hn : offset3 n ≤ n) (key : List Byte) {buff : List Byte}
    (hbuff : buff.length = 4 * n) :
    let gk := gkey gentables g n nk key
    toState n (decrypt gentables gk buff) =
        decryptState invSBox (Fin.ofNat n 1) (Fin.ofNat n (offset2 n)) (Fin.ofNat n (offset3 n))
          (invKeys (keyState n gk.fkey) gk.Nr) gk.Nr (toState n buff) ∧
      (decrypt gentables gk buff).length = 4 * n := by
  intro gk
  have hNr : 0 < gk.Nr := by
    simp only [gk, gkey]
    split <;> omega
  have h2 : offset2 n ≤ n := by
    unfold offset2 offset3 at *
    split at hn <;> split <;> omega
  have h1 : 1 ≤ n := NeZero.one_le
  have h := cryptBlock_eq (increments_reverse h1 h2 hn g.ri) rtable_roundTable gk.rkey hNr hbuff
  have hkeys : ∀ r ≤ gk.Nr, keyState n gk.rkey r = invKeys (keyState n gk.fkey) gk.Nr r :=
    fun r hr => keyState_reverseKeys hNr gk.fkey g.rkey hr
  rw [KeyAlternating.cipher_congr _ hkeys] at h
  unfold decrypt
  rw [gentables_rbsub]
  exact h

end BlockFunctions

/-- Decryption after encryption restores a block, for all sizes and whatever the globals held. -/
theorem aes_decrypt_encrypt (g : KeyData) {nb nk : ℕ} (hnb : nb ∈ [4, 6, 8]) (_hnk : nk ∈ [4, 6, 8])
    {key buff : List Byte} (_hkey : key.length = 4 * nk) (hbuff : buff.length = 4 * nb) :
    let gk := gkey gentables g nb nk key
    decrypt gentables gk (encrypt gentables gk buff) = buff := by
  intro gk
  have hpos : nb ≠ 0 := by
    rintro rfl
    simp at hnb
  have hoff : offset3 nb ≤ nb := by
    revert hnb
    simp only [List.mem_cons, List.not_mem_nil, or_false, offset3]
    split <;> omega
  have : NeZero nb := ⟨hpos⟩
  have hNr : 0 < gk.Nr := by
    simp only [gk, gkey]
    split <;> omega
  obtain ⟨henc, henclen⟩ := encrypt_eq (n := nb) g nk key hbuff
  obtain ⟨hdec, hdeclen⟩ := decrypt_eq (n := nb) g nk hoff key henclen
  refine eq_of_toState_eq hdeclen hbuff ?_
  rw [hdec, henc]
  exact decryptState_encryptState invSBox_sBox _ _ _ _ hNr _

theorem aes_decrypt_encrypt_sample :
    let g : KeyData := ⟨0, 0, 0, fun _ => 0, fun _ => 0, fun _ => 0, fun _ => 0⟩
    let gk := gkey gentables g 6 8 (allBytes.take 32)
    decrypt gentables gk (encrypt gentables gk (allBytes.take 24)) = allBytes.take 24 :=
  aes_decrypt_encrypt _ (by decide) (by decide) (by simp [allBytes]) (by simp [allBytes])

end StarLib.Aes
