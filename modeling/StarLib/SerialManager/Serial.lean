import StarLib.SerialManager.FinalData

/-! # What a serial depends on

For a card number of two characters or more the two overloads agree, whatever memory each of them
finds. With no character or one, the feedback loop reads bytes of `data` before it writes them, and the
memory can make the extended number anything (`short_extension`); the first characters of the serial
then show a byte of the second block.
-/

namespace StarLib.SerialManager
open Foundations
set_option autoImplicit false
set_option maxHeartbeats 250000
set_option maxRecDepth 120000

theorem serialChar_same (mem mem' : Memory) {card : CString} (hcard : 2 ≤ card.length) (hle : card.length ≤ 24) :
    firstBytes 20 (serialChar mem (cardNumToDataCString card mem.data 24)) =
      firstBytes 20 (serialChar mem' (cardNumToDataCString card mem'.data 24)) :=
  firstBytes_congr (serialChar_agree mem mem' (cardNumToData_agree hcard hle mem.data mem'.data))

/-- The feedback loop arrives at `v` when every turn does, from cells below it that are done and cells from
it on that are still as they were. -/
theorem feedback_reaches {len nSize : ℕ} {a v : ℕ → Byte} (hle : len ≤ nSize) (hbelow : AgreeBelow len a v)
    (hturn : ∀ i d, len ≤ i → AgreeBelow i d v → (∀ k, i ≤ k → d k = a k) → d (i - len) ^^^ d (i - len + 1) = v i) :
    AgreeBelow nSize (feedback len nSize a) v := by
  refine (forRange_inv (P := fun i (d : ℕ → Byte) => AgreeBelow i d v ∧ ∀ k, i ≤ k → d k = a k) hle
    ⟨hbelow, fun _ _ => rfl⟩ ?_).1
  rintro i d hi _ ⟨hd, hrest⟩
  refine ⟨?_, fun k hk => ?_⟩
  · have hnext := hd.push (v i)
    rw [Function.update_eq_self] at hnext
    rwa [hturn i d hi hd hrest]
  · have hki : k ≠ i := by omega
    rw [Function.update_of_ne hki, hrest k (by omega)]

theorem xor_xor_self_left (x y : Byte) : x ^^^ (x ^^^ y) = y := by
  rw [← BitVec.xor_assoc, BitVec.xor_self, BitVec.zero_xor]

/-- With fewer than two characters the memory decides every byte past them. -/
theorem short_extension {card : CString} (hcard : card.length < 2) (v : ℕ → Byte)
    (hv : ∀ i < card.length, v i = card.getD i 0) :
    ∃ data, AgreeBelow 24 (cardNumToDataCString card data 24) (swapLoop 24 v) := by
  suffices hextend : ∃ data, AgreeBelow 24
      (feedback card.length 24 (fill card.length (fun i => card.getD i 0) data)) v by
    obtain ⟨data, hdata⟩ := hextend
    exact ⟨data, swapLoop_agree hdata⟩
  by_cases hempty : card.length = 0
  · -- the memory holds the sums of the bytes before, so that neighbours differ by the byte wanted
    let junk : ℕ → Byte := fun i => forRange 0 i (fun k x => x ^^^ v k) 0
    have hsucc : ∀ i, junk (i + 1) = junk i ^^^ v i := fun i => forRange_succ (Nat.zero_le i) _ _
    rw [hempty]
    refine ⟨junk, feedback_reaches (Nat.zero_le 24) (AgreeBelow.zero _ v) fun i d _ _ hrest => ?_⟩
    rw [Nat.sub_zero, hrest i (le_refl i), hrest (i + 1) (Nat.le_succ i)]
    show junk i ^^^ junk (i + 1) = v i
    rw [hsucc, xor_xor_self_left]
  · -- each cell holds the difference to the byte before
    have hone : card.length = 1 := by omega
    let junk : ℕ → Byte := fun i => v (i - 1) ^^^ v i
    rw [hone] at hv ⊢
    refine ⟨junk, feedback_reaches (by decide) (fun i hi => ?_) fun i d hi hd hrest => ?_⟩
    · rw [fill_apply_of_lt hi, hv i hi]
    · have hi' : i - 1 + 1 = i := by omega
      have hold : ¬ i < 1 := by omega
      rw [hi', hrest i (le_refl i), fill_apply, if_neg hold, hd (i - 1) (by omega), xor_xor_self_left]

/-! ### The first two characters -/

/-- The block `l`, `r` enciphered under the key of the serial. -/
def desBlock (l r : DWord) : DWord × DWord := desDesfunc (l, r) (scheduleWord desKeyBytes)

/-- The first word after SEAL, from the second word before RC5. -/
def leadWord (key : List DWord) (d1 : DWord) : DWord :=
  (rc5Block ⟨fun i => key.getD i 0, 15⟩ (0, d1)).1 ^^^ 1024

def wordChars (x : DWord) : Byte × Byte :=
  (stringdata.getD (charIndex (((x >>> 16) &&& 0x0000ffff).setWidth 8)).toNat 0,
   stringdata.getD (charIndex ((x &&& 0x0000ffff).setWidth 8)).toNat 0)

def packWord (x y : Byte) : DWord := y.setWidth 32 ||| ((((x.setWidth 32) &&& 0x0000ffff) <<< 16) &&& 0xffff0000)

/-- The second word before RC5: byte 2 of the first block and byte 6 of the second, after the exchange. -/
def secondWord (data : ℕ → Byte) : DWord :=
  packWord (desUnscrun (desBlock (desScrunch data 0).1 (desScrunch data 0).2) 2)
    (desUnscrun (desBlock (desScrunch data 8).1 (desScrunch data 8).2) 6)

theorem charToLong_one (mem : Memory) (data : ℕ → Byte) :
    charToLong (swapLoop 24 (desEncrypt mem.des mem.dc desKeyBytes 3 data)) 24 mem.ldata 1 = secondWord data := by
  have hek : AgreeBelow 32 (desKey mem.des mem.dc desKeyBytes).ek (scheduleWord desKeyBytes) :=
    fun m hm => desKey_ek mem.des mem.dc desKeyBytes hm
  have hdes : ∀ p < 8 * 3, desEncrypt mem.des mem.dc desKeyBytes 3 data p =
      desUnscrun (desDesfunc (desScrunch data (8 * (p / 8))) (scheduleWord desKeyBytes)) (p % 8) := by
    intro p hp
    rw [← desDesfunc_congr hek]
    exact desEnc_apply (desKey mem.des mem.dc desKeyBytes) hp data
  have hswap2 : ∀ d : ℕ → Byte, swapLoop 24 d 2 = d 2 := fun _ => rfl
  have hswap3 : ∀ d : ℕ → Byte, swapLoop 24 d 3 = d 14 := fun _ => rfl
  unfold charToLong
  rw [fill_apply_of_lt (by decide), hswap2, hswap3, hdes 2 (by decide), hdes 14 (by decide)]
  rfl

theorem mixedWords_zero (mem : Memory) (data : ℕ → Byte) :
    mixedWords mem data 0 ^^^ 1024 = leadWord (mixList 15 rckey) (secondWord data) := by
  have hctx : AgreeBelow (15 * 2 + 2) (rc5Key mem.pk (rc5Init mem.xk 15) rckey).xk
      (fun i => (mixList 15 rckey).getD i 0) := (rc5Key_holds mem.xk mem.pk 15 rckey (by decide)).2
  have hcongr := @rc5Block_congr (rc5Key mem.pk (rc5Init mem.xk 15) rckey)
    ⟨fun i => (mixList 15 rckey).getD i 0, 15⟩ rfl hctx
  have hblock : ∀ d0 d1, rc5Block (rc5Key mem.pk (rc5Init mem.xk 15) rckey) (d0, d1) =
      rc5Block ⟨fun i => (mixList 15 rckey).getD i 0, 15⟩ (0, d1) := by
    intro d0 d1
    rw [hcongr]
    exact rc5Block_first (by decide) d0 0 d1
  have hfirst := congrArg Prod.fst (rc5Encrypt_block (rc5Key mem.pk (rc5Init mem.xk 15) rckey) (by decide : 0 < 6)
    (charToLong (swapLoop 24 (desEncrypt mem.des mem.dc desKeyBytes 3 data)) 24 mem.ldata))
  rw [hblock, Nat.mul_zero, Nat.zero_add, charToLong_one] at hfirst
  unfold leadWord
  rw [← hfirst]
  rfl

theorem serialChar_lead (mem : Memory) (data : ℕ → Byte) :
    (serialChar mem data 0, serialChar mem data 1) = wordChars (mixedWords mem data 0 ^^^ 1024) := by
  have hfold : ∀ l f : ℕ → DWord, foldWords l f 0 = l 0 := by
    intro l f
    unfold foldWords
    rw [Function.update_of_ne (by decide), Function.update_of_ne (by decide), Function.update_of_ne (by decide),
      Function.update_of_ne (by decide), Function.update_of_ne (by decide), fill_apply_of_lt (by decide)]
  have hword := sealEnc_first mem.w mem.sc sealkey (mixedWords mem data) (by decide : 0 < 12)
  unfold serialChar encipher longToChar
  rw [fillPairs_apply _ _ _ (by decide), fillPairs_apply _ _ _ (by decide), if_pos (by decide), if_neg (by decide),
    Nat.zero_div, hfold, hword]
  rfl

/-! ### Two memories -/

def rckeyWords : List DWord :=
  [0xe112ed1f, 0xe5d1555c, 0x46e70c75, 0x6ade23cb, 0xa0ab3c7c, 0x74c878b3, 0x4f5e74fe, 0xb781c740, 0x4e735dc6,
   0x5a3858cf, 0xf618f7a6, 0x0427b63d, 0xf72ec986, 0x765b925e, 0x6a296f2b, 0xa79fb026, 0x9e4fb294, 0x9056a300,
   0x84a9c66b, 0xce95d5ce, 0x76ba131f, 0x420e6c6c, 0x98027aba, 0xd87f220a, 0x27933fb8, 0xf722538a, 0xaea24221,
   0xe970eda4, 0x453f2eff, 0x151aecd4, 0xe92a7d92, 0xebd22968]

theorem mixList_rckey : mixList 15 rckey = rckeyWords := by decide

/-- Byte 6 of a second block that starts with 0, and with 1. -/
theorem desBlock_tail :
    desUnscrun (desBlock ((0 : Byte).setWidth 32 <<< 24) 0) 6 = 166 ∧
      desUnscrun (desBlock ((1 : Byte).setWidth 32 <<< 24) 0) 6 = 228 := by decide

theorem wordChars_differ (x : Byte) :
    wordChars (leadWord rckeyWords (packWord x 166)) ≠ wordChars (leadWord rckeyWords (packWord x 228)) := by
  have hall : ∀ n < 256, wordChars (leadWord rckeyWords (packWord (BitVec.ofNat 8 n) 166)) ≠
      wordChars (leadWord rckeyWords (packWord (BitVec.ofNat 8 n) 228)) := by decide
  have hx := hall x.toNat x.isLt
  rwa [BitVec.ofNat_toNat, BitVec.setWidth_eq] at hx

/-- An extended card number with a first byte and a byte that starts the second block. -/
def twoBytes (b c : Byte) : ℕ → Byte := fun i => if i = 0 then b else if i = 8 then c else 0

theorem scrunch_twoBytes (b c : Byte) : desScrunch (swapLoop 24 (twoBytes b c)) 0 = (b.setWidth 32 <<< 24, 0) ∧
    desScrunch (swapLoop 24 (twoBytes b c)) 8 = (c.setWidth 32 <<< 24, 0) := by
  have hword : ∀ x : DWord, x ||| (0 : Byte).setWidth 32 <<< 16 ||| (0 : Byte).setWidth 32 <<< 8 |||
      (0 : Byte).setWidth 32 = x := by
    intro x
    simp
  have hzero : (0 : Byte).setWidth 32 <<< 24 = 0 := rfl
  exact ⟨Prod.ext (hword _) ((hword _).trans hzero), Prod.ext (hword _) ((hword _).trans hzero)⟩

theorem lead_twoBytes (mem : Memory) (b c : Byte) :
    (serialChar mem (swapLoop 24 (twoBytes b c)) 0, serialChar mem (swapLoop 24 (twoBytes b c)) 1) =
      wordChars (leadWord rckeyWords (packWord (desUnscrun (desBlock (b.setWidth 32 <<< 24) 0) 2)
        (desUnscrun (desBlock (c.setWidth 32 <<< 24) 0) 6))) := by
  obtain ⟨h0, h8⟩ := scrunch_twoBytes b c
  rw [serialChar_lead, mixedWords_zero, mixList_rckey, secondWord, h0, h8]

/-- Two memories that extend a card number to 0 and to 1 in byte 8 give two serials. -/
theorem serials_differ {card : CString} {b : Byte} {data data' : ℕ → Byte}
    (hdata : AgreeBelow 24 (cardNumToDataCString card data 24) (swapLoop 24 (twoBytes b 0)))
    (hdata' : AgreeBelow 24 (cardNumToDataCString card data' 24) (swapLoop 24 (twoBytes b 1))) :
    firstBytes 20 (serialChar (Memory.withData data) (cardNumToDataCString card data 24)) ≠
      firstBytes 20 (serialChar (Memory.withData data') (cardNumToDataCString card data' 24)) := by
  intro heq
  have h0 := serialChar_agree (Memory.withData data) (Memory.withData data) hdata
  have h1 := serialChar_agree (Memory.withData data') (Memory.withData data') hdata'
  have hchar := agreeBelow_of_firstBytes heq
  have hpair := congrArg₂ Prod.mk (hchar 0 (by decide)) (hchar 1 (by decide))
  rw [h0 0 (by decide), h0 1 (by decide), h1 0 (by decide), h1 1 (by decide),
    lead_twoBytes, lead_twoBytes, desBlock_tail.1, desBlock_tail.2] at hpair
  exact wordChars_differ _ hpair

theorem short_serials_differ {card : CString} (hcard : card.length < 2) :
    ∃ data data', firstBytes 20 (serialChar (Memory.withData data) (cardNumToDataCString card data 24)) ≠
      firstBytes 20 (serialChar (Memory.withData data') (cardNumToDataCString card data' 24)) := by
  have hb : ∀ c, ∀ i < card.length, twoBytes (card.getD 0 0) c i = card.getD i 0 := by
    intro c i hi
    have hi0 : i = 0 := by omega
    rw [hi0]
    rfl
  obtain ⟨data, hdata⟩ := short_extension hcard (twoBytes (card.getD 0 0) 0) (hb 0)
  obtain ⟨data', hdata'⟩ := short_extension hcard (twoBytes (card.getD 0 0) 1) (hb 1)
  exact ⟨data, data', serials_differ hdata hdata'⟩

/-! ## The condition -/

/-- The string overload gives one serial for the card number, whatever is in memory. -/
def StringSerialDetermined (card : CString) : Prop :=
  ∀ mem mem' finaldata, (getFinalDataCString mem card finaldata).2 = (getFinalDataCString mem' card finaldata).2

/-- The same of the overload on arrays. -/
def ArraySerialDetermined (cardnum : ℕ → Byte) (narcardSize : ℕ) : Prop :=
  ∀ mem mem' finaldata, firstBytes 20 (getFinalDataArray mem cardnum finaldata narcardSize 20).2 =
    firstBytes 20 (getFinalDataArray mem' cardnum finaldata narcardSize 20).2

end StarLib.SerialManager
