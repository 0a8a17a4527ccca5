import StarLib.Foundations.ChainModes
import StarLib.Rijndael.Block

/-! # `CRijndael::Encrypt` and `CRijndael::Decrypt`

The calls work on whole buffers and leave the chain block in the object for the next call. A call is
a run of the chain modes over the blocks of its buffer (`encryptLoop_eq`, `decryptLoop_eq`); a
sequence of calls on two objects with one key then restores every plaintext and keeps the chains equal.
-/

namespace StarLib.Rijndael
open Foundations Foundations.ChainModes
set_option autoImplicit false
set_option maxHeartbeats 250000
set_option maxRecDepth 120000

/-- The values of `CBC` and `CFB` in the enumeration of modes; every other value means `ECB`. -/
def CBC : ℤ := 1

def CFB : ℤ := 2

def xorBlock (buff chain : List Byte) : List Byte := List.zipWith (· ^^^ ·) buff chain

/-- One turn of a loop of `Encrypt` on the block at `pin`: what goes to `presult`, and the chain. -/
def encryptTurn (o : CRijndael) (iMode : ℤ) (pin chain : List Byte) : List Byte × List Byte :=
  if iMode = CBC then
    let chain := xorBlock chain pin
    let presult := encryptBlockBody o chain
    (presult, presult)
  else if iMode = CFB then
    let presult := encryptBlockBody o chain
    let presult := xorBlock presult pin
    (presult, presult)
  else (encryptBlockBody o pin, chain)

def decryptTurn (o : CRijndael) (iMode : ℤ) (pin chain : List Byte) : List Byte × List Byte :=
  if iMode = CBC then
    let presult := decryptBlockBody o pin
    let presult := xorBlock presult chain
    (presult, pin)
  else if iMode = CFB then
    let presult := encryptBlockBody o chain
    let presult := xorBlock presult pin
    (presult, pin)
  else (decryptBlockBody o pin, chain)

/-- `k` turns from `pin` on, which moves by `m_blockSize` bytes a turn. -/
def blockLoop (blockSize : ℕ) (turn : List Byte → List Byte → List Byte × List Byte) :
    ℕ → List Byte → List Byte → List Byte × List Byte
  | 0, _, chain => ([], chain)
  | k + 1, pin, chain =>
    let r := turn (pin.take blockSize) chain
    let rest := blockLoop blockSize turn k (pin.drop blockSize) r.2
    (r.1 ++ rest.1, rest.2)

/-- `Encrypt`. The block functions and `Xor` check `m_bKeyInit` again, with the same outcome. -/
def encrypt (inp : List Byte) (n : ℕ) (iMode : ℤ) (o : CRijndael) : Except String (List Byte × CRijndael) :=
  if o.bKeyInit = false then .error szErrorMsg1
  else if n = 0 ∨ n % o.blockSize ≠ 0 then .error szErrorMsg2
  else
    let r := blockLoop o.blockSize (encryptTurn o iMode) (n / o.blockSize) inp o.chain
    .ok (r.1, { o with chain := r.2 })

def decrypt (inp : List Byte) (n : ℕ) (iMode : ℤ) (o : CRijndael) : Except String (List Byte × CRijndael) :=
  if o.bKeyInit = false then .error szErrorMsg1
  else if n = 0 ∨ n % o.blockSize ≠ 0 then .error szErrorMsg2
  else
    let r := blockLoop o.blockSize (decryptTurn o iMode) (n / o.blockSize) inp o.chain
    .ok (r.1, { o with chain := r.2 })

/-- A sequence of calls on one object: the result and the chain block after each of them. -/
def callSequence (call : List Byte → ℕ → ℤ → CRijndael → Except String (List Byte × CRijndael)) :
    List (ℤ × List Byte) → CRijndael → Except String (List (List Byte × List Byte))
  | [], _ => .ok []
  | (iMode, inp) :: calls, o =>
    match call inp inp.length iMode o with
    | .error e => .error e
    | .ok (result, o) =>
      match callSequence call calls o with
      | .error e => .error e
      | .ok rest => .ok ((result, o.chain) :: rest)

/-! ## Buffers and blocks -/

def modeOf (iMode : ℤ) : Mode := if iMode = CBC then .CBC else if iMode = CFB then .CFB else .ECB

theorem encryptTurn_eq (o : CRijndael) (iMode : ℤ) (pin chain : List Byte) :
    encryptTurn o iMode pin chain = encStep xorBlock (encryptBlockBody o) (modeOf iMode) chain pin := by
  unfold encryptTurn modeOf
  split
  · rfl
  · split <;> rfl

theorem decryptTurn_eq (o : CRijndael) (iMode : ℤ) (pin chain : List Byte) :
    decryptTurn o iMode pin chain =
      decStep xorBlock (encryptBlockBody o) (decryptBlockBody o) (modeOf iMode) chain pin := by
  unfold decryptTurn modeOf
  split
  · rfl
  · split <;> rfl

def blocks (blockSize : ℕ) : ℕ → List Byte → List (List Byte)
  | 0, _ => []
  | k + 1, pin => pin.take blockSize :: blocks blockSize k (pin.drop blockSize)

theorem blocks_length_of_mem {blockSize k : ℕ} : ∀ {pin : List Byte}, pin.length = k * blockSize →
    ∀ b ∈ blocks blockSize k pin, b.length = blockSize := by
  induction k with
  | zero =>
    intro pin _ b hb
    simp [blocks] at hb
  | succ k ih =>
    intro pin hpin b hb
    rw [Nat.succ_mul] at hpin
    rcases List.mem_cons.mp hb with rfl | hb
    · rw [List.length_take]
      omega
    · exact ih (by rw [List.length_drop]; omega) b hb

theorem blocks_flatten {blockSize : ℕ} (bs : List (List Byte)) (h : ∀ b ∈ bs, b.length = blockSize) :
    blocks blockSize bs.length bs.flatten = bs := by
  induction bs with
  | nil => rfl
  | cons b bs ih =>
    have hb := h b (List.mem_cons_self ..)
    simp only [List.length_cons, blocks, List.flatten_cons]
    rw [List.take_left' hb, List.drop_left' hb, ih fun c hc => h c (List.mem_cons_of_mem b hc)]

theorem flatten_length {blockSize : ℕ} (bs : List (List Byte)) (h : ∀ b ∈ bs, b.length = blockSize) :
    bs.flatten.length = bs.length * blockSize := by
  induction bs with
  | nil => simp
  | cons b bs ih =>
    have hb := h b (List.mem_cons_self ..)
    rw [List.flatten_cons, List.length_append, hb, ih fun c hc => h c (List.mem_cons_of_mem b hc),
      List.length_cons, Nat.succ_mul, Nat.add_comm]

theorem flatten_blocks {blockSize k : ℕ} : ∀ {pin : List Byte}, pin.length = k * blockSize →
    (blocks blockSize k pin).flatten = pin := by
  induction k with
  | zero =>
    intro pin hpin
    have hnil : pin = [] := List.eq_nil_of_length_eq_zero (by omega)
    rw [hnil]
    rfl
  | succ k ih =>
    intro pin hpin
    rw [Nat.succ_mul] at hpin
    simp only [blocks, List.flatten_cons]
    rw [ih (by rw [List.length_drop]; omega), List.take_append_drop]

theorem blocks_length (blockSize k : ℕ) : ∀ pin : List Byte, (blocks blockSize k pin).length = k := by
  induction k with
  | zero =>
    intro pin
    rfl
  | succ k ih =>
    intro pin
    simp only [blocks, List.length_cons, ih]

/-- The loop of `Encrypt` is the encrypting run over the blocks. -/
theorem encryptLoop_eq (o : CRijndael) (iMode : ℤ) (k : ℕ) : ∀ pin chain : List Byte,
    let run := encBlocks xorBlock (encryptBlockBody o) (modeOf iMode) chain (blocks o.blockSize k pin)
    blockLoop o.blockSize (encryptTurn o iMode) k pin chain = (run.1.flatten, run.2) := by
  induction k with
  | zero =>
    intro pin chain
    rfl
  | succ k ih =>
    intro pin chain
    simp only [blockLoop, blocks, encBlocks, encryptTurn_eq, ih, List.flatten_cons]

theorem decryptLoop_eq (o : CRijndael) (iMode : ℤ) (k : ℕ) : ∀ pin chain : List Byte,
    let run := decBlocks xorBlock (encryptBlockBody o) (decryptBlockBody o) (modeOf iMode) chain
      (blocks o.blockSize k pin)
    blockLoop o.blockSize (decryptTurn o iMode) k pin chain = (run.1.flatten, run.2) := by
  induction k with
  | zero =>
    intro pin chain
    rfl
  | succ k ih =>
    intro pin chain
    simp only [blockLoop, blocks, decBlocks, decryptTurn_eq, ih, List.flatten_cons]

/-! ## Two objects with one key -/

section Pair
variable {key : List Byte} {nk nb : ℕ} {oe od : CRijndael}
variable (hnb : nb = 4 ∨ nb = 6 ∨ nb = 8) (he : Keyed key nk nb oe) (hd : Keyed key nk nb od)
include hnb he hd

theorem encryptBlockBody_same {inp : List Byte} : encryptBlockBody od inp = encryptBlockBody oe inp := by
  have : NeZero nb := ⟨by omega⟩
  obtain ⟨h1, hlen1⟩ := encryptBlockBody_eq hd hnb inp
  obtain ⟨h2, hlen2⟩ := encryptBlockBody_eq he hnb inp
  have hR : od.iROUNDS = oe.iROUNDS := by rw [hd.rounds, he.rounds]
  refine eq_of_toState_eq hlen1 hlen2 ?_
  rw [h1, h2, hR]
  refine KeyAlternating.cipher_congr _ fun r hr => ?_
  rw [hd.encryption r (by rw [hR]; exact hr), he.encryption r hr]

theorem chainLaws : Laws (fun b : List Byte => b.length = 4 * nb) xorBlock (encryptBlockBody oe)
    (encryptBlockBody od) (decryptBlockBody od) := by
  have : NeZero nb := ⟨by omega⟩
  refine ⟨?_, ?_, ?_, ?_, ?_, ?_⟩
  · intro a b ha hb
    simp [xorBlock, ha, hb]
  · intro a _
    exact (encryptBlockBody_eq he hnb a).2
  · intro a _
    exact encryptBlockBody_same hnb he hd
  · intro a b ha hb
    apply List.ext_getElem
    · simp [xorBlock, ha, hb]
    · intro i _ _
      simp only [xorBlock, List.getElem_zipWith]
      rw [← BitVec.xor_assoc, BitVec.xor_self, BitVec.zero_xor]
  · intro a b ha hb
    apply List.ext_getElem
    · simp [xorBlock, ha, hb]
    · intro i _ _
      simp only [xorBlock, List.getElem_zipWith]
      rw [BitVec.xor_comm, ← BitVec.xor_assoc, BitVec.xor_self, BitVec.zero_xor]
  · intro a ha
    rw [← encryptBlockBody_same hnb he hd]
    exact decryptBlockBody_encryptBlockBody hd hnb ha

theorem decrypt_encrypt (iMode : ℤ) {inp : List Byte} (hpos : 0 < inp.length)
    (hdvd : 4 * nb ∣ inp.length) (hchain : oe.chain.length = 4 * nb) (hsame : od.chain = oe.chain) :
    ∃ result chain, encrypt inp inp.length iMode oe = .ok (result, { oe with chain := chain }) ∧
      decrypt result result.length iMode od = .ok (inp, { od with chain := chain }) ∧
      chain.length = 4 * nb := by
  obtain ⟨k, hk⟩ := hdvd
  have hsize : 0 < 4 * nb := by omega
  have hdiv : inp.length / (4 * nb) = k := by rw [hk, Nat.mul_div_cancel_left _ hsize]
  have hmod : inp.length % (4 * nb) = 0 := by rw [hk, Nat.mul_mod_right]
  have hk' : inp.length = k * (4 * nb) := by rw [hk, Nat.mul_comm]
  have laws := chainLaws hnb he hd
  have hvalid := blocks_length_of_mem hk'
  obtain ⟨hcipher, hlast⟩ := encBlocks_valid laws (modeOf iMode) _ hchain hvalid
  have hback := decBlocks_encBlocks laws (modeOf iMode) _ hchain hvalid
  have hcount := encBlocks_length xorBlock (encryptBlockBody oe) (modeOf iMode)
    (blocks (4 * nb) k inp) oe.chain
  rw [blocks_length] at hcount
  generalize hrun : encBlocks xorBlock (encryptBlockBody oe) (modeOf iMode) oe.chain
    (blocks (4 * nb) k inp) = run at hcipher hlast hback hcount
  refine ⟨run.1.flatten, run.2, ?_, ?_, hlast⟩
  · simp only [encrypt, he.init, he.size, Bool.true_eq_false, if_false, hmod, hdiv]
    rw [if_neg (by omega)]
    have hloop := encryptLoop_eq oe iMode k inp oe.chain
    rw [he.size, hrun] at hloop
    rw [hloop]
  · have hlen : run.1.flatten.length = k * (4 * nb) := by
      rw [← hcount]
      exact flatten_length run.1 hcipher
    have hblocks := blocks_flatten run.1 hcipher
    rw [hcount] at hblocks
    simp only [decrypt, hd.init, hd.size, Bool.true_eq_false, if_false, hlen, Nat.mul_mod_left,
      Nat.mul_div_cancel _ hsize]
    rw [if_neg (by omega)]
    have hloop := decryptLoop_eq od iMode k run.1.flatten od.chain
    rw [hd.size, hblocks, hsame, hback] at hloop
    rw [hsame, hloop, flatten_blocks hk']

end Pair

theorem callSequence_decrypt_encrypt {key : List Byte} {nk nb : ℕ} (hnb : nb = 4 ∨ nb = 6 ∨ nb = 8)
    (calls : List (ℤ × List Byte)) (hcalls : ∀ c ∈ calls, 0 < c.2.length ∧ 4 * nb ∣ c.2.length) :
    ∀ oe od : CRijndael, Keyed key nk nb oe → Keyed key nk nb od → oe.chain.length = 4 * nb →
      od.chain = oe.chain →
      ∃ outs, outs.length = calls.length ∧ callSequence encrypt calls oe = .ok outs ∧
        callSequence decrypt (List.zipWith (fun c out => (c.1, out.1)) calls outs) od =
          .ok (List.zipWith (fun c out => (c.2, out.2)) calls outs) := by
  induction calls with
  | nil =>
    intro oe od _ _ _ _
    exact ⟨[], rfl, rfl, rfl⟩
  | cons c calls ih =>
    intro oe od he hd hchain hsame
    obtain ⟨iMode, inp⟩ := c
    obtain ⟨hpos, hdvd⟩ := hcalls _ (List.mem_cons_self ..)
    obtain ⟨result, chain, henc, hdec, hlen⟩ := decrypt_encrypt hnb he hd iMode hpos hdvd hchain hsame
    obtain ⟨outs, houts, hencs, hdecs⟩ := ih (fun c hc => hcalls c (List.mem_cons_of_mem _ hc))
      { oe with chain := chain } { od with chain := chain }
      ⟨he.init, he.size, he.rounds, he.encryption, he.decryption⟩
      ⟨hd.init, hd.size, hd.rounds, hd.encryption, hd.decryption⟩ hlen rfl
    refine ⟨(result, chain) :: outs, ?_, ?_, ?_⟩
    · simp only [List.length_cons, houts]
    · simp only [callSequence, henc, hencs]
    · simp only [List.zipWith_cons_cons, callSequence, hdec, hdecs]

/-- For every key, chain block and sizes, two objects that went through the same `makeKey` stay in
step: the calls of one decrypt what the calls of the other encrypt. -/
theorem decryptCalls_restore (memory memory' : CRijndael) {nk nb : ℕ} (hnk : nk ∈ [4, 6, 8])
    (hnb : nb ∈ [4, 6, 8]) {key chain : List Byte} (_hkey : key.length = 4 * nk)
    (hchain : chain.length = 4 * nb) (calls : List (ℤ × List Byte))
    (hcalls : ∀ c ∈ calls, 0 < c.2.length ∧ 4 * nb ∣ c.2.length) :
    ∃ oe od outs, makeKey (some key) chain (4 * nk) (4 * nb) (construct memory) = .ok oe ∧
      makeKey (some key) chain (4 * nk) (4 * nb) (construct memory') = .ok od ∧
      outs.length = calls.length ∧ callSequence encrypt calls oe = .ok outs ∧
      callSequence decrypt (List.zipWith (fun c out => (c.1, out.1)) calls outs) od =
        .ok (List.zipWith (fun c out => (c.2, out.2)) calls outs) := by
  simp only [List.mem_cons, List.not_mem_nil, or_false] at hnk hnb
  obtain ⟨oe, hmake, he, hche⟩ := makeKey_keyed key chain hnk hnb (construct memory)
  obtain ⟨od, hmake', hd, hchd⟩ := makeKey_keyed key chain hnk hnb (construct memory')
  have hlen : oe.chain.length = 4 * nb := by rw [hche, List.length_take, hchain, Nat.min_self]
  obtain ⟨outs, houts, hencs, hdecs⟩ := callSequence_decrypt_encrypt hnb calls hcalls oe od he hd hlen
    (by rw [hche, hchd])
  exact ⟨oe, od, outs, hmake, hmake', houts, hencs, hdecs⟩

theorem decryptCalls_restore_sample :
    let memory : CRijndael := ⟨false, fun _ _ => 0, fun _ _ => 0, 0, 0, 0, [], []⟩
    let calls : List (ℤ × List Byte) := [(CBC, allBytes.take 48), (CFB, allBytes.take 24)]
    ∃ oe od outs, makeKey (some (allBytes.take 16)) (allBytes.take 24) 16 24 (construct memory) = .ok oe ∧
      makeKey (some (allBytes.take 16)) (allBytes.take 24) 16 24 (construct memory) = .ok od ∧
      outs.length = 2 ∧ callSequence encrypt calls oe = .ok outs ∧
      callSequence decrypt (List.zipWith (fun c out => (c.1, out.1)) calls outs) od =
        .ok (List.zipWith (fun c out => (c.2, out.2)) calls outs) :=
  @decryptCalls_restore _ _ 4 6 (by decide) (by decide) (allBytes.take 16) (allBytes.take 24)
    (by simp [allBytes]) (by simp [allBytes]) [(CBC, allBytes.take 48), (CFB, allBytes.take 24)]
    (by simp [allBytes])

end StarLib.Rijndael
