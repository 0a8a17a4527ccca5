import StarLib.Foundations.ChainedBuffers
import StarLib.LicenseLib.Des

/-! # The DES of LicenseLib in a chain

`av_des_crypt` on memory, with an initialisation vector that it leaves ready for the next call. A stream cut into calls in
one way is restored by calls that cut it in another way.
-/

namespace StarLib.LicenseLib
open Foundations
set_option autoImplicit false
set_option maxHeartbeats 250000
set_option maxRecDepth 120000

/-- Blocks in memory: `be2me_64` of what lies there. -/
def blockLayout : Layout QWord where
  size := 8
  byte := blockByte
  ofBytes := fun f => readBlock ((List.range 8).map f) 0
  byte_ofBytes := by
    intro f i hi
    rw [blockByte_readBlock _ _ hi]
    simp [List.getD_eq_getElem?_getD, hi]
  ext := eq_of_blockByte

structure CryptState where
  dst : ℕ
  src : ℕ
  iv_val : QWord
  mem : Ram

/-- A turn of the loop of `av_des_crypt`. Only the pointer of the first turn can be null. -/
def cryptTurn (d : AVDES) (iv : ℕ) (decrypt : Bool) (s : CryptState) : CryptState :=
  let key := fun n => d.round_keys.getD n []
  let src_val := if s.src = 0 then 0 else blockLayout.load s.mem s.src
  let next := fun (dst_val iv_val : QWord) =>
    { dst := s.dst + 8, src := s.src + 8, iv_val := if iv = 0 then 0 else iv_val,
      mem := blockLayout.store s.dst dst_val s.mem : CryptState }
  if decrypt then
    let tmp := src_val
    let src_val := if d.triple_des then desEncdec (desEncdec src_val (key 2) true) (key 1) false else src_val
    next (desEncdec src_val (key 0) true ^^^ s.iv_val) tmp
  else
    let dst_val := desEncdec (src_val ^^^ s.iv_val) (key 0) false
    let dst_val := if d.triple_des then desEncdec (desEncdec dst_val (key 1) true) (key 2) false else dst_val
    next dst_val dst_val

def cryptLoop (d : AVDES) (iv : ℕ) (decrypt : Bool) : ℕ → CryptState → CryptState
  | 0, s => s
  | count + 1, s => cryptLoop d iv decrypt count (cryptTurn d iv decrypt s)

/-- `av_des_crypt`; null pointers are 0. -/
def avDesCryptIv (d : AVDES) (dst src : ℕ) (count : ℤ) (iv : ℕ) (decrypt : Bool) (mem : Ram) : Ram :=
  let iv_val := if iv = 0 then 0 else blockLayout.load mem iv
  let s := cryptLoop d iv decrypt count.toNat ⟨dst, src, iv_val, mem⟩
  if iv = 0 then s.mem else blockLayout.store iv s.iv_val s.mem

/-- A stream in several calls, with the pointers moved on by what was processed. -/
def avDesCrypts (d : AVDES) (iv : ℕ) (decrypt : Bool) : List ℕ → ℕ → ℕ → Ram → Ram
  | [], _, _, mem => mem
  | count :: counts, dst, src, mem =>
    avDesCrypts d iv decrypt counts (dst + 8 * count) (src + 8 * count) (avDesCryptIv d dst src count iv decrypt mem)

/-! ## A call -/

/-- What a turn does to a block and to the chain. -/
def chainStep (d : AVDES) (iv : ℕ) (decrypt : Bool) (chain x : QWord) : QWord × QWord :=
  if decrypt then (avDesBlock d x true ^^^ chain, if iv = 0 then 0 else x)
  else (avDesBlock d (x ^^^ chain) false, if iv = 0 then 0 else avDesBlock d (x ^^^ chain) false)

theorem cryptTurn_step (d : AVDES) (iv : ℕ) (decrypt : Bool) (s : CryptState) (hsrc : s.src ≠ 0) :
    cryptTurn d iv decrypt s =
      ⟨s.dst + 8, s.src + 8, (chainStep d iv decrypt s.iv_val (blockLayout.load s.mem s.src)).2,
        blockLayout.store s.dst (chainStep d iv decrypt s.iv_val (blockLayout.load s.mem s.src)).1 s.mem⟩ := by
  unfold cryptTurn chainStep avDesBlock
  simp only [if_neg hsrc]
  cases decrypt with
  | true => rfl
  | false => rfl

theorem cryptLoop_chain (d : AVDES) (iv : ℕ) (decrypt : Bool) (count : ℕ) (s : CryptState) (hsrc : s.src ≠ 0) :
    (cryptLoop d iv decrypt count s).mem =
        (blockLayout.chainBlocks (chainStep d iv decrypt) count s.dst s.src s.iv_val s.mem).2 ∧
      (cryptLoop d iv decrypt count s).iv_val =
        (blockLayout.chainBlocks (chainStep d iv decrypt) count s.dst s.src s.iv_val s.mem).1 := by
  induction count generalizing s with
  | zero => exact ⟨rfl, rfl⟩
  | succ count ih =>
    rw [cryptLoop, cryptTurn_step d iv decrypt s hsrc]
    exact ih _ (Nat.ne_of_gt (Nat.add_pos_right _ (Nat.succ_pos 7)))

/-- Each direction takes the other back, with the same chain. -/
theorem chainStep_undo (d : AVDES) (iv iv' : ℕ) (hiv : iv = 0 ↔ iv' = 0) (chain x : QWord) :
    chainStep d iv' true chain (chainStep d iv false chain x).1 = (x, (chainStep d iv false chain x).2) := by
  unfold chainStep
  simp [avDesBlock_decrypt, BitVec.xor_assoc, hiv]

/-- The chain that a call begins with. -/
def chainAt (iv : ℕ) (mem : Ram) : QWord := if iv = 0 then 0 else blockLayout.load mem iv

/-- Two buffers of `n` bytes and an initialisation vector apart from both. -/
structure Streams (dst src iv n : ℕ) : Prop where
  source : src ≠ 0
  behind : Layout.Behind dst src n
  vector : iv = 0 ∨ (iv + 8 ≤ dst ∨ dst + n ≤ iv) ∧ (iv + 8 ≤ src ∨ src + n ≤ iv)

variable (d : AVDES) {dst src iv : ℕ} (decrypt : Bool) (mem : Ram)

/-- Without a vector every block is on its own. -/
theorem chain_electronic (xs : List QWord) :
    chainList (chainStep d 0 decrypt) 0 xs = (xs.map fun x => avDesBlock d x decrypt, 0) := by
  induction xs with
  | nil => rfl
  | cons x xs ih =>
    have hstep : chainStep d 0 decrypt 0 x = (avDesBlock d x decrypt, 0) := by
      unfold chainStep
      cases decrypt <;> simp
    rw [chainList, hstep, ih]
    rfl

/-- What the blocks of a call become, and the vector that it leaves. -/
theorem avDesCryptIv_loads {count : ℕ} (h : Streams dst src iv (8 * count)) :
    blockLayout.loads (avDesCryptIv d dst src count iv decrypt mem) dst count =
        (chainList (chainStep d iv decrypt) (chainAt iv mem) (blockLayout.loads mem src count)).1 ∧
      chainAt iv (avDesCryptIv d dst src count iv decrypt mem) =
        (chainList (chainStep d iv decrypt) (chainAt iv mem) (blockLayout.loads mem src count)).2 := by
  obtain ⟨hmem, hval⟩ := cryptLoop_chain d iv decrypt count ⟨dst, src, chainAt iv mem, mem⟩ h.source
  obtain ⟨hloads, hchain⟩ := blockLayout.chainBlocks_loads (chainStep d iv decrypt) h.behind (chainAt iv mem) mem
  rw [← hmem] at hloads
  rw [← hval] at hchain
  unfold avDesCryptIv
  rw [Int.toNat_natCast]
  change blockLayout.loads (if iv = 0 then (cryptLoop d iv decrypt count ⟨dst, src, chainAt iv mem, mem⟩).mem else _) dst
    count = _ ∧ chainAt iv (if iv = 0 then (cryptLoop d iv decrypt count ⟨dst, src, chainAt iv mem, mem⟩).mem else _) = _
  by_cases hiv : iv = 0
  · subst hiv
    exact ⟨hloads, (congrArg Prod.snd (chain_electronic d decrypt _)).symm⟩
  · rw [if_neg hiv]
    have hapart := (h.vector.resolve_left hiv).1
    constructor
    · rw [← hloads]
      refine blockLayout.loads_congr fun p hp => blockLayout.store_apart _ _ _ ?_
      change p < 8 * count at hp
      change dst + p < iv ∨ iv + 8 ≤ dst + p
      omega
    · rw [chainAt, if_neg hiv, blockLayout.load_store]
      exact hchain

theorem avDesCryptIv_apart {count : ℕ} (hsrc : src ≠ 0) {p : ℕ} (hp : p < dst ∨ dst + 8 * count ≤ p)
    (hout : iv = 0 ∨ p < iv ∨ iv + 8 ≤ p) : avDesCryptIv d dst src count iv decrypt mem p = mem p := by
  obtain ⟨hmem, -⟩ := cryptLoop_chain d iv decrypt count ⟨dst, src, chainAt iv mem, mem⟩ hsrc
  have hapart := blockLayout.chainBlocks_apart (chainStep d iv decrypt) count dst src (chainAt iv mem) mem hp
  rw [← hmem] at hapart
  unfold avDesCryptIv
  rw [Int.toNat_natCast]
  by_cases hiv : iv = 0
  · simp only [if_pos hiv]
    simpa only [chainAt, if_pos hiv] using hapart
  · simp only [if_neg hiv]
    rw [blockLayout.store_apart _ _ _ (hout.resolve_left hiv)]
    simpa only [chainAt, if_neg hiv] using hapart

/-- Without a vector, `av_des_crypt` writes what it writes in ECB mode. -/
theorem avDesCryptIv_electronic {count p : ℕ} (h : Streams dst src 0 (8 * count)) (hp : p < 8 * count) :
    avDesCryptIv d dst src count 0 decrypt mem (dst + p) =
      (avDesCrypt d ((List.range (8 * count)).map fun i => mem (src + i)) count decrypt).getD p 0 := by
  have hn : p / 8 < count := Nat.div_lt_of_lt_mul hp
  have hi : p % 8 < 8 := Nat.mod_lt p (by decide)
  have hloads := (avDesCryptIv_loads d decrypt mem h).1
  rw [show chainAt 0 mem = 0 from rfl, chain_electronic, Layout.loads, Layout.loads, List.map_map] at hloads
  have hblock := List.map_inj_left.1 hloads (p / 8) (List.mem_range.2 hn)
  have hread : readBlock ((List.range (8 * count)).map fun i => mem (src + i)) (8 * (p / 8)) =
      blockLayout.load mem (src + 8 * (p / 8)) := by
    refine readBlock_eq fun i hi => ?_
    have hin : 8 * (p / 8) + i < 8 * count := by omega
    change _ = blockLayout.byte (blockLayout.ofBytes _) i
    rw [blockLayout.byte_ofBytes _ i hi]
    simp [List.getD_eq_getElem?_getD, hin, Nat.add_assoc]
  have hbyte := congrArg (blockLayout.byte · (p % 8)) hblock
  have hplace : dst + 8 * (p / 8) + p % 8 = dst + p := by omega
  have hresult := avDesCrypt_getD d ((List.range (8 * count)).map fun i => mem (src + i)) decrypt hn hi
  rw [Nat.div_add_mod, hread] at hresult
  rw [hresult, ← hplace]
  refine Eq.trans ?_ hbyte
  exact (blockLayout.byte_ofBytes (fun i => avDesCryptIv d dst src count 0 decrypt mem (dst + 8 * (p / 8) + i)) _ hi).symm

/-! ## Several calls -/

theorem Streams.rest {m n : ℕ} (h : Streams dst src iv (8 * (m + n))) :
    Streams (dst + 8 * m) (src + 8 * m) iv (8 * n) := by
  obtain ⟨hsrc, hbehind, hvector⟩ := h
  unfold Layout.Behind at hbehind
  refine ⟨by omega, ?_, by omega⟩
  unfold Layout.Behind
  omega

theorem Streams.first {m n : ℕ} (h : Streams dst src iv (8 * (m + n))) : Streams dst src iv (8 * m) := by
  obtain ⟨hsrc, hbehind, hvector⟩ := h
  unfold Layout.Behind at hbehind
  refine ⟨hsrc, ?_, by omega⟩
  unfold Layout.Behind
  omega

theorem avDesCrypts_apart {counts : List ℕ} (hsrc : src ≠ 0) {p : ℕ} (hp : p < dst ∨ dst + 8 * counts.sum ≤ p)
    (hout : iv = 0 ∨ p < iv ∨ iv + 8 ≤ p) : avDesCrypts d iv decrypt counts dst src mem p = mem p := by
  induction counts generalizing dst src mem with
  | nil => rfl
  | cons count counts ih =>
    rw [List.sum_cons] at hp
    rw [avDesCrypts, ih _ (by omega) (by omega), avDesCryptIv_apart d decrypt mem hsrc (by omega) hout]

/-- Calls come to one chain over the stream, wherever it is cut. -/
theorem avDesCrypts_loads {counts : List ℕ} (h : Streams dst src iv (8 * counts.sum)) :
    blockLayout.loads (avDesCrypts d iv decrypt counts dst src mem) dst counts.sum =
        (chainList (chainStep d iv decrypt) (chainAt iv mem) (blockLayout.loads mem src counts.sum)).1 ∧
      chainAt iv (avDesCrypts d iv decrypt counts dst src mem) =
        (chainList (chainStep d iv decrypt) (chainAt iv mem) (blockLayout.loads mem src counts.sum)).2 := by
  induction counts generalizing dst src mem with
  | nil => exact ⟨rfl, rfl⟩
  | cons count counts ih =>
    rw [List.sum_cons] at h ⊢
    obtain ⟨hloads, hchain⟩ := avDesCryptIv_loads d decrypt mem h.first
    obtain ⟨hrest, hend⟩ := ih (avDesCryptIv d dst src count iv decrypt mem) h.rest
    have hunread : blockLayout.loads (avDesCryptIv d dst src count iv decrypt mem) (src + 8 * count) counts.sum =
        blockLayout.loads mem (src + 8 * count) counts.sum := by
      have hbehind := h.behind
      have hvector := h.vector
      unfold Layout.Behind at hbehind
      refine blockLayout.loads_congr fun p hp => ?_
      change p < 8 * counts.sum at hp
      exact avDesCryptIv_apart d decrypt mem h.source (by omega) (by omega)
    have hkept : blockLayout.loads (avDesCrypts d iv decrypt (count :: counts) dst src mem) dst count =
        blockLayout.loads (avDesCryptIv d dst src count iv decrypt mem) dst count := by
      have hvector := h.vector
      have hsource := h.source
      refine blockLayout.loads_congr fun p hp => ?_
      change p < 8 * count at hp
      rw [avDesCrypts]
      exact avDesCrypts_apart d decrypt _ (by omega) (by omega) (by omega)
    rw [hunread, hchain] at hrest hend
    have hsplit : ∀ (mem : Ram) (a : ℕ), blockLayout.loads mem a (count + counts.sum) =
        blockLayout.loads mem a count ++ blockLayout.loads mem (a + 8 * count) counts.sum :=
      fun mem a => blockLayout.loads_add mem a count counts.sum
    rw [hsplit, hsplit, chainList_append, hkept, hloads]
    exact ⟨congrArg _ hrest, hend⟩

/-- What was encrypted in calls of any sizes, in place or into another buffer, is decrypted by calls of any sizes over a
copy of it with a copy of the first vector; both sides are left with one vector. -/
theorem avDesCrypts_restore {dst' src' iv' : ℕ} {counts counts' : List ℕ} {mem' : Ram} (hsum : counts'.sum = counts.sum)
    (h : Streams dst src iv (8 * counts.sum)) (h' : Streams dst' src' iv' (8 * counts.sum)) (hiv : iv = 0 ↔ iv' = 0)
    (hcopy : ∀ p < 8 * counts.sum, mem' (src' + p) = avDesCrypts d iv false counts dst src mem (dst + p))
    (hvector : ∀ p < 8, mem' (iv' + p) = mem (iv + p)) :
    (∀ p < 8 * counts.sum, avDesCrypts d iv' true counts' dst' src' mem' (dst' + p) = mem (src + p)) ∧
      (iv ≠ 0 → ∀ p < 8, avDesCrypts d iv' true counts' dst' src' mem' (iv' + p) =
        avDesCrypts d iv false counts dst src mem (iv + p)) := by
  obtain ⟨hcipher, hleft⟩ := avDesCrypts_loads d false mem h
  rw [← hsum] at h'
  obtain ⟨hplain, hleft'⟩ := avDesCrypts_loads d true mem' h'
  have hstart : chainAt iv' mem' = chainAt iv mem := by
    unfold chainAt
    by_cases hzero : iv = 0
    · rw [if_pos hzero, if_pos (hiv.1 hzero)]
    · rw [if_neg hzero, if_neg (mt hiv.2 hzero)]
      exact blockLayout.load_eq_iff.2 hvector
  have hread : blockLayout.loads mem' src' counts.sum =
      (chainList (chainStep d iv false) (chainAt iv mem) (blockLayout.loads mem src counts.sum)).1 := by
    rw [← hcipher]
    exact blockLayout.loads_congr hcopy
  rw [hsum, hstart, hread, chainList_undo (chainStep_undo d iv iv' hiv)] at hplain hleft'
  refine ⟨fun p hp => blockLayout.loads_byte hplain hp, fun hne p hp => ?_⟩
  rw [← hleft] at hleft'
  unfold chainAt at hleft'
  rw [if_neg hne, if_neg (mt hiv.2 hne)] at hleft'
  exact blockLayout.load_eq_iff.1 hleft' p hp

/-- Three keys without bits, and a memory that holds the low byte of every address. -/
def sampleTriple : AVDES := ⟨[[], [], []], true⟩

def sampleMemory : Ram := fun p => BitVec.ofNat 8 p

/-- What a receiver holds: the ciphertext, and the vector that the sender began with. -/
def receivedMemory : Ram := fun p =>
  if p < 16 then sampleMemory p else avDesCrypts sampleTriple 8 false [1, 2] 16 16 sampleMemory p

theorem avDesCrypts_restore_sample :
    (∀ p < 8 * [1, 2].sum, avDesCrypts sampleTriple 8 true [2, 1] 16 16 receivedMemory (16 + p) = sampleMemory (16 + p)) ∧
      (8 ≠ 0 → ∀ p < 8, avDesCrypts sampleTriple 8 true [2, 1] 16 16 receivedMemory (8 + p) =
        avDesCrypts sampleTriple 8 false [1, 2] 16 16 sampleMemory (8 + p)) := by
  have hstreams : Streams 16 16 8 (8 * [1, 2].sum) :=
    ⟨by decide, Or.inl (Nat.le_refl 16), Or.inr ⟨Or.inl (Nat.le_refl 16), Or.inl (Nat.le_refl 16)⟩⟩
  refine avDesCrypts_restore sampleTriple sampleMemory (by decide) hstreams hstreams Iff.rfl (fun p _ => ?_) ?_
  · exact if_neg (by omega)
  · intro p hp
    exact if_pos (by omega)

end StarLib.LicenseLib
