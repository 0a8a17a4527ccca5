import Mathlib.Tactic.Common
import Mathlib.Data.List.Basic

/-! # Electronic code book, cipher block chaining and cipher feedback

The three modes over any block type with a block cipher `E`, its inverse `D` and an exclusive or. The
decrypting side has a block cipher `E'` of its own, as feedback mode needs the forward direction.
`Valid` singles out the blocks on which the laws hold (blocks of the right length). A step of the
decrypting side gives back the block and ends with the chain of the encrypting side; runs over
blocks follow by induction.
-/

namespace Foundations.ChainModes
set_option autoImplicit false
set_option maxHeartbeats 250000
set_option maxRecDepth 120000

inductive Mode
  | ECB
  | CBC
  | CFB
deriving DecidableEq, Repr

variable {β : Type*}

section Steps
variable (add : β → β → β) (E E' D : β → β)

/-- One block of the encrypting side: the ciphertext block and the new chain. -/
def encStep (mode : Mode) (chain p : β) : β × β :=
  match mode with
  | .ECB => (E p, chain)
  | .CBC => (E (add chain p), E (add chain p))
  | .CFB => (add (E chain) p, add (E chain) p)

/-- One block of the decrypting side: the plaintext block and the new chain. -/
def decStep (mode : Mode) (chain c : β) : β × β :=
  match mode with
  | .ECB => (D c, chain)
  | .CBC => (add (D c) chain, c)
  | .CFB => (add (E' chain) c, c)

def encBlocks (mode : Mode) : β → List β → List β × β
  | chain, [] => ([], chain)
  | chain, p :: ps =>
    let r := encBlocks mode (encStep add E mode chain p).2 ps
    ((encStep add E mode chain p).1 :: r.1, r.2)

def decBlocks (mode : Mode) : β → List β → List β × β
  | chain, [] => ([], chain)
  | chain, c :: cs =>
    let r := decBlocks mode (decStep add E' D mode chain c).2 cs
    ((decStep add E' D mode chain c).1 :: r.1, r.2)

end Steps

/-! ## Laws -/

/-- What the modes need of the exclusive or and of the block ciphers of the two sides. -/
structure Laws (Valid : β → Prop) (add : β → β → β) (E E' D : β → β) : Prop where
  add_valid : ∀ a b, Valid a → Valid b → Valid (add a b)
  enc_valid : ∀ a, Valid a → Valid (E a)
  enc_same : ∀ a, Valid a → E' a = E a
  add_cancel_left : ∀ a b, Valid a → Valid b → add a (add a b) = b
  add_cancel_middle : ∀ a b, Valid a → Valid b → add (add a b) a = b
  dec_enc : ∀ a, Valid a → D (E a) = a

section Inverse
variable {Valid : β → Prop} {add : β → β → β} {E E' D : β → β} (laws : Laws Valid add E E' D)
include laws

theorem encStep_valid (mode : Mode) {chain p : β} (hc : Valid chain) (hp : Valid p) :
    Valid (encStep add E mode chain p).1 ∧ Valid (encStep add E mode chain p).2 := by
  cases mode with
  | ECB => exact ⟨laws.enc_valid p hp, hc⟩
  | CBC =>
    have h := laws.enc_valid _ (laws.add_valid chain p hc hp)
    exact ⟨h, h⟩
  | CFB =>
    have h := laws.add_valid _ p (laws.enc_valid chain hc) hp
    exact ⟨h, h⟩

theorem decStep_encStep (mode : Mode) {chain p : β} (hc : Valid chain) (hp : Valid p) :
    decStep add E' D mode chain (encStep add E mode chain p).1 = (p, (encStep add E mode chain p).2) := by
  cases mode with
  | ECB => simp [encStep, decStep, laws.dec_enc p hp]
  | CBC =>
    have hcp := laws.add_valid chain p hc hp
    simp [encStep, decStep, laws.dec_enc _ hcp, laws.add_cancel_middle chain p hc hp]
  | CFB =>
    simp [encStep, decStep, laws.enc_same chain hc, laws.add_cancel_left _ p (laws.enc_valid chain hc) hp]

theorem encBlocks_valid (mode : Mode) (ps : List β) : ∀ {chain : β}, Valid chain →
    (∀ p ∈ ps, Valid p) →
    (∀ c ∈ (encBlocks add E mode chain ps).1, Valid c) ∧ Valid (encBlocks add E mode chain ps).2 := by
  induction ps with
  | nil =>
    intro chain hc _
    exact ⟨by simp [encBlocks], hc⟩
  | cons p ps ih =>
    intro chain hc hps
    obtain ⟨h1, h2⟩ := encStep_valid laws mode hc (hps p (List.mem_cons_self ..))
    obtain ⟨h3, h4⟩ := ih h2 fun q hq => hps q (List.mem_cons_of_mem p hq)
    exact ⟨by simpa [encBlocks] using ⟨h1, h3⟩, h4⟩

omit laws in
theorem encBlocks_length (add : β → β → β) (E : β → β) (mode : Mode) (ps : List β) :
    ∀ chain : β, (encBlocks add E mode chain ps).1.length = ps.length := by
  induction ps with
  | nil =>
    intro chain
    rfl
  | cons p ps ih =>
    intro chain
    simp only [encBlocks, List.length_cons, ih]

/-- Decrypting a run of blocks gives the run back and ends in the same chain. -/
theorem decBlocks_encBlocks (mode : Mode) (ps : List β) : ∀ {chain : β}, Valid chain →
    (∀ p ∈ ps, Valid p) →
    decBlocks add E' D mode chain (encBlocks add E mode chain ps).1 =
      (ps, (encBlocks add E mode chain ps).2) := by
  induction ps with
  | nil =>
    intro chain _ _
    rfl
  | cons p ps ih =>
    intro chain hc hps
    have hp := hps p (List.mem_cons_self ..)
    have hstep := decStep_encStep laws mode hc hp
    have hrest := ih (encStep_valid laws mode hc hp).2 fun q hq => hps q (List.mem_cons_of_mem p hq)
    simp only [encBlocks, decBlocks, hstep, hrest]

end Inverse

end Foundations.ChainModes
