import StarLib.Aes.KeySchedule
import StarLib.Rijndael.Block

/-! # The two Rijndael implementations agree

`AES.cpp` and `Rijndael.cpp` read a block into the same columns, expand a key into the same columns and
run the same number of rounds of the same cipher. Neither word order nor table layout is visible in
the bytes that come out.
-/

namespace StarLib
open Foundations StarLib.Aes StarLib.Rijndael
set_option autoImplicit false
set_option maxHeartbeats 250000
set_option maxRecDepth 120000

theorem gkey_Nr (g : KeyData) {nk nb : ℕ} (hnk : nk = 4 ∨ nk = 6 ∨ nk = 8) (hnb : nb = 4 ∨ nb = 6 ∨ nb = 8)
    (key : List Byte) : (gkey gentables g nb nk key).Nr = roundCount (4 * nk) (4 * nb) := by
  rcases hnk with rfl | rfl | rfl <;> rcases hnb with rfl | rfl | rfl <;> rfl

section Keys
variable {g : KeyData} {o : CRijndael} {key : List Byte} {nk nb : ℕ}
variable (hnk : nk = 4 ∨ nk = 6 ∨ nk = 8) (hnb : nb = 4 ∨ nb = 6 ∨ nb = 8) (h : Keyed key nk nb o)
include hnk hnb h

theorem iROUNDS_eq : o.iROUNDS = (gkey gentables g nb nk key).Nr := by
  rw [h.rounds, gkey_Nr g hnk hnb key]

theorem roundKey_eq_keyState {r : ℕ} (hr : r ≤ (gkey gentables g nb nk key).Nr) :
    roundKey nb o.Ke r = keyState nb (gkey gentables g nb nk key).fkey r := by
  have hround := h.encryption r (by rw [iROUNDS_eq hnk hnb h]; exact hr)
  rw [hround]
  funext i
  refine (gkey_fkey g nb (by omega) (by omega) ?_).symm
  have hi := i.isLt
  have hmul : r * nb ≤ (gkey gentables g nb nk key).Nr * nb := Nat.mul_le_mul_right nb hr
  rw [Nat.mul_comm nb, Nat.succ_mul]
  omega

theorem encryptBlockBody_eq_encrypt {buff : List Byte} (hbuff : buff.length = 4 * nb) :
    encryptBlockBody o buff = encrypt gentables (gkey gentables g nb nk key) buff := by
  have : NeZero nb := ⟨by omega⟩
  obtain ⟨hR, hRlen⟩ := encryptBlockBody_eq h hnb buff
  obtain ⟨hA, hAlen⟩ := encrypt_eq (n := nb) g nk key hbuff
  refine eq_of_toState_eq hRlen hAlen ?_
  rw [hR, hA, iROUNDS_eq (g := g) hnk hnb h]
  exact KeyAlternating.cipher_congr _ fun r hr => roundKey_eq_keyState hnk hnb h hr

theorem decryptBlockBody_eq_decrypt {buff : List Byte} (hbuff : buff.length = 4 * nb) :
    decryptBlockBody o buff = decrypt gentables (gkey gentables g nb nk key) buff := by
  have : NeZero nb := ⟨by omega⟩
  have hoff : offset3 nb ≤ nb := by
    unfold offset3
    split <;> omega
  obtain ⟨hR, hRlen⟩ := decryptBlockBody_eq h hnb buff
  obtain ⟨hA, hAlen⟩ := decrypt_eq (n := nb) g nk hoff key hbuff
  refine eq_of_toState_eq hRlen hAlen ?_
  rw [hR, hA, iROUNDS_eq (g := g) hnk hnb h]
  refine KeyAlternating.cipher_congr _ fun r hr => ?_
  unfold invKeys
  rw [roundKey_eq_keyState (g := g) hnk hnb h (by omega)]

end Keys

/-- Whatever was in the globals and in the object before, both implementations encrypt and decrypt
every block alike. -/
theorem implementations_agree (g : KeyData) (o : CRijndael) {nk nb : ℕ} (hnk : nk ∈ [4, 6, 8])
    (hnb : nb ∈ [4, 6, 8]) {key chain buff : List Byte} (_hkey : key.length = 4 * nk)
    (_hchain : chain.length = 4 * nb) (hbuff : buff.length = 4 * nb) :
    ∃ o', makeKey (some key) chain (4 * nk) (4 * nb) o = .ok o' ∧
      encryptBlock o' buff = .ok (encrypt gentables (gkey gentables g nb nk key) buff) ∧
      decryptBlock o' buff = .ok (decrypt gentables (gkey gentables g nb nk key) buff) := by
  simp only [List.mem_cons, List.not_mem_nil, or_false] at hnk hnb
  obtain ⟨o', hmake, hkeyed, _⟩ := makeKey_keyed key chain hnk hnb o
  refine ⟨o', hmake, ?_, ?_⟩
  · simp only [encryptBlock, hkeyed.init, Bool.true_eq_false, if_false,
      encryptBlockBody_eq_encrypt (g := g) hnk hnb hkeyed hbuff]
  · simp only [decryptBlock, hkeyed.init, Bool.true_eq_false, if_false,
      decryptBlockBody_eq_decrypt (g := g) hnk hnb hkeyed hbuff]

theorem implementations_agree_sample :
    let g : KeyData := ⟨0, 0, 0, fun _ => 0, fun _ => 0, fun _ => 0, fun _ => 0⟩
    let o : CRijndael := ⟨false, fun _ _ => 0, fun _ _ => 0, 0, 0, 0, [], []⟩
    let key := allBytes.take 32
    let buff := allBytes.take 24
    ∃ o', makeKey (some key) buff 32 24 o = .ok o' ∧
      encryptBlock o' buff = .ok (encrypt gentables (gkey gentables g 6 8 key) buff) ∧
      decryptBlock o' buff = .ok (decrypt gentables (gkey gentables g 6 8 key) buff) :=
  implementations_agree _ _ (by decide : 8 ∈ [4, 6, 8]) (by decide : 6 ∈ [4, 6, 8]) (by simp [allBytes])
    (by simp [allBytes]) (by simp [allBytes])

end StarLib
