import StarLib.Foundations.Buffers
import StarLib.Foundations.Loop

/-! # Strings of an ini file

`CIni::__GetStringDynamic`, `WriteString` and `AppendString` over the profile calls of the operating system. A result
is `none` where a cell outside a buffer is written, where a function of the run-time is called against its contract,
and where a loop is not done after as many turns as it was given.
-/

namespace StarLib.Ini
open Foundations
set_option autoImplicit false
set_option maxHeartbeats 250000
set_option maxRecDepth 120000

/-- A code unit of either character set. -/
abbrev TCHAR := ℕ

abbrev CString := List TCHAR

abbrev DWORD := BitVec 32

/-- What a `DWORD` or `size_t` keeps of a number. -/
def dword (n : ℕ) : ℕ := n % 2 ^ 32

theorem dword_of_lt {n : ℕ} (h : n < 2 ^ 32) : dword n = n := Nat.mod_eq_of_lt h

theorem dword_lt (n : ℕ) : dword n < 2 ^ 32 := Nat.mod_lt n (by decide)

/-- The two branches of `#if _MSC_VER >= 1400`. -/
inductive Build where
  | plain
  | secure
  deriving DecidableEq

/-- `new TCHAR[n]`, over what was in memory there. -/
def newBuffer (n : ℕ) (old : CString) : Buf TCHAR := ⟨n, fun i => old.getD i 0, true⟩

/-! ## The profile calls -/

/-- The texts of the file `m_pszPathName`, by section and key. -/
abbrev Profile := CString → CString → Option CString

/-- The text that is copied, without its terminator, and its length. -/
def getPrivateProfileString (f : Profile) (lpSection lpKey lpDefault : CString) (nSize : ℕ) : CString × ℕ :=
  let text := (f lpSection lpKey).getD lpDefault
  (text.take (nSize - 1), min text.length (nSize - 1))

def writePrivateProfileString (f : Profile) (lpSection lpKey lpString : CString) : Bool × Profile :=
  (true, Function.update f lpSection (Function.update (f lpSection) lpKey (some lpString)))

theorem written_here (f : Profile) (lpSection lpKey lpString : CString) :
    (writePrivateProfileString f lpSection lpKey lpString).2 lpSection lpKey = some lpString := by
  show Function.update f lpSection (Function.update (f lpSection) lpKey (some lpString)) lpSection lpKey = _
  rw [Function.update_self, Function.update_self]

/-! ## `CIni::__GetStringDynamic` -/

/-- `DEF_PROFILE_THRESHOLD` -/
def threshold : ℕ := 512

structure DynamicRun where
  dwLen : ℕ
  psz : CString
  dwCopied : ℕ

/-- A read with a buffer of `dwLen` characters. -/
def readWith (f : Profile) (lpSection lpKey lpDefault : CString) (dwLen : ℕ) : DynamicRun :=
  let copied := getPrivateProfileString f lpSection lpKey lpDefault dwLen
  ⟨dwLen, copied.1, copied.2⟩

def maybeTruncated (s : DynamicRun) : Bool := decide (s.dwLen ≤ dword (s.dwCopied + 1))

/-- `CIni::__GetStringDynamic`. -/
def getStringDynamic (fuel : ℕ) (f : Profile) (lpSection lpKey lpDefault : Option CString) : Option CString :=
  match lpSection, lpKey with
  | some sec, some key =>
    let read := readWith f sec key (lpDefault.getD [])
    let s := whileFuel maybeTruncated (fun s => read (dword (s.dwLen + threshold))) fuel (read threshold)
    if maybeTruncated s then none else some s.psz
  | _, _ => some (lpDefault.getD [])

/-- A `DWORD` has room for the buffer in which the text is seen to be complete. -/
def Readable (text : CString) : Prop := text.length + 1 < 2 ^ 32 - threshold

section Dynamic

variable {f : Profile} {sec key text : CString} {lpDefault : Option CString}
  (htext : (f sec key).getD (lpDefault.getD []) = text)
include htext

theorem readWith_truncated {dwLen : ℕ} (hlen : dwLen < 2 ^ 32) :
    maybeTruncated (readWith f sec key (lpDefault.getD []) dwLen) = decide (dwLen ≤ text.length + 1) := by
  unfold maybeTruncated readWith getPrivateProfileString
  simp only [htext]
  rcases Nat.eq_zero_or_pos dwLen with rfl | hpos
  · simp
  · rw [dword_of_lt (by omega)]
    exact decide_eq_decide.2 (by omega)

theorem readWith_complete {dwLen : ℕ} (h : text.length + 1 < dwLen) : (readWith f sec key (lpDefault.getD []) dwLen).psz = text := by
  unfold readWith getPrivateProfileString
  simp only [htext]
  exact List.take_of_length_le (by omega)

theorem sizes_read (n : ℕ) (hn : n < 2 ^ 32) (_ : threshold ∣ n) :
    maybeTruncated (readWith f sec key (lpDefault.getD []) n) = decide (n ≤ text.length + 1) := readWith_truncated htext hn

theorem getStringDynamic_readable (hread : Readable text) {fuel : ℕ} (hfuel : text.length + 1 < threshold * (fuel + 1)) :
    getStringDynamic fuel f (some sec) (some key) lpDefault = some text := by
  obtain ⟨n, hn, -, hlast, hs⟩ := grow_done DynamicRun.dwLen (fun _ => rfl) (sizes_read htext) hread fuel 1 (by decide)
    (by rw [Nat.add_comm 1 fuel]; exact hfuel)
  rw [Nat.mul_one] at hs
  unfold getStringDynamic dword
  simp only
  rw [hs, readWith_truncated htext hn, decide_eq_false (by omega), if_neg Bool.false_ne_true, readWith_complete htext hlast]

theorem getStringDynamic_endless (hread : ¬ Readable text) (fuel : ℕ) :
    getStringDynamic fuel f (some sec) (some key) lpDefault = none := by
  have hmore := grow_endless DynamicRun.dwLen (fun _ => rfl) (sizes_read htext) (by decide) (by decide)
    (Nat.not_lt.1 hread) fuel
  unfold getStringDynamic dword
  simp only
  rw [hmore, if_pos rfl]

theorem getStringDynamic_some {fuel : ℕ} {psz : CString}
    (h : getStringDynamic fuel f (some sec) (some key) lpDefault = some psz) : psz = text ∧ Readable text := by
  have hread : Readable text := by
    by_contra hread
    rw [getStringDynamic_endless htext hread fuel] at h
    exact absurd h nofun
  obtain ⟨n, hn, -, hs⟩ : ∃ n, n < 2 ^ 32 ∧ threshold ∣ n ∧ whileFuel maybeTruncated
      (fun s => readWith f sec key (lpDefault.getD []) ((s.dwLen + threshold) % 2 ^ 32)) fuel
        (readWith f sec key (lpDefault.getD []) threshold) = readWith f sec key (lpDefault.getD []) n :=
    grow_state DynamicRun.dwLen (fun _ => rfl) (by decide) (by decide) fuel
  unfold getStringDynamic dword at h
  simp only at h
  rw [hs] at h
  by_cases hmore : maybeTruncated (readWith f sec key (lpDefault.getD []) n) = true
  · rw [if_pos hmore] at h
    exact absurd h nofun
  · rw [if_neg hmore] at h
    rw [readWith_truncated htext hn, decide_eq_true_iff] at hmore
    exact ⟨(Option.some.inj h).symm.trans (readWith_complete htext (by omega)), hread⟩

end Dynamic

/-! ## Writing -/

/-- `CIni::WriteString`. -/
def writeString (f : Profile) (lpSection lpKey lpValue : Option CString) : Bool × Profile :=
  match lpSection, lpKey with
  | some sec, some key => writePrivateProfileString f sec key (lpValue.getD [])
  | _, _ => (false, f)

/-- `CIni::AppendString`. The new string has a buffer of its own. -/
def appendString (fuel : ℕ) (f : Profile) (lpSection lpKey lpString : Option CString) : Option (Bool × Profile) :=
  match lpString with
  | none => some (false, f)
  | some s =>
    match getStringDynamic fuel f lpSection lpKey none with
    | none => none
    | some psz =>
      if (psz ++ s).length < dword (psz.length + s.length + 1) then
        some (writeString f lpSection lpKey (some (psz ++ s)))
      else none

theorem writeString_here (f : Profile) (sec key lpValue : CString) :
    (writeString f (some sec) (some key) (some lpValue)).2 sec key = some lpValue := written_here f sec key lpValue

theorem Readable.start {l r : CString} (h : Readable (l ++ r)) : Readable l := by
  unfold Readable at h ⊢
  rw [List.length_append] at h
  omega

section Append

variable {f : Profile} {sec key text : CString} (htext : f sec key = some text)
include htext

theorem stored_text : (f sec key).getD ((none : Option CString).getD []) = text := by
  rw [htext]
  rfl

theorem appendString_readable {s : CString} (hread : Readable (text ++ s)) {fuel : ℕ}
    (hfuel : (text ++ s).length + 1 < threshold * (fuel + 1)) :
    appendString fuel f (some sec) (some key) (some s) =
      some (writeString f (some sec) (some key) (some (text ++ s))) := by
  have hlength : (text ++ s).length = text.length + s.length := List.length_append
  have hmax : (text ++ s).length + 1 < 2 ^ 32 - threshold := hread
  have hget := getStringDynamic_readable (stored_text htext) hread.start
    (show text.length + 1 < threshold * (fuel + 1) by omega)
  unfold appendString
  simp only
  rw [hget]
  simp only
  rw [dword_of_lt (by omega), if_pos (by omega)]

theorem appendString_some {s : CString} {fuel : ℕ} {r : Bool × Profile}
    (h : appendString fuel f (some sec) (some key) (some s) = some r) : r.2 sec key = some (text ++ s) := by
  unfold appendString at h
  simp only at h
  split at h
  · exact absurd h nofun
  · next psz hget =>
    have hpsz := (getStringDynamic_some (stored_text htext) hget).1
    split at h
    · rw [← Option.some.inj h, hpsz]
      exact writeString_here _ _ _ _
    · exact absurd h nofun

end Append

end StarLib.Ini
