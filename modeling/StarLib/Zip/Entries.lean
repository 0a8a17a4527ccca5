import Mathlib.Data.List.TakeWhile
import StarLib.Zip.Opening
import StarLib.Zip.TUnzip

/-! # Asking for an entry

What `Get` says of a file is what its header and the directory were written with.
-/

namespace StarLib.Zip
open Foundations
set_option autoImplicit false
set_option maxHeartbeats 250000
set_option maxRecDepth 120000

variable {ι : Type}

/-! ## Times -/

theorem readTime_field (ft : FILETIME) (t : DWord) (rest : List Byte) :
    readTime true ft (leBytes 4 t.toNat ++ rest) = some (timet2filetime t.toNat, rest) := by
  have hlength : ¬ (leBytes 4 t.toNat ++ rest).length < 4 := by
    rw [List.length_append, leBytes_length]
    omega
  have htake : (leBytes 4 t.toNat ++ rest).take 4 = leBytes 4 t.toNat := rfl
  have hdrop : (leBytes 4 t.toNat ++ rest).drop 4 = rest := rfl
  have hvalue : leValue (leBytes 4 t.toNat) = t.toNat := by
    rw [leValue_leBytes]
    exact Nat.mod_eq_of_lt t.isLt
  unfold readTime
  rw [if_pos rfl, if_neg hlength, htake, hdrop, hvalue]

/-- The times are read back. -/
theorem entryTimes_extraTimes (ft : FILETIME) (times : iztimes) :
    entryTimes ft (extraTimes times) = some
      ⟨timet2filetime times.mtime.toNat, timet2filetime times.atime.toNat, timet2filetime times.ctime.toNat⟩ := by
  have hfind : findUT (extraTimes times).length (extraTimes times) = some (extraTimes times) := by
    unfold extraTimes
    rfl
  have hdrop : (extraTimes times).drop 5 =
      leBytes 4 times.mtime.toNat ++ (leBytes 4 times.atime.toNat ++ (leBytes 4 times.ctime.toNat ++ [])) := by
    rw [List.append_nil]
    rfl
  have hflags : ((extraTimes times).getD 4 0).toNat = 7 := rfl
  unfold entryTimes
  rw [hfind]
  simp only [hdrop, hflags, readTime_field, bind, Option.bind, pure, decide_true, Nat.reduceMod, Nat.reduceDiv]

/-! ## The name -/

variable {z : TZipFileInfo} {s : unz_s ι}

theorem getName_at {size : ℕ} (hfile : s.file.buf.length < 4294967296) (hfits : Fits z) (hsize : 0 < size)
    (h : StandsAt s.file.buf (u32 (s.pos_in_central_dir + s.byte_before_the_zipfile)) (centralBytes z)) :
    ∃ file, unzlocal_GetCurrentFileInfoInternal s (some size) = some (.UNZ_OK, infoOf z, z.iname.take size, file) ∧
      file.buf = s.file.buf := by
  obtain ⟨p, hinfo, hname⟩ := readFileInfo_at hfile hfits h
  unfold unzlocal_GetCurrentFileInfoInternal
  rw [hinfo]
  simp only [bind, Option.bind, pure]
  by_cases hempty : z.iname.length = 0
  · rw [if_neg fun hsome => absurd hempty (Nat.ne_of_gt hsome.2.1)]
    rw [List.eq_nil_of_length_eq_zero hempty, List.take_nil]
    exact ⟨⟨s.file.buf, p⟩, rfl, rfl⟩
  · rw [if_pos ⟨trivial, Nat.pos_of_ne_zero hempty, hsize⟩]
    have hcount : (if (infoOf z).size_filename < size then (infoOf z).size_filename else size) =
        (z.iname.take size).length := by
      rw [List.length_take]
      show (if z.iname.length < size then z.iname.length else size) = _
      split
      · omega
      · omega
    rw [← List.take_append_drop size z.iname] at hname
    rw [hcount, lufread_at hfile hname.left]
    refine ⟨⟨s.file.buf, p + (z.iname.take size).length⟩, ?_, rfl⟩
    simp only [ne_eq, not_true_eq_false, if_false]

variable {entries : List Entry} {e : Entry} {i : ℕ}

theorem currentName_at {size : ℕ} (h : Readable entries) (hat : At entries i s) (he : entries[i]? = some e)
    (hsize : 0 < size) :
    ∃ file, currentName s size =
        some (infoOf e.info, (e.info.iname.take size).takeWhile (· ≠ 0), { s with file := file }) ∧
      file.buf = s.file.buf := by
  have hstands := directory_at he
  have hplace : u32 (s.pos_in_central_dir + s.byte_before_the_zipfile) =
      (records entries).length + (directory (entries.take i)).length := by
    have hbound := hstands.bound
    have hsmall := h.size
    rw [hat.byte_before_the_zipfile, Nat.add_zero, hat.pos_in_central_dir]
    exact Nat.mod_eq_of_lt (by omega)
  obtain ⟨file, hname, hfile⟩ := getName_at (s := s) (by rw [hat.buf]; exact h.size) (h.fits e (List.mem_of_getElem? he))
    hsize (by rw [hplace, hat.buf]; exact hstands)
  refine ⟨file, ?_, hfile⟩
  unfold currentName
  rw [hname]
  rfl

theorem extra_at {buf : List Byte} {p : ℕ} (h : StandsAt buf p (localBytes z)) :
    StandsAt buf (p + SIZEZIPLOCALHEADER + z.iname.length) z.extra :=
  h.field.field.field.field.field.field.field.field.field.field.right

/-- What `Get` says of an entry. -/
def entryOf (e : Entry) (i : ℕ) (times : EntryTimes) : ZIPENTRY :=
  ⟨i, safeName e.info.iname.length e.info.iname, fileAttributes e.info.vem e.info.atx, times, long e.info.siz,
    long e.info.len⟩

theorem getEntry_at {fileTime : SYSTEMTIME → FILETIME} {times : EntryTimes} (h : Readable entries) (hat : At entries i s)
    (he : entries[i]? = some e) (hname : ∀ c ∈ e.info.iname, c ≠ 0) (hlength : e.info.iname.length < MAX_PATH)
    (htimes : entryTimes (fileTime (dosdatetime e.info.tim)) e.header.extra = some times) :
    ∃ file, getEntry fileTime s = some (.ok (entryOf e i times), { s with file := file }) ∧ file.buf = s.file.buf := by
  obtain ⟨e', he', hcur⟩ := hat.current
  obtain rfl : e' = e := Option.some.inj (he'.symm.trans he)
  obtain ⟨file, hcurrent, hfile⟩ := currentName_at h hat he (by decide : 0 < MAX_PATH)
  have hall : (e'.info.iname.take MAX_PATH).takeWhile (· ≠ 0) = e'.info.iname := by
    rw [List.take_of_length_le hlength.le, List.takeWhile_eq_self_iff]
    exact fun c hc => decide_eq_true (hname c hc)
  rw [hall] at hcurrent
  have hcoherent := h.coherent e' (List.mem_of_getElem? he)
  have hstands : StandsAt (archive entries) e'.info.off (localBytes e'.header) := (record_at h.offsets he).left
  have hplace : u32 e'.info.off = e'.info.off := by
    have hbound := hstands.bound
    have hsmall := h.size
    exact Nat.mod_eq_of_lt (by omega)
  have hheader := coherent_at (s := ({ s with file := file } : unz_s ι)) (by rw [hfile, hat.buf]; exact h.size)
    (h.fits e' (List.mem_of_getElem? he)) hcoherent hcur (by
      rw [hat.byte_before_the_zipfile, Nat.add_zero, hplace, hfile, hat.buf]
      exact hstands)
  have hextra := extra_at hstands
  rw [hcoherent.iname] at hextra
  have hoffset : u32 (u32 (e'.info.off + SIZEZIPLOCALHEADER + e'.info.iname.length)) =
      e'.info.off + SIZEZIPLOCALHEADER + e'.info.iname.length := by
    have hbound := hextra.bound
    have hsmall := h.size
    unfold u32
    rw [Nat.mod_mod, Nat.mod_eq_of_lt (by omega)]
  have hread := lufread_at h.size hextra
  refine ⟨⟨archive entries, e'.info.off + SIZEZIPLOCALHEADER + e'.info.iname.length + e'.header.extra.length⟩, ?_,
    hat.buf.symm⟩
  unfold getEntry
  simp only [hcurrent, hheader, bind, Option.bind, pure]
  rw [if_neg (Nat.not_le.2 hlength), if_neg (not_not.2 rfl), hfile, hat.buf]
  unfold LUFILE.lufseek
  rw [hoffset, hread]
  simp only [ne_eq, not_true_eq_false, if_false]
  have hdate : (infoOf e'.info).dosDate = e'.info.tim := rfl
  rw [hdate, htimes, hat.num_file]
  rfl

end StarLib.Zip
