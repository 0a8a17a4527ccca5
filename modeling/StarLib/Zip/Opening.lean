import StarLib.Zip.Adding
import StarLib.Zip.Reader

/-! # Finding the files

The directory of an archive that was written here is found where its end says, and every file where the directory says.
-/

namespace StarLib.Zip
open Foundations
set_option autoImplicit false
set_option maxHeartbeats 250000
set_option maxRecDepth 120000

variable {ι : Type} {buf s rest : List Byte} {p : ℕ}

/-! ## Fields -/

theorem lufread_at (hbuf : buf.length < 4294967296) (h : StandsAt buf p s) :
    (LUFILE.mk buf p).lufread s.length = some (s, ⟨buf, p + s.length⟩) := by
  have hbound := h.bound
  have hsum : u32 (p + s.length) = p + s.length := Nat.mod_eq_of_lt (by omega)
  unfold LUFILE.lufread
  simp only [hsum]
  rw [if_neg (Nat.not_lt.2 hbound), if_pos hbound, h.read]

theorem getByte_at (hbuf : buf.length < 4294967296) {b : Byte} (h : StandsAt buf p [b]) :
    (LUFILE.mk buf p).unzlocal_getByte = some (b.toNat, ⟨buf, p + 1⟩) := by
  have hread := lufread_at hbuf h
  rw [List.length_singleton] at hread
  unfold LUFILE.unzlocal_getByte
  rw [hread]

theorem getShort_at (hbuf : buf.length < 4294967296) {v : ℕ} (h : StandsAt buf p (leBytes 2 v ++ rest)) :
    (LUFILE.mk buf p).unzlocal_getShort = some (v % 65536, ⟨buf, p + 2⟩) := by
  have h0 : StandsAt buf p [BitVec.ofNat 8 v] := h.left.left (t := [BitVec.ofNat 8 (v / 256)])
  have h1 : StandsAt buf (p + 1) [BitVec.ofNat 8 (v / 256)] := h.left.right (s := [BitVec.ofNat 8 v])
  have hvalue : (BitVec.ofNat 8 v).toNat + 256 * (BitVec.ofNat 8 (v / 256)).toNat = v % 65536 := leValue_leBytes 2 v
  unfold LUFILE.unzlocal_getShort
  simp only [getByte_at hbuf h0, getByte_at hbuf h1, bind, Option.bind, pure, hvalue]

theorem getLong_at (hbuf : buf.length < 4294967296) {v : ℕ} (h : StandsAt buf p (leBytes 4 v ++ rest)) :
    (LUFILE.mk buf p).unzlocal_getLong = some (v % 4294967296, ⟨buf, p + 4⟩) := by
  have h0 : StandsAt buf p [BitVec.ofNat 8 v] := h.left.left (t := leBytes 3 (v / 256))
  have hrest : StandsAt buf (p + 1) (leBytes 3 (v / 256)) := h.left.right (s := [BitVec.ofNat 8 v])
  have h1 : StandsAt buf (p + 1) [BitVec.ofNat 8 (v / 256)] := hrest.left (t := leBytes 2 (v / 256 / 256))
  have hrest : StandsAt buf (p + 1 + 1) (leBytes 2 (v / 256 / 256)) := hrest.right (s := [BitVec.ofNat 8 (v / 256)])
  have h2 : StandsAt buf (p + 1 + 1) [BitVec.ofNat 8 (v / 256 / 256)] := hrest.left (t := leBytes 1 (v / 256 / 256 / 256))
  have h3 : StandsAt buf (p + 1 + 1 + 1) [BitVec.ofNat 8 (v / 256 / 256 / 256)] :=
    hrest.right (s := [BitVec.ofNat 8 (v / 256 / 256)])
  have hvalue := leValue_leBytes 4 v
  unfold LUFILE.unzlocal_getLong
  simp only [getByte_at hbuf h0, getByte_at hbuf h1, getByte_at hbuf h2, getByte_at hbuf h3, bind, Option.bind, pure]
  simp only [leBytes, leValue] at hvalue
  congr 2
  omega

/-! ## The end of the archive -/

/-- The bytes of the end, and nothing like their beginning among the others. -/
structure Ending (tail : List Byte) : Prop where
  length : tail.length = 4 + ENDHEAD
  first : tail.take 4 = [0x50, 0x4b, 0x05, 0x06]
  once : ∀ i, 0 < i → (tail.drop i).take 4 ≠ [0x50, 0x4b, 0x05, 0x06]

theorem searchBack_ending {tail : List Byte} (h : Ending tail) (front : List Byte) (i : ℕ) :
    LUFILE.searchBack (front ++ tail) (front.length + i + 1) = some front.length := by
  have hdrop : (front ++ tail).drop (front.length + i) = tail.drop i := by rw [← List.drop_drop, List.drop_left]
  induction i with
  | zero =>
    unfold LUFILE.searchBack
    rw [List.drop_left, if_pos h.first]
  | succ i ih =>
    unfold LUFILE.searchBack
    rw [hdrop, if_neg (h.once (i + 1) (Nat.succ_pos i))]
    exact ih (by rw [← List.drop_drop, List.drop_left])

/-- The end is found, however much is in front of it. -/
theorem SearchCentralDir_ending (front : List Byte) {tail : List Byte} (pos : ℕ) (h : Ending tail)
    (hbuf : (front ++ tail).length < 4294967296) :
    (LUFILE.mk (front ++ tail) pos).unzlocal_SearchCentralDir =
      some (front.length, ⟨front ++ tail, (front ++ tail).length⟩) := by
  have htail : tail.length = 22 := h.length
  have hsize : (front ++ tail).length = front.length + 22 := by rw [List.length_append, htail]
  unfold LUFILE.unzlocal_SearchCentralDir
  simp only [hsize]
  rw [hsize] at hbuf
  generalize hback : (if min 65535 (front.length + 22) < 4 + 1024 then min 65535 (front.length + 22) else 4 + 1024) = back
  have hbounds : 22 ≤ back ∧ back ≤ front.length + 22 ∧ back ≤ 1028 := by
    rw [← hback]
    split
    · omega
    · omega
  obtain ⟨hlow, hhigh, hmost⟩ := hbounds
  have hread : min (1024 + 4) (front.length + 22 - (front.length + 22 - back)) = back := by omega
  have hlast : (front ++ tail).drop (front.length + 22 - back) = front.drop (front.length + 22 - back) ++ tail :=
    List.drop_append_of_le_length (by omega)
  have hmiddle : (front.drop (front.length + 22 - back)).length + 22 = back := by
    rw [List.length_drop]
    omega
  have hstands : StandsAt (front ++ tail) (front.length + 22 - back) (front.drop (front.length + 22 - back) ++ tail) := by
    refine ⟨front.take (front.length + 22 - back), [], ?_, ?_⟩
    · rw [List.append_nil, ← List.append_assoc, List.take_append_drop]
    · rw [List.length_take]
      omega
  have hfound := searchBack_ending h (front.drop (front.length + 22 - back)) 18
  generalize front.drop (front.length + 22 - back) = middle at hmiddle hstands hfound hlast
  have hlufread := lufread_at (by rw [hsize]; exact hbuf) hstands
  have hlength : (middle ++ tail).length = back := by rw [List.length_append, htail, hmiddle]
  rw [hlength] at hlufread
  have hplace : back - 3 = middle.length + 18 + 1 := by omega
  have hpos : front.length + 22 - back + back = front.length + 22 := by omega
  have hmid : front.length + 22 - back + middle.length = front.length := by omega
  have hu32 : u32 (front.length + 22 - back) = front.length + 22 - back := Nat.mod_eq_of_lt (by omega)
  rw [if_pos (by omega)]
  simp only [hread, LUFILE.lufseek, hu32, hlufread, bind, Option.bind, hplace, hfound, pure, hpos, hmid]

/-- The numbers at the end do not look like its beginning. -/
def EndsOnce (n s c : ℕ) : Prop := ∀ i, 0 < i → ((endBytes n s c).drop i).take 4 ≠ [0x50, 0x4b, 0x05, 0x06]

theorem byte_eq {a b : ℕ} (h : BitVec.ofNat 8 a = BitVec.ofNat 8 b) : a % 256 = b % 256 := by
  simpa only [BitVec.toNat_ofNat] using congrArg BitVec.toNat h

theorem EndsOnce.of_small {n s c : ℕ} (hn : n < 0x4b50) (hs : s < 0x054b5000) (hc : c < 0x06054b50) : EndsOnce n s c := by
  intro i hi heq
  have hlength : i < 22 := by
    by_contra hfar
    rw [List.drop_eq_nil_of_le (by rw [endBytes_length]; exact Nat.le_of_not_lt hfar), List.take_nil] at heq
    exact List.cons_ne_nil _ _ heq.symm
  simp only [endBytes, leBytes, ENDSIG, List.cons_append, List.nil_append] at heq
  interval_cases i
  all_goals
    simp only [List.drop_succ_cons, List.drop_zero, List.take_succ_cons, List.take_zero, List.cons.injEq, List.take_nil,
      reduceCtorEq, and_false] at heq
  all_goals
    obtain ⟨h0, h1, h2, h3, -⟩ := heq
    have h0 := byte_eq (b := 0x50) h0
    have h1 := byte_eq (b := 0x4b) h1
    have h2 := byte_eq (b := 0x05) h2
    have h3 := byte_eq (b := 0x06) h3
    omega

/-! ## The directory -/

/-- Every field holds its number. -/
structure Fits (z : TZipFileInfo) : Prop where
  vem : z.vem < 65536
  ver : z.ver < 65536
  flg : z.flg < 65536
  how : z.how < 65536
  tim : z.tim < 4294967296
  crc : z.crc < 4294967296
  siz : z.siz < 4294967296
  len : z.len < 4294967296
  iname : z.iname.length < 65536
  cextra : z.cextra.length < 65536
  dsk : z.dsk < 65536
  att : z.att < 65536
  atx : z.atx < 4294967296
  off : z.off < 4294967296

/-- What the reader makes of an entry of the directory. -/
def infoOf (z : TZipFileInfo) : unz_file_info :=
  ⟨z.vem, z.ver, z.flg, z.how, z.tim, z.crc, z.siz, z.len, z.iname.length, z.cextra.length, 0, z.dsk, z.att, z.atx, z.off⟩

variable {z : TZipFileInfo} {s : unz_s ι}

/-- The fields of an entry of the directory, and its name behind them. -/
theorem readFileInfo_at (hfile : s.file.buf.length < 4294967296) (hfits : Fits z)
    (h : StandsAt s.file.buf (u32 (s.pos_in_central_dir + s.byte_before_the_zipfile)) (centralBytes z)) :
    ∃ p, readFileInfo s = some (.UNZ_OK, infoOf z, ⟨s.file.buf, p⟩) ∧ StandsAt s.file.buf p z.iname := by
  unfold readFileInfo LUFILE.lufseek
  generalize u32 (s.pos_in_central_dir + s.byte_before_the_zipfile) = p at h ⊢
  generalize s.file.buf = buf at hfile h ⊢
  unfold centralBytes at h
  have h1 := h.field
  have h2 := h1.field
  have h3 := h2.field
  have h4 := h3.field
  have h5 := h4.field
  have h6 := h5.field
  have h7 := h6.field
  have h8 := h7.field
  have h9 := h8.field
  have h10 := h9.field
  have h11 := h10.field
  have h12 := h11.field
  have h13 := h12.field
  have h14 := h13.field
  have h15 := h14.field
  simp only [getLong_at hfile h, getShort_at hfile h1, getShort_at hfile h2, getShort_at hfile h3, getShort_at hfile h4,
    getLong_at hfile h5, getLong_at hfile h6, getLong_at hfile h7, getLong_at hfile h8, getShort_at hfile h9,
    getShort_at hfile h10, getShort_at hfile h11, getShort_at hfile h12, getShort_at hfile h13, getLong_at hfile h14,
    getLong_at hfile h15, bind, Option.bind, pure, CENSIG]
  refine ⟨_, ?_, h15.field.left⟩
  rw [Nat.mod_eq_of_lt hfits.vem, Nat.mod_eq_of_lt hfits.ver, Nat.mod_eq_of_lt hfits.flg, Nat.mod_eq_of_lt hfits.how,
    Nat.mod_eq_of_lt hfits.tim, Nat.mod_eq_of_lt hfits.crc, Nat.mod_eq_of_lt hfits.siz, Nat.mod_eq_of_lt hfits.len,
    Nat.mod_eq_of_lt hfits.iname, Nat.mod_eq_of_lt hfits.cextra, Nat.mod_eq_of_lt hfits.dsk, Nat.mod_eq_of_lt hfits.att,
    Nat.mod_eq_of_lt hfits.atx, Nat.mod_eq_of_lt hfits.off]
  rfl

/-- The header of a file says what the directory says of it, or leaves the sizes to the directory. -/
structure Coherent (e : Entry) : Prop where
  how : e.header.how = e.info.how
  method : e.info.how = STORE ∨ e.info.how = DEFLATE
  iname : e.header.iname = e.info.iname
  lflg : e.header.lflg < 65536
  extra : e.header.extra.length < 65536
  sizes : e.header.lflg / 8 % 2 = 0 →
    e.header.crc = e.info.crc ∧ e.header.siz = e.info.siz ∧ e.header.len = e.info.len

theorem coherent_at {e : Entry} (hfile : s.file.buf.length < 4294967296) (hfits : Fits e.info) (hcoherent : Coherent e)
    (hcur : s.cur_file_info = infoOf e.info)
    (h : StandsAt s.file.buf (u32 (e.info.off + s.byte_before_the_zipfile)) (localBytes e.header)) :
    unzlocal_CheckCurrentFileCoherencyHeader s =
      some (.UNZ_OK, e.info.iname.length + e.header.extra.length,
        u32 (e.info.off + SIZEZIPLOCALHEADER + e.info.iname.length), e.header.extra.length,
        ⟨s.file.buf, u32 (e.info.off + s.byte_before_the_zipfile) + 4 + LOCHEAD⟩) := by
  unfold unzlocal_CheckCurrentFileCoherencyHeader LUFILE.lufseek
  have hoff : s.cur_file_info.offset_curfile = e.info.off := by rw [hcur]; rfl
  rw [hoff]
  generalize u32 (e.info.off + s.byte_before_the_zipfile) = p at h ⊢
  generalize s.file.buf = buf at hfile h ⊢
  unfold localBytes at h
  have h1 := h.field
  have h2 := h1.field
  have h3 := h2.field
  have h4 := h3.field
  have h5 := h4.field
  have h6 := h5.field
  have h7 := h6.field
  have h8 := h7.field
  have h9 := h8.field
  simp only [getLong_at hfile h, getShort_at hfile h1, getShort_at hfile h2, getShort_at hfile h3, getLong_at hfile h4,
    getLong_at hfile h5, getLong_at hfile h6, getLong_at hfile h7, getShort_at hfile h8, getShort_at hfile h9,
    bind, Option.bind, pure, LOCSIG, hcur, infoOf]
  rw [hcoherent.how, hcoherent.iname, Nat.mod_eq_of_lt hfits.how, Nat.mod_eq_of_lt hfits.iname,
    Nat.mod_eq_of_lt hcoherent.lflg, Nat.mod_eq_of_lt hcoherent.extra]
  have hmethod : ¬ (e.info.how ≠ 0 ∧ e.info.how ≠ 8) := fun hother => hcoherent.method.elim hother.1 hother.2
  by_cases hsizes : e.header.lflg / 8 % 2 = 0
  · obtain ⟨hcrc, hsiz, hlen⟩ := hcoherent.sizes hsizes
    simp [hcrc, hsiz, hlen, Nat.mod_eq_of_lt hfits.crc, Nat.mod_eq_of_lt hfits.siz, Nat.mod_eq_of_lt hfits.len, hmethod,
      SIZEZIPLOCALHEADER, LOCHEAD, Nat.add_assoc]
  · simp [hsizes, hmethod, SIZEZIPLOCALHEADER, LOCHEAD, Nat.add_assoc]

/-! ## From file to file -/

/-- An archive that can be read: what it says of its files is right, and its numbers fit into their fields. -/
structure Readable (entries : List Entry) : Prop where
  some_ : entries ≠ []
  count : entries.length < 65536
  size : (archive entries).length < 4294967296
  ending : EndsOnce entries.length (directory entries).length (records entries).length
  offsets : Offsets 0 entries
  fits : ∀ e ∈ entries, Fits e.info
  coherent : ∀ e ∈ entries, Coherent e

structure Opened (entries : List Entry) (s : unz_s ι) : Prop where
  buf : s.file.buf = archive entries
  number_entry : s.number_entry = entries.length
  byte_before_the_zipfile : s.byte_before_the_zipfile = 0
  offset_central_dir : s.offset_central_dir = (records entries).length

/-- The archive is open, and this file of it is the current one. -/
structure At (entries : List Entry) (i : ℕ) (s : unz_s ι) : Prop extends Opened entries s where
  num_file : s.num_file = i
  pos_in_central_dir : s.pos_in_central_dir = (records entries).length + (directory (entries.take i)).length
  current_file_ok : s.current_file_ok = true
  current : ∃ e, entries[i]? = some e ∧ s.cur_file_info = infoOf e.info

theorem Offsets.at {n i : ℕ} {entries : List Entry} {e : Entry} (h : Offsets n entries) (he : entries[i]? = some e) :
    e.info.off = n + (records (entries.take i)).length := by
  induction entries generalizing n i with
  | nil => exact absurd he (by simp)
  | cons e' entries ih =>
    cases i with
    | zero =>
      rw [← Option.some.inj he]
      exact h.1
    | succ i =>
      have hcons : records (e' :: entries.take i) = e'.bytes ++ records (entries.take i) := List.flatMap_cons
      rw [ih h.2 he, List.take_succ_cons, hcons, List.length_append, Nat.add_assoc]

variable {entries : List Entry} {e : Entry} {i : ℕ}

theorem record_at (h : Offsets 0 entries) (he : entries[i]? = some e) :
    StandsAt (archive entries) e.info.off e.bytes := by
  have hrecord : StandsAt (records entries) (0 + (records (entries.take i)).length) e.bytes := by
    rw [Nat.zero_add]
    exact .flatMap Entry.bytes he
  have hall : StandsAt (archive entries) 0 (records entries) := .start ..
  rw [h.at he, ← Nat.zero_add (0 + _)]
  exact hall.trans hrecord

theorem directory_at (he : entries[i]? = some e) :
    StandsAt (archive entries) ((records entries).length + (directory (entries.take i)).length)
      (centralBytes e.info) := by
  have hall : StandsAt (archive entries) (records entries).length (directory entries ++ _) := .end ..
  exact hall.left.trans (.flatMap (fun e : Entry => centralBytes e.info) he)

theorem setCurrent_at {s : unz_s ι} (h : Readable entries) (he : entries[i]? = some e) (hopened : Opened entries s)
    (hpos : s.pos_in_central_dir = (records entries).length + (directory (entries.take i)).length) :
    ∃ file, file.buf = archive entries ∧
      setCurrent s = some (.UNZ_OK, { s with
        file := file, cur_file_info := infoOf e.info, current_file_ok := true }) := by
  have hstands := directory_at he
  have hplace : u32 (s.pos_in_central_dir + s.byte_before_the_zipfile) =
      (records entries).length + (directory (entries.take i)).length := by
    have hbound := hstands.bound
    have hsize := h.size
    rw [hopened.byte_before_the_zipfile, Nat.add_zero, hpos]
    exact Nat.mod_eq_of_lt (by omega)
  obtain ⟨p, hinfo, -⟩ := readFileInfo_at (s := s) (by rw [hopened.buf]; exact h.size) (h.fits e (List.mem_of_getElem? he))
    (by rw [hplace, hopened.buf]; exact hstands)
  refine ⟨⟨s.file.buf, p⟩, hopened.buf, ?_⟩
  unfold setCurrent unzlocal_GetCurrentFileInfoInternal
  rw [hinfo]
  rfl

theorem GoToFirst_at {s : unz_s ι} (h : Readable entries) (hopened : Opened entries s) :
    ∃ s', unzGoToFirstFile s = some (.UNZ_OK, s') ∧ At entries 0 s' := by
  obtain ⟨e, rest, hentries⟩ := List.exists_cons_of_ne_nil h.some_
  have he : entries[0]? = some e := by rw [hentries]; rfl
  have hpos : s.offset_central_dir = (records entries).length + (directory (entries.take 0)).length :=
    hopened.offset_central_dir
  obtain ⟨file, hbuf, hset⟩ := setCurrent_at
    (s := { s with pos_in_central_dir := s.offset_central_dir, num_file := 0 }) h he
    ⟨hopened.buf, hopened.number_entry, hopened.byte_before_the_zipfile, hopened.offset_central_dir⟩ hpos
  exact ⟨_, hset, ⟨hbuf, hopened.number_entry, hopened.byte_before_the_zipfile, hopened.offset_central_dir⟩, rfl, hpos,
    rfl, e, he, rfl⟩

theorem GoToNext_at {s : unz_s ι} (h : Readable entries) (hat : At entries i s) (hnext : i + 1 < entries.length) :
    ∃ s', unzGoToNextFile s = some (.UNZ_OK, s') ∧ At entries (i + 1) s' := by
  obtain ⟨e, he, hcur⟩ := hat.current
  obtain ⟨e', he'⟩ : ∃ e', entries[i + 1]? = some e' := ⟨_, List.getElem?_eq_getElem hnext⟩
  have htake : entries.take (i + 1) = entries.take i ++ [e] := by rw [List.take_add_one, he]; rfl
  have hpos : s.pos_in_central_dir + (SIZECENTRALDIRITEM + s.cur_file_info.size_filename +
      s.cur_file_info.size_file_extra + s.cur_file_info.size_file_comment) =
        (records entries).length + (directory (entries.take (i + 1))).length := by
    rw [htake, hat.pos_in_central_dir, hcur, directory, directory, List.flatMap_append, List.length_append,
      List.flatMap_cons, List.flatMap_nil, List.append_nil, centralBytes_length, Nat.add_assoc]
    rfl
  have hlast : ¬ s.num_file + 1 = s.number_entry := by
    rw [hat.num_file, hat.number_entry]
    exact Nat.ne_of_lt hnext
  unfold unzGoToNextFile
  rw [if_neg (by rw [hat.current_file_ok]; exact Bool.noConfusion), if_neg hlast]
  obtain ⟨file, hbuf, hset⟩ := setCurrent_at
    (s := { s with
      pos_in_central_dir := s.pos_in_central_dir + (SIZECENTRALDIRITEM + s.cur_file_info.size_filename +
        s.cur_file_info.size_file_extra + s.cur_file_info.size_file_comment)
      num_file := s.num_file + 1 }) h he'
    ⟨hat.buf, hat.number_entry, hat.byte_before_the_zipfile, hat.offset_central_dir⟩ hpos
  exact ⟨_, hset, ⟨hbuf, hat.number_entry, hat.byte_before_the_zipfile, hat.offset_central_dir⟩,
    congrArg (· + 1) hat.num_file, hpos, rfl, e', he', rfl⟩

theorem goForward_here {turns : ℕ} {s : unz_s ι} (h : s.num_file = i) : goForward i turns s = .done s := by
  cases turns with
  | zero => exact if_neg (Nat.not_lt.2 h.ge)
  | succ turns => exact if_neg (Nat.not_lt.2 h.ge)

theorem goForward_at {turns j : ℕ} {s : unz_s ι} (h : Readable entries) (hat : At entries i s) (hj : j < entries.length)
    (hij : i ≤ j) (hturns : j - i ≤ turns) : ∃ s', goForward j turns s = .done s' ∧ At entries j s' := by
  induction turns generalizing s i with
  | zero =>
    obtain rfl : i = j := by omega
    exact ⟨s, goForward_here hat.num_file, hat⟩
  | succ turns ih =>
    by_cases hlast : i = j
    · subst hlast
      exact ⟨s, goForward_here hat.num_file, hat⟩
    · unfold goForward
      obtain ⟨s', hnext, hat'⟩ := GoToNext_at h hat (by omega)
      rw [if_pos (by rw [hat.num_file]; omega), hnext]
      exact ih hat' (by omega) (by omega)

/-- Every file is reached from every other one. -/
theorem goToFile_at {turns j : ℕ} {s : unz_s ι} (h : Readable entries) (hat : At entries i s) (hj : j < entries.length)
    (hturns : j ≤ turns) : ∃ s', goToFile turns j s = .done s' ∧ At entries j s' := by
  unfold goToFile
  by_cases hback : j < i
  · obtain ⟨s', hfirst, hat'⟩ := GoToFirst_at h hat.toOpened
    rw [if_pos (by rw [hat.num_file]; exact hback), hfirst]
    exact goForward_at h hat' hj (Nat.zero_le j) hturns
  · rw [if_neg (by rw [hat.num_file]; exact hback)]
    exact goForward_at h hat hj (Nat.le_of_not_lt hback) (Nat.le_trans (Nat.sub_le j i) hturns)

/-! ## Opening -/

theorem unzOpenInternal_at (h : Readable entries) :
    ∃ s : unz_s ι, unzOpenInternal ⟨archive entries, 0⟩ = some (some s) ∧ At entries 0 s := by
  have harchive : archive entries =
      (records entries ++ directory entries) ++
        endBytes entries.length (directory entries).length (records entries).length := (List.append_assoc ..).symm
  have hsize := h.size
  have hlength : (archive entries).length = (records entries).length + (directory entries).length + (4 + ENDHEAD) := by
    rw [harchive, List.length_append, List.length_append, endBytes_length]
  have hending : Ending (endBytes entries.length (directory entries).length (records entries).length) :=
    ⟨endBytes_length .., rfl, h.ending⟩
  have hsearch := SearchCentralDir_ending (records entries ++ directory entries) 0 hending
    (by rw [← harchive]; exact hsize)
  have hend : StandsAt (archive entries) (records entries ++ directory entries).length
      (endBytes entries.length (directory entries).length (records entries).length) := by
    rw [harchive]
    exact .end ..
  rw [← harchive, List.length_append] at hsearch
  rw [List.length_append] at hend
  generalize hr : (records entries).length = r at hlength hsearch hend
  generalize hd : (directory entries).length = d at hlength hsearch hend
  have hmod : u32 (r + d) = r + d := Nat.mod_eq_of_lt (by omega)
  unfold endBytes at hend
  have h1 := hend.field
  have h2 := h1.field
  have h3 := h2.field
  have h4 := h3.field
  have h5 := h4.field
  have h6 := h5.field
  have h7 : StandsAt (archive entries) (r + d + 4 + 2 + 2 + 2 + 2 + 4 + 4) (leBytes 2 0 ++ []) := by
    rw [List.append_nil]
    exact h6.field
  unfold unzOpenInternal
  simp only [hsearch, LUFILE.lufseek, hmod, getLong_at hsize hend, getShort_at hsize h1, getShort_at hsize h2,
    getShort_at hsize h3, getShort_at hsize h4, getLong_at hsize h5, getLong_at hsize h6, getShort_at hsize h7,
    bind, Option.bind, pure]
  have hr4 : r % 4294967296 = r := Nat.mod_eq_of_lt (by omega)
  have hd4 : d % 4294967296 = d := Nat.mod_eq_of_lt (by omega)
  have hfound : r + d ≠ 4294967295 := by
    unfold ENDHEAD at hlength
    omega
  rw [if_neg hfound, if_neg (by simp), hr4, hd4, hmod, if_neg (Nat.lt_irrefl _), Nat.sub_self, Nat.mod_eq_of_lt h.count]
  obtain ⟨s, hfirst, hat⟩ := GoToFirst_at (s := (⟨⟨archive entries, r + d + 4 + 2 + 2 + 2 + 2 + 4 + 4 + 2⟩,
    entries.length, 0 % 65536, 0, 0, 0, false, r + d, d, r, ⟨0, 0, 0, 0, 0, 0, 0, 0, 0, 0, 0, 0, 0, 0, 0⟩, none⟩ : unz_s ι)) h
    ⟨rfl, rfl, rfl, hr.symm⟩
  refine ⟨s, ?_, hat⟩
  rw [hfirst]

/-- A file as it is when the reading of it begins. -/
def begun (z : Inflater ι) (password : List Byte) (e : Entry) : ReadInfo ι :=
  { stream := z.init
    next_in := []
    pos_in_zipfile := e.info.off + (localBytes e.header).length
    crc32 := 0
    crc32_wait := e.info.crc
    rest_read_compressed := e.info.siz
    rest_read_uncompressed := e.info.len
    compression_method := e.info.how
    encrypted := decide (e.info.flg % 2 = 1)
    keys := passwordKeys password
    encheadleft := if e.info.flg % 2 = 1 then 12 else 0
    crcenctest := if e.info.flg / 8 % 2 = 1 then BitVec.ofNat 8 (e.info.tim / 256)
      else BitVec.ofNat 8 (e.info.crc / 16777216) }

/-- What is opened is the file that the reader has last been shown. -/
theorem unzOpenCurrentFile_shown {s : unz_s ι} (z : Inflater ι) (password : List Byte) (h : Readable entries)
    (hopened : Opened entries s) (hok : s.current_file_ok = true) (he : entries[i]? = some e)
    (hcur : s.cur_file_info = infoOf e.info) :
    ∃ file, file.buf = archive entries ∧ unzOpenCurrentFile z s password =
      some (.UNZ_OK, { s with file := file, pfile_in_zip_read := some (begun z password e) }) := by
  have hmem := List.mem_of_getElem? he
  have hcoherent := h.coherent e hmem
  have hstands := (record_at h.offsets he).left
  have hoff : u32 (e.info.off + s.byte_before_the_zipfile) = e.info.off := by
    have hbound := hstands.bound
    have hsize := h.size
    rw [hopened.byte_before_the_zipfile]
    exact Nat.mod_eq_of_lt (by omega)
  have hheader := coherent_at (s := ({ s with pfile_in_zip_read := none } : unz_s ι))
    (by rw [hopened.buf]; exact h.size) (h.fits e hmem) hcoherent hcur (by rw [hoff, hopened.buf]; exact hstands)
  have hplace : e.info.off + (localBytes e.header).length =
      e.info.off + SIZEZIPLOCALHEADER + (e.info.iname.length + e.header.extra.length) := by
    rw [localBytes_length, hcoherent.iname]
    unfold SIZEZIPLOCALHEADER LOCHEAD
    omega
  have hres : ∃ s', unzOpenCurrentFile z s password = some (.UNZ_OK, s') ∧ s'.file.buf = archive entries ∧
      s'.pfile_in_zip_read = some (begun z password e) ∧
      s' = { s with file := s'.file, pfile_in_zip_read := s'.pfile_in_zip_read } := by
    unfold unzOpenCurrentFile
    rw [if_neg (by rw [hok]; exact Bool.noConfusion)]
    simp only [hheader, bind, Option.bind, pure]
    rw [if_neg (not_not.2 rfl)]
    refine ⟨_, rfl, hopened.buf, ?_, rfl⟩
    unfold begun
    rw [hplace]
    simp only [hcur, infoOf, decide_eq_true_eq]
  obtain ⟨s', hopen, hfile, hinfo, hsame⟩ := hres
  refine ⟨s'.file, hfile, ?_⟩
  rw [hopen, ← hinfo, ← hsame]

theorem unzOpenCurrentFile_at {s : unz_s ι} (z : Inflater ι) (password : List Byte) (h : Readable entries)
    (hat : At entries i s) (he : entries[i]? = some e) :
    ∃ s', unzOpenCurrentFile z s password = some (.UNZ_OK, s') ∧ At entries i s' ∧
      s'.pfile_in_zip_read = some (begun z password e) := by
  obtain ⟨e', he', hcur⟩ := hat.current
  obtain rfl : e' = e := Option.some.inj (he'.symm.trans he)
  obtain ⟨file, hfile, hopen⟩ := unzOpenCurrentFile_shown z password h hat.toOpened hat.current_file_ok he hcur
  exact ⟨_, hopen, ⟨⟨hfile, hat.number_entry, hat.byte_before_the_zipfile, hat.offset_central_dir⟩, hat.num_file,
    hat.pos_in_central_dir, hat.current_file_ok, e', he, hcur⟩, rfl⟩

/-- Behind its header stands what a file is. -/
theorem body_at (h : Offsets 0 entries) (he : entries[i]? = some e) :
    StandsAt (archive entries) (e.info.off + (localBytes e.header).length) e.body := (record_at h he).right

end StarLib.Zip
