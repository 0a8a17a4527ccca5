import StarLib.Zip.Layout

/-! # Adding files

What a successful `Add` leaves in the memory is the archive so far with one entry more. The directory follows when the
memory is asked for.
-/

namespace StarLib.Zip
open Foundations
set_option autoImplicit false
set_option maxHeartbeats 250000
set_option maxRecDepth 120000

/-! ## Reading the source -/

def Unread.content : Unread → List Byte
  | .mem rest => rest
  | .file reads => (reads.takeWhile fun red => decide (red ≠ [])).flatten

def Source.content : Source → List Byte
  | .memory src => src
  | .handle _ reads => (Unread.file reads).content
  | .filename reads => (reads.map fun reads => (Unread.file reads).content).getD []
  | .folder => []

theorem Source.content_folder (src : Source) (h : src.isFolder = true) : src.content = [] := by
  cases src with
  | memory | handle | filename => exact absurd h Bool.false_ne_true
  | folder => rfl

namespace Input

theorem read_cases (inp : Input) :
    ((inp.read 16384).1 = [] ∧ inp.unread.content = []) ∨
      ((inp.read 16384).1 ≠ [] ∧ inp.unread.content = (inp.read 16384).1 ++ (inp.read 16384).2.unread.content ∧
        (inp.read 16384).2.turns < inp.turns) := by
  unfold read turns
  cases inp.unread with
  | mem rest =>
    cases rest with
    | nil => exact Or.inl ⟨rfl, rfl⟩
    | cons b rest =>
      refine Or.inr ⟨List.cons_ne_nil _ _, (List.take_append_drop 16384 _).symm, ?_⟩
      simp only [List.length_drop, List.length_cons]
      omega
  | file reads =>
    cases reads with
    | nil => exact Or.inl ⟨rfl, rfl⟩
    | cons red reads =>
      by_cases hred : red = []
      · subst hred
        exact Or.inl ⟨rfl, rfl⟩
      · refine Or.inr ⟨hred, ?_, Nat.lt_succ_self _⟩
        have hcons : (red :: reads).takeWhile (fun red => decide (red ≠ [])) =
            red :: reads.takeWhile fun red => decide (red ≠ []) :=
          List.takeWhile_cons_of_pos (decide_eq_true hred)
        simp only [Unread.content, List.tail_cons, hcons, List.flatten_cons]

theorem read_ired (inp : Input) (size : ℕ) : (inp.read size).2.ired = inp.ired + (inp.read size).1.length := rfl

theorem read_crc (inp : Input) (size : ℕ) : (inp.read size).2.crc = crc32 inp.crc (inp.read size).1 := rfl

/-- Everything has been read. -/
structure Finished (inp inp' : Input) : Prop where
  crc : inp'.crc = crc32 inp.crc inp.unread.content
  ired : inp'.ired = inp.ired + inp.unread.content.length

theorem Finished.now {inp : Input} (h : inp.unread.content = []) (hempty : (inp.read 16384).1 = []) (csize : ℕ) :
    Finished inp { (inp.read 16384).2 with csize := csize } where
  crc := by rw [read_crc, hempty, h]
  ired := by rw [read_ired, hempty, h]

theorem Finished.step {inp inp' : Input} (h : Finished (inp.read 16384).2 inp')
    (hmore : inp.unread.content = (inp.read 16384).1 ++ (inp.read 16384).2.unread.content) : Finished inp inp' where
  crc := by rw [h.crc, hmore, crc32_append, read_crc]
  ired := by rw [h.ired, hmore, List.length_append, read_ired, Nat.add_assoc]

theorem readAll_spec {fuel : ℕ} {inp : Input} (hfuel : inp.turns ≤ fuel) :
    (readAll fuel inp).1 = inp.unread.content ∧ Finished inp (readAll fuel inp).2 := by
  induction fuel generalizing inp with
  | zero =>
    unfold turns at hfuel
    split at hfuel
    · omega
    · omega
  | succ fuel ih =>
    unfold readAll
    rcases read_cases inp with ⟨hempty, hcontent⟩ | ⟨hred, hmore, hturns⟩
    · rw [if_pos hempty, hcontent]
      exact ⟨rfl, Finished.now hcontent hempty (inp.read 16384).2.csize⟩
    · obtain ⟨hrest, hfinished⟩ := ih (Nat.le_of_lt_succ (Nat.lt_of_lt_of_le hturns hfuel))
      rw [if_neg hred]
      refine ⟨?_, hfinished.step hmore⟩
      dsimp only
      rw [hrest, hmore]

end Input

/-! ## The data -/

/-- The data is in the memory, and all of the source has been read. -/
structure DataPut (out : Output) (inp : Input) (data : List Byte) (r : ZRESULT × Output × Input) : Prop where
  ok : out.oerr = .ZR_OK
  room : out.opos + data.length < out.obuf.length
  result : r.1 = .ZR_OK
  put : r.2.1 = out.put data
  finished : Input.Finished inp r.2.2

theorem ideflate_put (deflate : List Byte → List (List Byte)) {out : Output} (inp : Input) (hin : out.Inside)
    (hok : (ideflate deflate out inp).2.1.oerr = .ZR_OK) :
    DataPut out inp (deflate inp.unread.content).flatten (ideflate deflate out inp) ∧
      (ideflate deflate out inp).2.2.csize = (deflate inp.unread.content).flatten.length := by
  obtain ⟨hcontent, hfinished⟩ := Input.readAll_spec (Nat.le_refl inp.turns)
  unfold ideflate at hok ⊢
  simp only [hcontent] at hok ⊢
  obtain ⟨hout, hroom, hput⟩ := (Output.flushes_puts (deflate inp.unread.content)).puts out hin hok
  exact ⟨⟨hout, hroom, rfl, hput, hfinished.crc, hfinished.ired⟩, trivial⟩

theorem istoreLoop_put {fuel size : ℕ} {out : Output} {inp : Input} (hfuel : inp.turns ≤ fuel) (hin : out.Inside)
    (hok : (istoreLoop fuel size out inp).2.1.oerr = .ZR_OK) :
    DataPut out inp inp.unread.content (istoreLoop fuel size out inp) ∧
      (istoreLoop fuel size out inp).2.2.csize = size + inp.unread.content.length := by
  induction fuel generalizing size out inp with
  | zero =>
    unfold Input.turns at hfuel
    split at hfuel
    · omega
    · omega
  | succ fuel ih =>
    rcases inp.read_cases with ⟨hempty, hcontent⟩ | ⟨hred, hmore, hturns⟩
    · simp only [istoreLoop, if_pos hempty] at hok ⊢
      rw [hcontent]
      refine ⟨⟨hok, hin, rfl, (Output.put_nil out).symm, ?_⟩, rfl⟩
      exact Input.Finished.now hcontent hempty size
    · have hwrite := Output.write_puts (inp.read 16384).1
      by_cases hcount : (out.write (inp.read 16384).1).1 ≠ (inp.read 16384).1.length
      · simp only [istoreLoop, if_neg hred, if_pos hcount] at hok
        exact absurd (Output.write_count hok) hcount
      · simp only [istoreLoop, if_neg hred, if_neg hcount] at hok ⊢
        obtain ⟨hrest, hcsize⟩ :=
          ih (Nat.le_of_lt_succ (Nat.lt_of_lt_of_le hturns hfuel)) (hwrite.inside out hin) hok
        obtain ⟨hout, hroom, hput⟩ := hwrite.puts out hin hrest.ok
        have hroom' := hrest.room
        rw [hput, Output.put_obuf_length hroom.le] at hroom'
        have hopos : (out.put (inp.read 16384).1).opos = out.opos + (inp.read 16384).1.length := rfl
        refine ⟨⟨hout, ?_, hrest.result, ?_, hrest.finished.step hmore⟩, ?_⟩
        · rw [hmore, List.length_append]
          omega
        · rw [hrest.put, hput, Output.put_put _ hroom.le, hmore]
        · rw [hcsize, hmore, List.length_append, Nat.add_assoc]

/-- What is written for the contents of a file. -/
def stored (deflate : List Byte → List (List Byte)) (isdir : Bool) (method : ℕ) (content : List Byte) : List Byte :=
  if isdir then [] else if method = DEFLATE then (deflate content).flatten else content

theorem addContents_put (deflate : List Byte → List (List Byte)) {isdir : Bool} {method : ℕ} {out : Output} {inp : Input}
    (hdir : isdir = true → inp.unread.content = []) (hin : out.Inside)
    (hok : (addContents deflate isdir method out inp).2.1.oerr = .ZR_OK) :
    DataPut out inp (stored deflate isdir method inp.unread.content) (addContents deflate isdir method out inp) ∧
      (addContents deflate isdir method out inp).2.2.csize =
        (stored deflate isdir method inp.unread.content).length := by
  unfold addContents stored at *
  cases isdir with
  | true =>
    simp only [if_true] at hok ⊢
    refine ⟨⟨hok, hin, rfl, (Output.put_nil out).symm, ?_, ?_⟩, rfl⟩
    · rw [hdir rfl, crc32_nil]
    · rw [hdir rfl, List.length_nil, Nat.add_zero]
  | false =>
    simp only [Bool.false_eq_true, if_false] at hok ⊢
    by_cases hmethod : method = DEFLATE
    · simp only [if_pos hmethod] at hok ⊢
      exact ideflate_put deflate inp hin hok
    · simp only [if_neg hmethod] at hok ⊢
      obtain ⟨hput, hcsize⟩ := istoreLoop_put (Nat.le_refl inp.turns) hin hok
      exact ⟨hput, hcsize.trans (Nat.zero_add _)⟩

/-! ## One file -/

/-- The archive so far, in the memory of the writer. -/
structure Laid (zip : TZip) (entries : List Entry) : Prop where
  inside : zip.out.Inside
  plain : zip.out.encwriting = false
  ok : zip.out.oerr = .ZR_OK
  opos : zip.out.opos = zip.writ
  writ : zip.writ = (records entries).length
  obuf : ∃ rest, zip.out.obuf = records entries ++ rest
  zfis : zip.zfis = entries.map Entry.info
  offsets : Offsets 0 entries
  open_ : zip.hasputcen = false

/-- What is known about a file once it has been read. -/
def sized (z : TZipFileInfo) (inp : Input) (passex : ℕ) : TZipFileInfo :=
  { z with crc := inp.crc.toNat, siz := inp.csize + passex, len := (inp.isize % 4294967296).toNat }

/-- A file in the directory: without a password, its header too. -/
def plainInfo (z : TZipFileInfo) (inp : Input) (passex method : ℕ) : TZipFileInfo :=
  let flg := if z.flg % 2 = 0 then z.flg - (z.flg / 8 % 2) * 8 else z.flg
  { sized z inp passex with how := method, flg := flg, lflg := flg }

theorem oseek_ok {out : Output} {pos : ℕ} (h : (out.oseek pos).1 = true) :
    pos < out.obuf.length ∧ (out.oseek pos).2 = { out with opos := pos } := by
  unfold Output.oseek at h ⊢
  split at h
  · exact absurd h Bool.false_ne_true
  · next hpos => rw [if_neg hpos]; exact ⟨Nat.lt_of_not_le hpos, rfl⟩

theorem addInfo_ok {zip : TZip} {zfi : TZipFileInfo} (h : (zip.addInfo zfi).1 = .ZR_OK) :
    zip.out.oerr = .ZR_OK ∧ (zip.addInfo zfi).2 = { zip with zfis := zip.zfis ++ [zfi] } := by
  unfold TZip.addInfo at h ⊢
  by_cases herr : zip.out.oerr ≠ .ZR_OK
  · rw [if_pos herr] at h
    exact absurd h herr
  · rw [if_neg herr]
    exact ⟨not_not.1 herr, rfl⟩

theorem localBytes_length_plain (z : TZipFileInfo) (inp : Input) (passex method : ℕ) :
    (localBytes (plainInfo z inp passex method)).length = (localBytes z).length := by
  rw [localBytes_length, localBytes_length]
  rfl

/-- A call that answers `ZR_OK` did not stop here. -/
theorem passed_ok {c : Prop} [Decidable c] {stop next : ZRESULT × TZip} (hstop : c → stop.1 ≠ .ZR_OK)
    (h : (if c then stop else next).1 = .ZR_OK) : ¬ c ∧ (if c then stop else next) = next ∧ next.1 = .ZR_OK := by
  by_cases hc : c
  · rw [if_pos hc] at h
    exact absurd h (hstop hc)
  · rw [if_neg hc] at h
    exact ⟨hc, if_neg hc, h⟩

/-- The header is written once more in its place. -/
theorem addSizes_plain {zip : TZip} {zfi : TZipFileInfo} {inp : Input} {isdir : Bool} {passex method : ℕ}
    (hplain : zip.password = [] ∨ isdir = true) (henc : zip.out.encwriting = false)
    (hok : (zip.addSizes zfi inp isdir passex method).1 = .ZR_OK) {before data rest : List Byte}
    (hobuf : zip.out.obuf = before ++ localBytes zfi ++ (data ++ rest)) (hbefore : before.length = zfi.off) :
    zip.out.oerr = .ZR_OK ∧ zip.writ < zip.out.obuf.length ∧
      (zip.addSizes zfi inp isdir passex method).2 = { zip with
        out := { zip.out with
          obuf := before ++ localBytes (plainInfo zfi inp passex method) ++ (data ++ rest), opos := zip.writ }
        zfis := zip.zfis ++ [plainInfo zfi inp passex method] } := by
  have hlength := localBytes_length_plain zfi inp passex method
  generalize hinfo : plainInfo zfi inp passex method = info at hlength ⊢
  have hoff : info.off = zfi.off := by rw [← hinfo]; rfl
  have hdef : zip.addSizes zfi inp isdir passex method =
      if (zip.out.oseek info.off).1 = false then (.ZR_SEEK, { zip with out := (zip.out.oseek info.off).2 })
      else if ((zip.out.oseek info.off).2.putlocal info).1 = false then
        (.ZR_WRITE, { zip with out := ((zip.out.oseek info.off).2.putlocal info).2 })
      else if (((zip.out.oseek info.off).2.putlocal info).2.oseek zip.writ).1 = false then
        (.ZR_SEEK, { zip with out := (((zip.out.oseek info.off).2.putlocal info).2.oseek zip.writ).2 })
      else TZip.addInfo { zip with out := (((zip.out.oseek info.off).2.putlocal info).2.oseek zip.writ).2 } info := by
    rw [← hinfo]
    exact if_pos hplain
  rw [hdef] at hok ⊢
  obtain ⟨hback, hmore, hok⟩ := passed_ok (fun _ => by simp) hok
  rw [hmore]
  obtain ⟨hpos, hseek⟩ := oseek_ok (eq_true_of_ne_false hback)
  rw [hseek] at hok ⊢
  obtain ⟨-, hmore, hok⟩ := passed_ok (fun _ => by simp) hok
  rw [hmore]
  obtain ⟨hforth, hmore, hok⟩ := passed_ok (fun _ => by simp) hok
  rw [hmore]
  obtain ⟨hpos', hseek'⟩ := oseek_ok (eq_true_of_ne_false hforth)
  rw [hseek'] at hok ⊢
  obtain ⟨herr, hadd⟩ := addInfo_ok hok
  obtain ⟨hout, hroom, hput⟩ := (Output.putlocal_puts info).puts { zip.out with opos := info.off } hpos herr
  have hwritten : overwrite zip.out.obuf info.off (localBytes info) =
      before ++ localBytes info ++ (data ++ rest) := by
    rw [hobuf, hoff, ← hbefore]
    exact overwrite_at before (data ++ rest) hlength
  have hafter : (Output.putlocal info { zip.out with opos := info.off }).2 =
      { zip.out with
        obuf := before ++ localBytes info ++ (data ++ rest), opos := info.off + (localBytes info).length } := by
    rw [hput]
    simp only [Output.put, henc, Bool.false_eq_true, if_false, hwritten]
  refine ⟨hout, ?_, ?_⟩
  · rw [hafter] at hpos'
    refine hpos'.trans_eq ?_
    rw [hobuf]
    simp only [List.length_append, hlength]
  · rw [hadd, hafter]

/-- The sizes are written behind the data. -/
theorem addSizes_encrypted {zip : TZip} {zfi : TZipFileInfo} {inp : Input} {isdir : Bool} {passex method : ℕ}
    (henc : ¬ (zip.password = [] ∨ isdir = true)) (hin : zip.out.Inside)
    (hok : (zip.addSizes zfi inp isdir passex method).1 = .ZR_OK) :
    zip.out.oerr = .ZR_OK ∧ zip.out.opos + 16 < zip.out.obuf.length ∧
      (zip.addSizes zfi inp isdir passex method).2 = { zip with
        out := zip.out.put (extendedBytes (sized zfi inp passex)), writ := zip.writ + 16
        zfis := zip.zfis ++ [{ sized zfi inp passex with flg := zfi.lflg }] } := by
  generalize hinfo : sized zfi inp passex = info
  have hlflg : info.lflg = zfi.lflg := by rw [← hinfo]; rfl
  have hdef : zip.addSizes zfi inp isdir passex method =
      if zfi.how ≠ method then (.ZR_NOCHANGE, zip)
      else if method = STORE ∧ ¬ zfi.siz = inp.csize + passex then (.ZR_NOCHANGE, zip)
      else TZip.addInfo { zip with out := zip.out.putextended info, writ := zip.writ + 16 }
        { info with flg := info.lflg } := by
    rw [← hinfo]
    exact if_neg henc
  rw [hdef] at hok ⊢
  obtain ⟨-, hmore, hok⟩ := passed_ok (fun _ => by simp) hok
  rw [hmore]
  obtain ⟨-, hmore, hok⟩ := passed_ok (fun _ => by simp) hok
  rw [hmore]
  obtain ⟨herr, hadd⟩ := addInfo_ok hok
  obtain ⟨hout, hroom, hput⟩ := (Output.putextended_puts info).puts zip.out hin herr
  rw [extendedBytes_length] at hroom
  refine ⟨hout, hroom, ?_⟩
  refine hadd.trans ?_
  rw [hput, ← hlflg]

/-- The bytes that follow the header. -/
def dataBytes (deflate : List Byte → List (List Byte)) (password : List Byte) (isdir : Bool) (method tim : ℕ)
    (content : List Byte) (rand : ℕ → ℕ) : List Byte :=
  if password ≠ [] ∧ isdir = false then
    (zencodes (passwordKeys password) (encHeader rand tim ++ stored deflate isdir method content)).1
  else stored deflate isdir method content

/-- The output where the data begins. -/
def dataOutput (zip : TZip) (isdir : Bool) (tim : ℕ) (rand : ℕ → ℕ) : Output :=
  let encbuf := zencodes (passwordKeys zip.password) (encHeader rand tim)
  let out := { zip.out with keys := encbuf.2 }
  let out := if zip.password ≠ [] ∧ isdir = false then (out.swrite encbuf.1).2 else out
  { out with encwriting := decide (zip.password ≠ [] ∧ isdir = false) }

theorem dataOutput_inside {zip : TZip} (isdir : Bool) (tim : ℕ) (rand : ℕ → ℕ) (hin : zip.out.Inside) :
    (dataOutput zip isdir tim rand).Inside := by
  unfold dataOutput
  simp only
  split
  · exact (Output.swrite_puts _).inside _ hin
  · exact hin

/-- The twelve bytes and the data are one stretch of the cipher. -/
theorem dataOutput_put {zip : TZip} {isdir : Bool} {method tim : ℕ} {rand : ℕ → ℕ} {content : List Byte}
    (deflate : List Byte → List (List Byte)) (hin : zip.out.Inside) (henc : zip.out.encwriting = false)
    (hok : (dataOutput zip isdir tim rand).oerr = .ZR_OK)
    (hroom : (dataOutput zip isdir tim rand).opos + (stored deflate isdir method content).length <
      (dataOutput zip isdir tim rand).obuf.length) :
    let bytes := dataBytes deflate zip.password isdir method tim content rand
    zip.out.oerr = .ZR_OK ∧ zip.out.opos + bytes.length < zip.out.obuf.length ∧
      ∃ keys, { (dataOutput zip isdir tim rand).put (stored deflate isdir method content) with encwriting := false } =
        { zip.out with
          obuf := overwrite zip.out.obuf zip.out.opos bytes, opos := zip.out.opos + bytes.length, keys := keys } := by
  generalize hdata : stored deflate isdir method content = data at hroom ⊢
  unfold dataOutput at *
  unfold dataBytes
  by_cases hpass : zip.password ≠ [] ∧ isdir = false
  · simp only [if_pos hpass, hdata, decide_eq_true hpass] at *
    rw [zencodes_append]
    generalize zencodes (passwordKeys zip.password) (encHeader rand tim) = encbuf at hok hroom ⊢
    obtain ⟨hout, hroom', hput⟩ := (Output.swrite_puts encbuf.1).puts { zip.out with keys := encbuf.2 } hin hok
    rw [hput] at hroom ⊢
    simp only [Output.put, henc, Bool.false_eq_true, if_false, if_true] at hroom hroom' ⊢
    rw [overwrite_length hroom'.le] at hroom
    have hover := Output.overwrite_overwrite (l := zip.out.obuf) (a := encbuf.1) (i := zip.out.opos)
      (zencodes encbuf.2 data).1 hroom'.le
    rw [List.length_append, zencodes_length, ← Nat.add_assoc, hover]
    exact ⟨hout, hroom, (zencodes encbuf.2 data).2, rfl⟩
  · simp only [if_neg hpass, hdata, decide_eq_false hpass] at *
    simp only [Output.put, Bool.false_eq_true, if_false]
    exact ⟨hok, hroom, _, by rw [henc]⟩

theorem long_mod (n : ℕ) : (long n % 4294967296).toNat = n % 4294967296 := by
  unfold long
  rw [BitVec.toInt_eq_toNat_cond, BitVec.toNat_ofNat]
  split
  · omega
  · omega

/-- The sizes of a file that has been read from the start. -/
theorem sized_finished {inp inp' : Input} {data : List Byte} (z : TZipFileInfo) (passex : ℕ) (hcrc : inp.crc = 0)
    (hired : inp.ired = 0) (hfinished : Input.Finished inp inp') (hcsize : inp'.csize = data.length) :
    sized z inp'.iclose passex = { z with
      crc := (crc32 0 inp.unread.content).toNat
      siz := data.length + passex
      len := inp.unread.content.length % 4294967296 } := by
  unfold sized Input.iclose
  simp only [hfinished.crc, hfinished.ired, hcrc, hired, hcsize, Nat.zero_add, long_mod]

theorem openSource_ok {src : Source} {now : Now} {inp : Input} (h : src.openSource now = .ok inp) :
    inp.now = now ∧ inp.crc = 0 ∧ inp.ired = 0 ∧ inp.unread.content = src.content := by
  unfold Source.openSource at h
  cases src with
  | memory src =>
    simp only at h
    split at h
    · exact absurd h (by simp)
    · rw [← Except.ok.inj h]
      exact ⟨rfl, rfl, rfl, rfl⟩
  | handle len reads =>
    rw [← Except.ok.inj h]
    exact ⟨rfl, rfl, rfl, rfl⟩
  | filename reads =>
    cases reads with
    | none => exact absurd h (by simp)
    | some reads =>
      rw [← Except.ok.inj h]
      exact ⟨rfl, rfl, rfl, rfl⟩
  | folder =>
    rw [← Except.ok.inj h]
    exact ⟨rfl, rfl, rfl, rfl⟩

/-- The entry for a file whose first header is `z`. -/
def entryFor (deflate : List Byte → List (List Byte)) (password : List Byte) (isdir : Bool) (z : TZipFileInfo)
    (content : List Byte) (rand : ℕ → ℕ) : Entry :=
  let enc := decide (password ≠ [] ∧ isdir = false)
  let info := { z with
    crc := (crc32 0 content).toNat
    siz := (stored deflate isdir z.how content).length + if enc then 12 else 0
    len := content.length % 4294967296
    flg := if enc then 9 else 0
    lflg := if enc then 9 else 0 }
  ⟨if enc then z else info,
    dataBytes deflate password isdir z.how z.tim content rand ++ if enc then extendedBytes info else [], info⟩

theorem entryFor_encrypted {deflate : List Byte → List (List Byte)} {password : List Byte} {isdir : Bool}
    {z : TZipFileInfo} {content : List Byte} {rand : ℕ → ℕ} (henc : password ≠ [] ∧ isdir = false)
    (hflg : z.flg = 9) (hlflg : z.lflg = 9) :
    entryFor deflate password isdir z content rand =
      let info := { z with
        crc := (crc32 0 content).toNat
        siz := (stored deflate isdir z.how content).length + 12
        len := content.length % 4294967296 }
      ⟨z, dataBytes deflate password isdir z.how z.tim content rand ++ extendedBytes info, info⟩ := by
  unfold entryFor
  cases z
  simp only at hflg hlflg
  subst hflg hlflg
  simp only [decide_eq_true henc, if_true]

theorem entryFor_plain {deflate : List Byte → List (List Byte)} {password : List Byte} {isdir : Bool}
    {z : TZipFileInfo} {content : List Byte} {rand : ℕ → ℕ} (henc : ¬ (password ≠ [] ∧ isdir = false)) :
    entryFor deflate password isdir z content rand =
      let info := { z with
        crc := (crc32 0 content).toNat
        siz := (stored deflate isdir z.how content).length
        len := content.length % 4294967296
        flg := 0
        lflg := 0 }
      ⟨info, dataBytes deflate password isdir z.how z.tim content rand, info⟩ := by
  unfold entryFor
  simp only [decide_eq_false henc, Bool.false_eq_true, if_false, List.append_nil, Nat.add_zero]

/-- A file is being written: its header is there, and `bytes` of what follows. -/
structure Started (zip : TZip) (entries : List Entry) (z : TZipFileInfo) (bytes : List Byte) : Prop where
  inside : zip.out.Inside
  plain : zip.out.encwriting = false
  opos : zip.out.opos = zip.writ
  writ : zip.writ = (records entries ++ localBytes z ++ bytes).length
  obuf : ∃ rest, zip.out.obuf = records entries ++ localBytes z ++ (bytes ++ rest)
  off : z.off = (records entries).length
  zfis : zip.zfis = entries.map Entry.info
  offsets : Offsets 0 entries
  open_ : zip.hasputcen = false

theorem Started.plainSizes {zip : TZip} {entries : List Entry} {z : TZipFileInfo} {bytes : List Byte}
    (h : Started zip entries z bytes) {inp : Input} {isdir : Bool} {passex method : ℕ}
    (hplain : zip.password = [] ∨ isdir = true) (hok : (zip.addSizes z inp isdir passex method).1 = .ZR_OK) :
    let info := plainInfo z inp passex method
    zip.out.oerr = .ZR_OK ∧
      Laid (zip.addSizes z inp isdir passex method).2 (entries ++ [⟨info, bytes, info⟩]) ∧
      (zip.addSizes z inp isdir passex method).2.password = zip.password ∧
      (zip.addSizes z inp isdir passex method).2.out.obuf.length = zip.out.obuf.length := by
  obtain ⟨rest, hobuf⟩ := h.obuf
  obtain ⟨hout, hroom, hadd⟩ := addSizes_plain hplain h.plain hok hobuf h.off.symm
  have hlength := localBytes_length_plain z inp passex method
  rw [hadd]
  have hsame : (records entries ++ localBytes (plainInfo z inp passex method) ++ (bytes ++ rest)).length =
      zip.out.obuf.length := by
    rw [hobuf]
    simp only [List.length_append, hlength]
  refine ⟨hout, ⟨hroom.trans_eq hsame.symm, h.plain, hout, rfl, ?_, ⟨rest, ?_⟩, ?_, h.offsets.concat ?_, h.open_⟩, rfl,
    hsame⟩
  · rw [records_concat, Entry.bytes, h.writ]
    simp only [List.length_append, hlength, Nat.add_assoc]
  · rw [records_concat, Entry.bytes]
    simp only [List.append_assoc]
  · rw [h.zfis, List.map_append]
    rfl
  · rw [Nat.zero_add]
    exact h.off

theorem Started.encryptedSizes {zip : TZip} {entries : List Entry} {z : TZipFileInfo} {bytes : List Byte}
    (h : Started zip entries z bytes) {inp : Input} {isdir : Bool} {passex method : ℕ}
    (henc : ¬ (zip.password = [] ∨ isdir = true)) (hok : (zip.addSizes z inp isdir passex method).1 = .ZR_OK) :
    let info := { sized z inp passex with flg := z.lflg }
    zip.out.oerr = .ZR_OK ∧
      Laid (zip.addSizes z inp isdir passex method).2 (entries ++ [⟨z, bytes ++ extendedBytes info, info⟩]) ∧
      (zip.addSizes z inp isdir passex method).2.password = zip.password ∧
      (zip.addSizes z inp isdir passex method).2.out.obuf.length = zip.out.obuf.length := by
  obtain ⟨rest, hobuf⟩ := h.obuf
  obtain ⟨hout, hroom, hadd⟩ := addSizes_encrypted henc h.inside hok
  have hext : extendedBytes (sized z inp passex) = extendedBytes { sized z inp passex with flg := z.lflg } := rfl
  rw [hadd, hext]
  have hoff : ({ sized z inp passex with flg := z.lflg } : TZipFileInfo).off = z.off := rfl
  generalize ({ sized z inp passex with flg := z.lflg } : TZipFileInfo) = info at hoff
  have hroom' : zip.out.opos + (extendedBytes info).length < zip.out.obuf.length := by
    rw [extendedBytes_length]
    exact hroom
  have hsame := Output.put_obuf_length hroom'.le
  have hplace : zip.out.opos = (records entries ++ localBytes z ++ bytes).length := h.opos.trans h.writ
  refine ⟨hout,
    ⟨?_, h.plain, hout, ?_, ?_, ⟨rest.drop (extendedBytes info).length, ?_⟩, ?_, h.offsets.concat ?_, h.open_⟩, rfl,
    hsame⟩
  · show zip.out.opos + (extendedBytes info).length < _
    rw [hsame]
    exact hroom'
  · show zip.out.opos + (extendedBytes info).length = zip.writ + 16
    rw [h.opos, extendedBytes_length]
  · show zip.writ + 16 = _
    rw [records_concat, Entry.bytes, h.writ]
    simp only [List.length_append, extendedBytes_length, Nat.add_assoc]
  · rw [records_concat, Entry.bytes]
    simp only [Output.put, h.plain, Bool.false_eq_true, if_false]
    rw [hobuf, ← List.append_assoc, hplace, overwrite_end]
    simp only [List.append_assoc]
  · rw [h.zfis, List.map_append]
    rfl
  · rw [Nat.zero_add]
    exact hoff.trans h.off

theorem dataBytes_length (deflate : List Byte → List (List Byte)) (password : List Byte) (isdir : Bool) (method tim : ℕ)
    (content : List Byte) (rand : ℕ → ℕ) :
    (dataBytes deflate password isdir method tim content rand).length =
      (if password ≠ [] ∧ isdir = false then 12 else 0) + (stored deflate isdir method content).length := by
  unfold dataBytes
  split
  · rw [zencodes_length, List.length_append, encHeader, List.length_append, List.length_map, List.length_range,
      List.length_singleton]
  · rw [Nat.zero_add]

/-- The data goes behind the header. -/
theorem Started.data {zip : TZip} {entries : List Entry} {z : TZipFileInfo} (h : Started zip entries z [])
    {bytes : List Byte} (hroom : zip.out.opos + bytes.length < zip.out.obuf.length) (keys : Keys) :
    Started { zip with
      out := { zip.out with
        obuf := overwrite zip.out.obuf zip.out.opos bytes, opos := zip.out.opos + bytes.length, keys := keys }
      writ := zip.writ + bytes.length } entries z bytes where
  inside := hroom.trans_eq (overwrite_length hroom.le).symm
  plain := h.plain
  opos := by rw [h.opos]
  writ := by
    rw [h.writ, List.append_nil]
    exact List.length_append.symm
  obuf := by
    obtain ⟨rest, hobuf⟩ := h.obuf
    refine ⟨rest.drop bytes.length, ?_⟩
    have hplace : zip.out.opos = (records entries ++ localBytes z).length := by rw [h.opos, h.writ, List.append_nil]
    rw [hobuf, List.nil_append, hplace]
    exact overwrite_end ..
  off := h.off
  zfis := h.zfis
  offsets := h.offsets
  open_ := h.open_

/-- The way through `addData` without an error. -/
theorem addData_sizes {deflate : List Byte → List (List Byte)} {zip : TZip} {z : TZipFileInfo} {inp : Input}
    {isdir : Bool} {passex : ℕ} {rand : ℕ → ℕ} (hok : (zip.addData deflate z inp isdir passex z.how rand).1 = .ZR_OK) :
    let data := addContents deflate isdir z.how (dataOutput zip isdir z.tim rand) inp
    let next : TZip := { zip with
      out := { data.2.1 with encwriting := false }, writ := zip.writ + passex + data.2.2.iclose.csize }
    data.2.1.oerr = .ZR_OK ∧
      zip.addData deflate z inp isdir passex z.how rand = next.addSizes z data.2.2.iclose isdir passex z.how := by
  intro data next
  have hdef : zip.addData deflate z inp isdir passex z.how rand =
      if next.out.oerr ≠ .ZR_OK then (next.out.oerr, next)
      else if data.1 ≠ .ZR_OK then (.ZR_WRITE, next)
      else next.addSizes z data.2.2.iclose isdir passex z.how := rfl
  rw [hdef] at hok ⊢
  obtain ⟨herr, hmore, hok⟩ := passed_ok (by exact fun herr => herr) hok
  rw [hmore]
  obtain ⟨-, hmore, -⟩ := passed_ok (fun _ => by simp) hok
  exact ⟨not_not.1 herr, hmore⟩

/-- The sizes complete the entry, whether it is encrypted or not. -/
theorem Started.entry {deflate : List Byte → List (List Byte)} {zip : TZip} {entries : List Entry} {z : TZipFileInfo}
    {inp : Input} {isdir : Bool} {passex : ℕ} {content : List Byte} {rand : ℕ → ℕ}
    (h : Started zip entries z (dataBytes deflate zip.password isdir z.how z.tim content rand))
    (hpassex : passex = if zip.password ≠ [] ∧ isdir = false then 12 else 0)
    (hflg : z.flg = if zip.password ≠ [] ∧ isdir = false then 9 else 8) (hlflg : z.lflg = z.flg)
    (hsized : sized z inp passex = { z with
      crc := (crc32 0 content).toNat
      siz := (stored deflate isdir z.how content).length + passex
      len := content.length % 4294967296 })
    (hok : (zip.addSizes z inp isdir passex z.how).1 = .ZR_OK) :
    Laid (zip.addSizes z inp isdir passex z.how).2 (entries ++ [entryFor deflate zip.password isdir z content rand]) ∧
      (zip.addSizes z inp isdir passex z.how).2.password = zip.password ∧
      (zip.addSizes z inp isdir passex z.how).2.out.obuf.length = zip.out.obuf.length := by
  by_cases hpass : zip.password ≠ [] ∧ isdir = false
  · have henc : ¬ (zip.password = [] ∨ isdir = true) := by
      rintro (hnone | hfolder)
      · exact hpass.1 hnone
      · rw [hpass.2] at hfolder
        exact Bool.false_ne_true hfolder
    obtain ⟨-, hentry⟩ := h.encryptedSizes henc hok
    rw [if_pos hpass] at hpassex hflg
    rw [hflg] at hlflg
    have hinfo : ({ sized z inp passex with flg := z.lflg } : TZipFileInfo) = { z with
        crc := (crc32 0 content).toNat
        siz := (stored deflate isdir z.how content).length + 12
        len := content.length % 4294967296 } := by
      rw [hsized, hpassex, hlflg, ← hflg]
    rw [entryFor_encrypted hpass hflg hlflg, ← hinfo]
    exact hentry
  · have hplain : zip.password = [] ∨ isdir = true := by
      by_cases hnone : zip.password = []
      · exact Or.inl hnone
      · exact Or.inr (eq_true_of_ne_false fun hfile => hpass ⟨hnone, hfile⟩)
    obtain ⟨-, hentry⟩ := h.plainSizes hplain hok
    rw [if_neg hpass] at hpassex hflg
    have hinfo : plainInfo z inp passex z.how = { z with
        crc := (crc32 0 content).toNat
        siz := (stored deflate isdir z.how content).length
        len := content.length % 4294967296
        flg := 0
        lflg := 0 } := by
      rw [hpassex] at hsized ⊢
      simp [plainInfo, hsized, hflg]
    rw [entryFor_plain hpass, ← hinfo]
    exact hentry

theorem addData_laid {deflate : List Byte → List (List Byte)} {zip : TZip} {entries : List Entry} {z : TZipFileInfo}
    {inp : Input} {isdir : Bool} {passex : ℕ} {rand : ℕ → ℕ} (h : Started zip entries z [])
    (hpassex : passex = if zip.password ≠ [] ∧ isdir = false then 12 else 0)
    (hflg : z.flg = if zip.password ≠ [] ∧ isdir = false then 9 else 8) (hlflg : z.lflg = z.flg)
    (hcrc : inp.crc = 0) (hired : inp.ired = 0) (hdir : isdir = true → inp.unread.content = [])
    (hok : (zip.addData deflate z inp isdir passex z.how rand).1 = .ZR_OK) :
    zip.out.oerr = .ZR_OK ∧
      Laid (zip.addData deflate z inp isdir passex z.how rand).2
        (entries ++ [entryFor deflate zip.password isdir z inp.unread.content rand]) ∧
      (zip.addData deflate z inp isdir passex z.how rand).2.password = zip.password ∧
      (zip.addData deflate z inp isdir passex z.how rand).2.out.obuf.length = zip.out.obuf.length := by
  obtain ⟨hdataOk, hdef⟩ := addData_sizes hok
  rw [hdef] at hok ⊢
  obtain ⟨hput, hcsize⟩ := addContents_put deflate hdir (dataOutput_inside isdir z.tim rand h.inside) hdataOk
  obtain ⟨hout, hroom, keys, hlast⟩ := dataOutput_put deflate h.inside h.plain hput.ok hput.room
  rw [← hput.put] at hlast
  have hsized := sized_finished z passex hcrc hired hput.finished hcsize
  have hbytes := dataBytes_length deflate zip.password isdir z.how z.tim inp.unread.content rand
  rw [← hpassex, ← hcsize] at hbytes
  have hstarted := h.data hroom keys
  rw [← hlast, hbytes, ← Nat.add_assoc] at hstarted
  obtain ⟨hlaid, hpassword, hobuf⟩ := Started.entry hstarted hpassex hflg hlflg hsized hok
  refine ⟨hout, hlaid, hpassword, hobuf.trans ?_⟩
  exact (congrArg (fun out : Output => out.obuf.length) hlast).trans (overwrite_length hroom.le)

/-! ## A call of Add -/

/-- One call of `ZipAdd`. -/
structure Request where
  name : List Byte
  src : Source
  now : Now
  rand : ℕ → ℕ

namespace Request

variable (q : Request)

def method : ℕ := if q.src.isFolder || HasZipSuffix (zipName q.name) then STORE else DEFLATE

/-- The source, if it can be opened and has a name. -/
def opened : Option Input :=
  if zipName q.name = [] then none
  else
    match q.src.openSource q.now with
    | .error _ => none
    | .ok inp => some inp

/-- The entry that `Add` makes of it, where the archive has come to `writ`. -/
def entry (deflate : List Byte → List (List Byte)) (password : List Byte) (writ : ℕ) (inp : Input) : Entry :=
  let passex := if password ≠ [] ∧ q.src.isFolder = false then 12 else 0
  entryFor deflate password q.src.isFolder (newInfo password writ inp q.src.isFolder passex q.method (zipName q.name))
    q.src.content q.rand

end Request

theorem Laid.header {zip : TZip} {entries : List Entry} {z : TZipFileInfo} (h : Laid zip entries)
    (hoff : z.off = zip.writ) (hok : (zip.out.putlocal z).2.oerr = .ZR_OK) :
    Started { zip with
      out := (zip.out.putlocal z).2
      writ := zip.writ + 4 + LOCHEAD + z.iname.length + z.extra.length } entries z [] ∧
      (zip.out.putlocal z).2.obuf.length = zip.out.obuf.length := by
  obtain ⟨-, hroom, hput⟩ := (Output.putlocal_puts z).puts zip.out h.inside hok
  obtain ⟨rest, hobuf⟩ := h.obuf
  have hlength := localBytes_length z
  have hsame := Output.put_obuf_length hroom.le
  have hplace : zip.out.opos = (records entries).length := h.opos.trans h.writ
  rw [hput]
  refine ⟨⟨?_, h.plain, ?_, ?_, ⟨rest.drop (localBytes z).length, ?_⟩, hoff.trans h.writ, h.zfis, h.offsets, h.open_⟩,
    hsame⟩
  · show zip.out.opos + (localBytes z).length < _
    rw [hsame]
    exact hroom
  · show zip.out.opos + (localBytes z).length = _
    rw [h.opos, hlength, ← Nat.add_assoc, ← Nat.add_assoc, ← Nat.add_assoc]
  · show _ = (records entries ++ localBytes z ++ []).length
    rw [List.append_nil, List.length_append, hlength, h.writ, ← Nat.add_assoc, ← Nat.add_assoc, ← Nat.add_assoc]
  · simp only [Output.put, h.plain, Bool.false_eq_true, if_false, List.nil_append]
    rw [hobuf, hplace, overwrite_end, List.append_assoc]

variable {deflate : List Byte → List (List Byte)} {zip : TZip} {entries : List Entry} {q : Request}

/-- A call that is refused changes nothing. -/
theorem Add_refused (deflate : List Byte → List (List Byte)) (h : Laid zip entries) (hrefused : q.opened = none) :
    (zip.Add deflate q.name q.src q.now q.rand).2 = zip := by
  have hopened : ¬ zip.hasputcen = true := by
    rw [h.open_]
    exact Bool.false_ne_true
  unfold Request.opened at hrefused
  unfold TZip.Add
  rw [if_neg (not_not.2 h.ok), if_neg hopened]
  simp only
  by_cases hname : zipName q.name = []
  · rw [if_pos hname]
  · rw [if_neg hname] at hrefused ⊢
    cases hopen : q.src.openSource q.now with
    | error openres => simp only
    | ok inp =>
      simp only [hopen] at hrefused
      exact absurd hrefused (Option.some_ne_none inp)

theorem Add_laid (h : Laid zip entries) {inp : Input} (hinp : q.opened = some inp)
    (hok : (zip.Add deflate q.name q.src q.now q.rand).1 = .ZR_OK) :
    Laid (zip.Add deflate q.name q.src q.now q.rand).2 (entries ++ [q.entry deflate zip.password zip.writ inp]) ∧
      (zip.Add deflate q.name q.src q.now q.rand).2.password = zip.password ∧
      (zip.Add deflate q.name q.src q.now q.rand).2.out.obuf.length = zip.out.obuf.length := by
  have hopened : ¬ zip.hasputcen = true := by
    rw [h.open_]
    exact Bool.false_ne_true
  unfold Request.opened at hinp
  unfold TZip.Add at hok ⊢
  rw [if_neg (not_not.2 h.ok), if_neg hopened] at hok ⊢
  simp only at hok ⊢
  by_cases hname : zipName q.name = []
  · rw [if_pos hname] at hinp
    exact absurd hinp (Option.some_ne_none inp).symm
  rw [if_neg hname] at hok hinp ⊢
  cases hopen : q.src.openSource q.now with
  | error openres =>
    simp only [hopen] at hinp
    exact absurd hinp (Option.some_ne_none inp).symm
  | ok inp' =>
    simp only [hopen, Option.some.injEq] at hok hinp ⊢
    subst hinp
    have hentry : q.entry deflate zip.password zip.writ inp' = entryFor deflate zip.password q.src.isFolder
        (newInfo zip.password zip.writ inp' q.src.isFolder
          (if zip.password ≠ [] ∧ q.src.isFolder = false then 12 else 0) q.method (zipName q.name))
        q.src.content q.rand := rfl
    rw [hentry]
    generalize hpassex : (if zip.password ≠ [] ∧ q.src.isFolder = false then 12 else 0) = passex at hok ⊢
    have hmethod : (if (q.src.isFolder || HasZipSuffix (zipName q.name)) = true then STORE else DEFLATE) = q.method := rfl
    rw [hmethod] at hok ⊢
    generalize hz : newInfo zip.password zip.writ inp' q.src.isFolder passex q.method (zipName q.name) = z at hok ⊢
    have hhow : z.how = q.method := by rw [← hz]; rfl
    obtain ⟨-, hmore, hok⟩ := passed_ok (fun _ => by simp) hok
    rw [hmore]
    obtain ⟨herr, hmore, hok⟩ := passed_ok (by exact fun herr => herr) hok
    rw [hmore]
    obtain ⟨hnow, hcrc, hired, hcontent⟩ := openSource_ok hopen
    obtain ⟨hstarted, hsame⟩ := h.header (z := z) (by rw [← hz]; rfl) (not_not.1 herr)
    have hdir : q.src.isFolder = true → inp'.unread.content = [] := by
      rw [hcontent]
      exact q.src.content_folder
    rw [← hhow] at hok ⊢
    obtain ⟨-, hlaid, hpassword, hlength⟩ :=
      addData_laid hstarted hpassex.symm (by rw [← hz]; rfl) (by rw [← hz]; rfl) hcrc hired hdir hok
    rw [← hcontent]
    exact ⟨hlaid, hpassword, hlength.trans hsame⟩

/-! ## The whole archive -/

theorem putcentrals_put {entries : List Entry} {out : Output} (writ : ℕ) (hin : out.Inside) (hok : out.oerr = .ZR_OK)
    (hroom : out.opos + (directory entries).length < out.obuf.length) :
    TZip.putcentrals (entries.map Entry.info) (true, out, writ) =
      (true, out.put (directory entries), writ + (directory entries).length) := by
  induction entries generalizing out writ with
  | nil => exact congrArg (fun out => (true, out, writ)) (Output.put_nil out).symm
  | cons e entries ih =>
    have hdirectory : directory (e :: entries) = centralBytes e.info ++ directory entries := rfl
    rw [hdirectory, List.length_append] at hroom
    have hroom' : out.opos + (centralBytes e.info).length < out.obuf.length := by omega
    have hputs := Output.putcentral_puts e.info
    have hokay := Output.putcentral_ok (hputs.fits out hin hok hroom')
    have hput : (Output.putcentral e.info out).2 = out.put (centralBytes e.info) := hputs.eq_put hin hok hroom'
    have hlength := Output.put_obuf_length hroom'.le
    have hwrit : writ + 4 + CENHEAD + e.info.iname.length + e.info.cextra.length =
        writ + (centralBytes e.info).length := by
      rw [centralBytes_length]
      omega
    rw [List.map_cons, TZip.putcentrals]
    simp only [if_true, hokay, hput, hwrit]
    rw [ih, Output.put_put _ hroom'.le, hdirectory, List.length_append, Nat.add_assoc]
    · show out.opos + (centralBytes e.info).length < _
      rw [hlength]
      exact hroom'
    · exact hok
    · show out.opos + (centralBytes e.info).length + _ < _
      rw [hlength]
      omega

/-- The memory begins with the archive of what was added, if it has room for the directory too. -/
theorem GetMemory_archive {zip : TZip} {entries : List Entry} (h : Laid zip entries)
    (hroom : (archive entries).length < zip.out.obuf.length) :
    (∃ rest, zip.GetMemory.1.1 = archive entries ++ rest) ∧ zip.GetMemory.1.2 = (archive entries).length := by
  have hlength : (archive entries).length = zip.out.opos + (directory entries).length + (4 + ENDHEAD) := by
    rw [archive, List.length_append, List.length_append, endBytes_length, h.opos, h.writ, Nat.add_assoc]
  have hroom' : zip.out.opos + (directory entries).length < zip.out.obuf.length := by omega
  obtain ⟨rest, hobuf⟩ := h.obuf
  have hcentral := putcentrals_put zip.writ h.inside h.ok hroom'
  have hkept := Output.put_obuf_length hroom'.le
  have hinside : (zip.out.put (directory entries)).Inside := by
    show zip.out.opos + (directory entries).length < _
    rw [hkept]
    exact hroom'
  have hend := (Output.putend_puts zip.zfis.length (zip.writ + (directory entries).length - zip.writ) zip.writ).eq_put
    hinside h.ok (by
      show zip.out.opos + (directory entries).length + _ < _
      rw [hkept, endBytes_length]
      omega)
  have hplace : zip.out.opos = (records entries).length := h.opos.trans h.writ
  have hcount : zip.zfis.length = entries.length := by rw [h.zfis, List.length_map]
  unfold TZip.GetMemory TZip.AddCentral
  rw [h.zfis] at hend ⊢
  rw [hcentral]
  simp only [h.open_, Bool.false_eq_true, if_false, if_true, hend]
  rw [Output.put_put _ hroom'.le]
  refine ⟨?_, ?_⟩
  · rw [List.length_map, Nat.add_sub_cancel_left]
    simp only [Output.put, h.plain, Bool.false_eq_true, if_false]
    rw [hobuf, hplace, overwrite_end, h.writ, ← List.append_assoc]
    exact ⟨_, rfl⟩
  · rw [hlength, h.opos, Nat.add_assoc _ 4]

/-! ## A session -/

def addAll (deflate : List Byte → List (List Byte)) : TZip → List Request → List ZRESULT × TZip
  | zip, [] => ([], zip)
  | zip, q :: qs =>
    let res := zip.Add deflate q.name q.src q.now q.rand
    let more := addAll deflate res.2 qs
    (res.1 :: more.1, more.2)

/-- What is in the archive of some requests: an entry for every one that was not refused. -/
inductive Made (deflate : List Byte → List (List Byte)) (password : List Byte) : List Request → List Entry → Prop
  | nil : Made deflate password [] []
  | refused {q : Request} {qs : List Request} {entries : List Entry} (hq : q.opened = none)
      (h : Made deflate password qs entries) : Made deflate password (q :: qs) entries
  | added {q : Request} {qs : List Request} {entries : List Entry} {inp : Input} (writ : ℕ) (hq : q.opened = some inp)
      (h : Made deflate password qs entries) :
      Made deflate password (q :: qs) (q.entry deflate password writ inp :: entries)

theorem addAll_laid {requests : List Request} (h : Laid zip entries)
    (hok : ∀ p ∈ requests.zip (addAll deflate zip requests).1, p.1.opened = none ∨ p.2 = .ZR_OK) :
    ∃ entries', Made deflate zip.password requests entries' ∧
      Laid (addAll deflate zip requests).2 (entries ++ entries') ∧
      (addAll deflate zip requests).2.out.obuf.length = zip.out.obuf.length := by
  induction requests generalizing zip entries with
  | nil => exact ⟨[], .nil, by rw [List.append_nil]; exact h, rfl⟩
  | cons q qs ih =>
    have hrest : ∀ p ∈ qs.zip (addAll deflate (zip.Add deflate q.name q.src q.now q.rand).2 qs).1,
        p.1.opened = none ∨ p.2 = .ZR_OK := fun p hp => hok p (List.mem_cons_of_mem _ hp)
    have hfirst := hok (q, (zip.Add deflate q.name q.src q.now q.rand).1) (List.mem_cons_self ..)
    show ∃ entries', _ ∧ Laid (addAll deflate (zip.Add deflate q.name q.src q.now q.rand).2 qs).2 _ ∧
      (addAll deflate (zip.Add deflate q.name q.src q.now q.rand).2 qs).2.out.obuf.length = _
    cases hinp : q.opened with
    | none =>
      have hkept := Add_refused deflate h hinp
      rw [hkept] at hrest ⊢
      obtain ⟨entries', hmade, hlaid, hlength⟩ := ih h hrest
      exact ⟨entries', .refused hinp hmade, hlaid, hlength⟩
    | some inp =>
      rcases hfirst with hnone | hfirst
      · rw [hinp] at hnone
        exact absurd hnone (Option.some_ne_none inp)
      · obtain ⟨hnext, hpassword, hsame⟩ := Add_laid h hinp hfirst
        obtain ⟨entries', hmade, hlaid, hlength⟩ := ih hnext hrest
        rw [hpassword] at hmade
        refine ⟨_, .added zip.writ hinp hmade, ?_, hlength.trans hsame⟩
        rw [List.append_cons]
        exact hlaid

end StarLib.Zip
