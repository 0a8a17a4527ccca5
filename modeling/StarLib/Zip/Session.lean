import StarLib.Zip.Made

/-! # A session with an archive

A caller asks for entries, searches for names and reads files in pieces, in any order. The answers are those of a reader
that knows the files and remembers how far it has come in the one it reads.
-/

namespace StarLib.Zip
open Foundations
set_option autoImplicit false
set_option maxHeartbeats 250000
set_option maxRecDepth 120000

/-! ## Calls and answers -/

inductive Call
  | Get (index : ℤ)
  | Find (name : List Byte) (ic : Bool)
  | Unzip (index len : ℕ)

inductive Answer
  | entry (res : Except ZRESULT ZIPENTRY)
  | found (res : Except ZRESULT (ℕ × ZIPENTRY))
  | piece (code : ZRESULT) (given : List Byte)

variable {ι : Type}

def TUnzip.call (z : Inflater ι) (fileTime : SYSTEMTIME → FILETIME) (turns : ℕ) (u : TUnzip ι) :
    Call → Outcome (Answer × TUnzip ι)
  | .Get index => (u.Get fileTime turns index).map fun r => (.entry r.1, r.2)
  | .Find name ic => (u.Find fileTime turns name ic).map fun r => (.found r.1, r.2)
  | .Unzip index len => (u.Unzip z turns index len).map fun r => (.piece r.1.1 r.1.2, r.2)

/-- A file as a caller knows it. -/
structure Listed where
  iname : List Byte
  entry : ZIPENTRY
  content : List Byte

def Listed.named (ic : Bool) (name : List Byte) (f : Listed) : Bool :=
  unzStringFileNameCompare ic (f.iname.take 256) name

/-- How far it has come in a file. -/
def comeTo (cur : Option (ℕ × ℕ)) (index : ℕ) : ℕ :=
  match cur with
  | some (index', come) => if index' = index then come else 0
  | none => 0

/-- What a reader answers that has come to some place of a file. A file that has been read to its end, or has none, gives
an error. -/
def reader (files : List Listed) (cur : Option (ℕ × ℕ)) : Call → Answer × Option (ℕ × ℕ)
  | .Get (.ofNat index) =>
    match files[index]? with
    | some f => (.entry (.ok f.entry), none)
    | none => (.entry (.error .ZR_ARGS), cur)
  | .Get (.negSucc 0) => (.entry (.ok ⟨files.length, [], 0, ⟨0, 0, 0⟩, 0, 0⟩), none)
  | .Get (.negSucc (_ + 1)) => (.entry (.error .ZR_ARGS), cur)
  | .Find name ic =>
    match (files.findIdx? (Listed.named ic name)).bind fun index => files[index]?.map fun f => (index, f.entry) with
    | some found => (.found (.ok found), none)
    | none => (.found (.error .ZR_NOTFOUND), cur)
  | .Unzip index len =>
    match files[index]? with
    | none => (.piece .ZR_ARGS [], none)
    | some f =>
      let rest := f.content.drop (comeTo cur index)
      if rest.take len = [] then (.piece .ZR_FLATE [], none)
      else
        (.piece (if rest.length ≤ len then .ZR_OK else .ZR_MORE) (rest.take len), some (index, comeTo cur index + len))

/-! ## What relates the two -/

variable {z : Inflater ι} {R : ι → List Byte → List Byte → Prop} {fileTime : SYSTEMTIME → FILETIME}
  {entries : List Entry} {files : List Listed} {password : List Byte} {turns : ℕ}

/-- The files are those of the entries. -/
structure Lists (fileTime : SYSTEMTIME → FILETIME) (entries : List Entry) (files : List Listed) : Prop where
  length : files.length = entries.length
  iname : ∀ {i : ℕ} {e : Entry} {f : Listed}, entries[i]? = some e → files[i]? = some f → f.iname = e.info.iname
  some_ : ∀ e ∈ entries, (∀ c ∈ e.info.iname, c ≠ 0) ∧ e.info.iname.length < MAX_PATH
  entry : ∀ {i : ℕ} {e : Entry} {f : Listed}, entries[i]? = some e → files[i]? = some f → ∃ times,
    entryTimes (fileTime (dosdatetime e.info.tim)) e.header.extra = some times ∧ f.entry = entryOf e i times

/-- The reader counts what is still to come, or is at the beginning of an encrypted file, whose header it counts too. -/
def Counts (entries : List Entry) (index come : ℕ) (f : Listed) (info : ReadInfo ι) : Prop :=
  info.rest_read_uncompressed = (f.content.drop come).length ∨
    come = 0 ∧ f.content.length ≤ info.rest_read_uncompressed ∧ ∀ e, entries[index]? = some e → e.info.flg = 9

structure Serves (R : ι → List Byte → List Byte → Prop) (entries : List Entry) (files : List Listed)
    (password : List Byte) (u : TUnzip ι) (cur : Option (ℕ × ℕ)) : Prop where
  at_ : ∃ i, At entries i u.uf
  current : u.currentfile = cur.map Prod.fst
  reading : ∀ {index come}, cur = some (index, come) → ∃ info f hidden, files[index]? = some f ∧
    u.uf.pfile_in_zip_read = some info ∧ Ready R u.uf.file info (f.content.drop come) hidden ∧
    Counts entries index come f info ∧ info.waiting ≤ (archive entries).length
  cached : ∀ {index ze}, u.cached = some (index, ze) → ∃ f, files[index]? = some f ∧ f.entry = ze
  word : u.password = password

/-- What a caller may ask: contents that are not encrypted, or encrypted with the password and in pieces that are not
longer than what the reader will give of them, and names that are there. -/
def Allowed (z : Inflater ι) (R : ι → List Byte → List Byte → Prop) (entries : List Entry) (files : List Listed)
    (password : List Byte) : Call → Prop
  | .Get _ => True
  | .Find name ic => name.length < 256 ∧ ∃ f ∈ files, f.named ic name = true
  | .Unzip index len => ∀ {e : Entry} {f : Listed}, entries[index]? = some e → files[index]? = some f →
    Plain z R e f.content ∨ len ≤ f.content.length ∧ ∃ hidden, Secret z R password e f.content hidden

theorem unzCloseCurrentFile_at {i : ℕ} {s : unz_s ι} (hat : At entries i s) : At entries i (unzCloseCurrentFile s).2 := by
  unfold unzCloseCurrentFile
  split
  · exact hat
  · exact ⟨⟨hat.buf, hat.number_entry, hat.byte_before_the_zipfile, hat.offset_central_dir⟩, hat.num_file,
      hat.pos_in_central_dir, hat.current_file_ok, hat.current⟩

theorem At.file {i : ℕ} {s : unz_s ι} {file : LUFILE} (hat : At entries i s) (hfile : file.buf = archive entries) :
    At entries i { s with file := file } :=
  ⟨⟨hfile, hat.number_entry, hat.byte_before_the_zipfile, hat.offset_central_dir⟩, hat.num_file, hat.pos_in_central_dir,
    hat.current_file_ok, hat.current⟩

theorem close_fields (u : TUnzip ι) :
    u.close.currentfile = none ∧ u.close.cached = u.cached ∧ u.close.password = u.password := by
  unfold TUnzip.close
  cases hfile : u.currentfile with
  | none => exact ⟨hfile, rfl, rfl⟩
  | some index => exact ⟨rfl, rfl, rfl⟩

theorem close_at {i : ℕ} {u : TUnzip ι} (hat : At entries i u.uf) : At entries i u.close.uf := by
  unfold TUnzip.close
  cases u.currentfile with
  | none => exact hat
  | some index => exact unzCloseCurrentFile_at hat

/-- Wherever the directory is, a closed file leaves nothing to remember. -/
theorem close_serves {i : ℕ} {u : TUnzip ι} (hat : At entries i u.uf)
    (hcached : ∀ {index ze}, u.cached = some (index, ze) → ∃ f, files[index]? = some f ∧ f.entry = ze)
    (hword : u.password = password) : Serves R entries files password u.close none := by
  obtain ⟨hcurrent, hkept, hsame⟩ := close_fields u
  exact ⟨⟨i, close_at hat⟩, hcurrent, fun hcur => absurd hcur (by simp), fun hold => hcached (hkept ▸ hold),
    hsame.trans hword⟩

theorem Serves.close {u : TUnzip ι} {cur : Option (ℕ × ℕ)} (h : Serves R entries files password u cur) :
    Serves R entries files password u.close none := by
  obtain ⟨i, hat⟩ := h.at_
  exact close_serves hat h.cached h.word

/-! ## Get -/

variable {u : TUnzip ι} {cur : Option (ℕ × ℕ)}

theorem Lists.pair (hl : Lists fileTime entries files) {i : ℕ} (hi : i < entries.length) :
    ∃ e f, entries[i]? = some e ∧ files[i]? = some f :=
  ⟨_, _, List.getElem?_eq_getElem hi, List.getElem?_eq_getElem (hl.length ▸ hi)⟩

/-- The entry of a file, from wherever the directory is. -/
theorem getAt_serves (hr : Readable entries) (hl : Lists fileTime entries files)
    (h : Serves R entries files password u none) {i : ℕ} {f : Listed} (hi : i < entries.length) (hf : files[i]? = some f)
    (hturns : i ≤ turns) :
    ∃ u', u.getAt fileTime turns i = .done (.ok f.entry, u') ∧ Serves R entries files password u' none := by
  obtain ⟨j, hat⟩ := h.at_
  obtain ⟨e, f', he, hf'⟩ := hl.pair hi
  obtain rfl : f' = f := Option.some.inj (hf'.symm.trans hf)
  obtain ⟨hsome, hlength⟩ := hl.some_ e (List.mem_of_getElem? he)
  obtain ⟨times, htimes, hentry⟩ := hl.entry he hf
  obtain ⟨s, hgo, hat'⟩ := goToFile_at hr hat hi hturns
  obtain ⟨file, hget, hfile⟩ := getEntry_at hr hat' he hsome hlength htimes
  unfold TUnzip.getAt
  rw [hgo]
  simp only [hget]
  rw [hentry]
  refine ⟨_, rfl, ⟨⟨i, hat'.file (hfile.trans hat'.buf)⟩, h.current, fun hcur => absurd hcur (by simp), ?_, h.word⟩⟩
  intro index ze hcached
  obtain ⟨rfl, rfl⟩ := Prod.mk.inj (Option.some.inj hcached)
  exact ⟨f', hf, hentry⟩

theorem Get_entry (hr : Readable entries) (hl : Lists fileTime entries files) (h : Serves R entries files password u cur)
    (hturns : entries.length ≤ turns) {i : ℕ} {f : Listed} (hi : i < entries.length) (hf : files[i]? = some f) :
    ∃ u', u.Get fileTime turns i = .done (.ok f.entry, u') ∧ Serves R entries files password u' none := by
  obtain ⟨j, hat⟩ := h.at_
  have hclosed := h.close
  unfold TUnzip.Get
  rw [hat.number_entry, if_neg (by omega)]
  dsimp only
  cases hold : u.close.cached.filter (·.1 == i) with
  | some cached =>
    obtain ⟨hsome, hsame⟩ := Option.filter_eq_some_iff.1 hold
    obtain ⟨f', hf', hze⟩ := hclosed.cached hsome
    rw [eq_of_beq hsame, hf] at hf'
    obtain rfl := Option.some.inj hf'
    exact ⟨u.close, by rw [hze], hclosed⟩
  | none =>
    obtain ⟨u', hget, hserves⟩ := getAt_serves hr hl hclosed hi hf (hi.le.trans hturns)
    exact ⟨u', hget, hserves⟩

theorem Get_serves (hr : Readable entries) (hl : Lists fileTime entries files) (h : Serves R entries files password u cur)
    (hturns : entries.length ≤ turns) (index : ℤ) :
    ∃ u', u.call z fileTime turns (.Get index) = .done ((reader files cur (.Get index)).1, u') ∧
      Serves R entries files password u' (reader files cur (.Get index)).2 := by
  obtain ⟨j, hat⟩ := h.at_
  match index with
  | .negSucc 0 =>
    have hat' := close_at hat
    simp only [TUnzip.call, TUnzip.Get, hat.number_entry]
    rw [if_neg (by omega)]
    simp only [Outcome.map_done, reader, hat'.number_entry, hl.length]
    exact ⟨_, rfl, h.close⟩
  | .negSucc (n + 1) =>
    simp only [TUnzip.call, TUnzip.Get, hat.number_entry]
    rw [if_pos (by omega)]
    exact ⟨_, rfl, h⟩
  | .ofNat i =>
    by_cases hi : i < entries.length
    · obtain ⟨e, f, he, hf⟩ := hl.pair hi
      obtain ⟨u', hget, hserves⟩ := Get_entry hr hl h hturns hi hf
      refine ⟨u', ?_, ?_⟩
      · simp only [TUnzip.call, Int.ofNat_eq_natCast, hget, Outcome.map_done]
        simp only [reader, hf]
      · simp only [reader, hf]
        exact hserves
    · have hf : files[i]? = none := List.getElem?_eq_none (by rw [hl.length]; omega)
      simp only [TUnzip.call, TUnzip.Get, hat.number_entry]
      rw [if_pos (by simp only [Int.ofNat_eq_natCast]; omega)]
      simp only [reader, hf, Outcome.map_done]
      exact ⟨u, rfl, h⟩

/-! ## Find -/

/-- The search stops at the first file of the name. -/
theorem locateFrom_at (name : List Byte) (ic : Bool) {i j : ℕ} {e : Entry} {s : unz_s ι} (hr : Readable entries)
    (hat : At entries i s) (he : entries[j]? = some e)
    (hsome : ∀ e ∈ entries, ∀ c ∈ e.info.iname, c ≠ 0)
    (hnamed : unzStringFileNameCompare ic (e.info.iname.take 256) name = true) (hij : i ≤ j)
    (hbefore : ∀ k < j, ∀ e, entries[k]? = some e → ¬ unzStringFileNameCompare ic (e.info.iname.take 256) name = true)
    (hturns : j - i < turns) :
    ∃ s', locateFrom name ic turns s = .done (.UNZ_OK, s') ∧ At entries j s' := by
  have hwhole : ∀ e ∈ entries, (e.info.iname.take 256).takeWhile (· ≠ 0) = e.info.iname.take 256 := fun e he => by
    rw [List.takeWhile_eq_self_iff]
    exact fun c hc => decide_eq_true (hsome e he c (List.mem_of_mem_take hc))
  induction turns generalizing i s with
  | zero => exact absurd hturns (Nat.not_lt_zero _)
  | succ turns ih =>
    obtain ⟨e', he', -⟩ := hat.current
    obtain ⟨file, hname, hfile⟩ := currentName_at hr hat he' (by decide : 0 < 256)
    rw [hwhole e' (List.mem_of_getElem? he')] at hname
    have hat' := hat.file (hfile.trans hat.buf)
    unfold locateFrom
    simp only [hname]
    by_cases hlast : i = j
    · subst hlast
      obtain rfl : e' = e := Option.some.inj (he'.symm.trans he)
      rw [if_pos hnamed]
      exact ⟨_, rfl, hat'⟩
    · have hj : j < entries.length := (List.getElem?_eq_some_iff.1 he).1
      obtain ⟨s', hnext, hat''⟩ := GoToNext_at hr hat' (by omega)
      rw [if_neg (hbefore i (by omega) e' he'), hnext]
      exact ih hat'' (by omega) (by omega)

theorem Find_serves {name : List Byte} {ic : Bool} (hr : Readable entries) (hl : Lists fileTime entries files)
    (h : Serves R entries files password u cur) (hok : Allowed z R entries files password (.Find name ic))
    (hcount : entries.length ≤ turns) :
    ∃ u', u.call z fileTime turns (.Find name ic) = .done ((reader files cur (.Find name ic)).1, u') ∧
      Serves R entries files password u' (reader files cur (.Find name ic)).2 := by
  obtain ⟨hshort, f, hmem, hnamed⟩ := hok
  obtain ⟨j, hfind⟩ : ∃ j, files.findIdx? (Listed.named ic name) = some j := by
    cases hfind : files.findIdx? (Listed.named ic name) with
    | some j => exact ⟨j, rfl⟩
    | none => exact absurd hnamed (by simp [List.findIdx?_eq_none_iff.1 hfind f hmem])
  obtain ⟨hj, hnamed, hbefore⟩ := List.findIdx?_eq_some_iff_getElem.1 hfind
  have hj' : j < entries.length := hl.length ▸ hj
  obtain ⟨e, f, he, hf⟩ := hl.pair hj'
  have hfj : files[j] = f := (List.getElem?_eq_some_iff.1 hf).2
  obtain ⟨i, hat⟩ := h.at_
  obtain ⟨s, hfirst, hat'⟩ := GoToFirst_at hr hat.toOpened
  obtain ⟨s', hlocate, hat''⟩ := locateFrom_at name ic hr hat' he
    (fun e he => (hl.some_ e he).1) (by rw [← hl.iname he hf, ← hfj]; exact hnamed) (Nat.zero_le j)
    (fun k hk e' he' hnamed' => by
      have hk' : k < files.length := hk.trans hj
      refine hbefore k hk ?_
      unfold Listed.named
      rw [hl.iname he' (List.getElem?_eq_getElem hk')]
      exact hnamed') (by omega : j - 0 < turns)
  have hfound : unzLocateFile turns u.uf name ic = .done (.UNZ_OK, s') := by
    unfold unzLocateFile
    rw [if_neg (Nat.not_le.2 hshort), if_neg (by rw [hat.current_file_ok]; exact Bool.noConfusion)]
    simp only [hfirst, hlocate]
  have hclosed : Serves R entries files password ({ u with uf := s' } : TUnzip ι).close none :=
    close_serves hat'' h.cached h.word
  have hplace : ({ u with uf := s' } : TUnzip ι).close.uf.num_file = j := (close_at hat'').num_file
  obtain ⟨u', hget, hserves⟩ := Get_entry hr hl hclosed hcount hj' hf
  refine ⟨u', ?_, ?_⟩
  · simp only [TUnzip.call, TUnzip.Find, hfound, hplace, hget, Outcome.map_done, reader, hfind, Option.bind, hf,
      Option.map]
  · simp only [reader, hfind, Option.bind, hf, Option.map]
    exact hserves

/-! ## Unzip -/

theorem begun_ready {index len : ℕ} {e : Entry} {f : Listed} {file : LUFILE} (hr : Readable entries)
    (he : entries[index]? = some e) (password : List Byte)
    (hok : Plain z R e f.content ∨ len ≤ f.content.length ∧ ∃ hidden, Secret z R password e f.content hidden)
    (hfile : file.buf = archive entries) :
    ∃ hidden, Ready R file (begun z password e) (f.content.drop 0) hidden ∧
      Counts entries index 0 f (begun z password e) ∧ (begun z password e).waiting ≤ (archive entries).length := by
  rw [List.drop_zero]
  have hsize : file.buf.length < 4294967296 := hfile ▸ hr.size
  obtain hplain | ⟨-, hidden, hsecret⟩ := hok
  · have hholding := begun_holding hr he hplain password
    exact ⟨[], (hfile ▸ hholding : Holding R file.buf _ _ _).ready hsize, Or.inl hholding.rest, hholding.room⟩
  · refine ⟨hidden, begun_secret hr he hsecret hfile, Or.inr ⟨rfl, ?_, fun e' he' => ?_⟩, ?_⟩
    · have hlen : (begun z password e).rest_read_uncompressed = f.content.length + 12 := hsecret.len
      omega
    · rw [← Option.some.inj (he.symm.trans he')]
      exact hsecret.flg
    · obtain ⟨head, data, tail, hbody, hhead, -, hsiz, -⟩ := hsecret.body
      have hbound := (body_at hr.offsets he).bound
      have hlength := congrArg List.length hbody
      rw [List.length_append, zencodes_length, List.length_append, hhead] at hlength
      show 0 + e.info.siz ≤ _
      omega

/-- The file that is asked for is open, and has been read as far as the reader has come in it. -/
theorem openIndex_serves {index len : ℕ} {e : Entry} {f : Listed} (hr : Readable entries)
    (h : Serves R entries files password u cur) (he : entries[index]? = some e) (hf : files[index]? = some f)
    (hok : Plain z R e f.content ∨ len ≤ f.content.length ∧ ∃ hidden, Secret z R password e f.content hidden)
    (hturns : entries.length ≤ turns) :
    ∃ u', u.openIndex z turns index = .done (.ok u') ∧
      Serves R entries files password u' (some (index, comeTo cur index)) := by
  have hi : index < entries.length := (List.getElem?_eq_some_iff.1 he).1
  unfold TUnzip.openIndex
  by_cases hsame : u.currentfile = some index
  · rw [if_pos hsame]
    rw [h.current, Option.map_eq_some_iff] at hsame
    obtain ⟨⟨index', come⟩, hcur, rfl⟩ := hsame
    have hcome : comeTo cur index' = come := by
      rw [hcur]
      exact if_pos rfl
    rw [hcome, ← hcur]
    exact ⟨u, rfl, h⟩
  · rw [if_neg hsame]
    have hcome : comeTo cur index = 0 := by
      rw [h.current] at hsame
      unfold comeTo
      split
      · next index' come =>
        rw [if_neg]
        exact fun hindex => hsame (congrArg some hindex)
      · rfl
    have hclosed := h.close
    obtain ⟨j, hat⟩ := hclosed.at_
    obtain ⟨s, hgo, hat'⟩ := goToFile_at hr hat hi (hi.le.trans hturns)
    obtain ⟨s', hopen, hat'', hbegun⟩ := unzOpenCurrentFile_at z u.close.password hr hat' he
    have hbound : ¬ u.close.uf.number_entry ≤ index := by
      rw [hat.number_entry]
      omega
    simp only [if_neg hbound, hgo, hopen]
    refine ⟨_, rfl, ⟨⟨index, hat''⟩, rfl, ?_, hclosed.cached, hclosed.word⟩⟩
    intro index' come hcur
    obtain ⟨rfl, rfl⟩ := Prod.mk.inj (Option.some.inj hcur)
    rw [hcome]
    obtain ⟨hidden, hready, hcounts, hwaiting⟩ :=
      begun_ready hr he (u.close.password) (hclosed.word.symm ▸ hok) (hat''.buf)
    exact ⟨_, f, hidden, hf, hbegun, hready, hcounts, hwaiting⟩

/-- The piece that a call gives of the file that is open. -/
theorem Unzip_open {index : ℕ} {u' : TUnzip ι} {info : ReadInfo ι} {rest hidden : List Byte} (len : ℕ)
    (hz : Inflating z R) (hopen : u.openIndex z turns index = .done (.ok u')) (hr : Readable entries)
    (hopened : Opened entries u'.uf) (hinfo : u'.uf.pfile_in_zip_read = some info) (hready : Ready R u'.uf.file info rest hidden)
    (hcount : min info.rest_read_uncompressed len = min rest.length len) (hturns : info.waiting + 2 ≤ turns) :
    ∃ file info', file.buf = archive entries ∧
      (rest.take len ≠ [] → Holding R (archive entries) info' (rest.drop len) hidden) ∧
      u.Unzip z turns index len = .done (
        if rest.take len = [] then ((.ZR_FLATE, []), { u' with
          uf := (unzCloseCurrentFile { u'.uf with file := file, pfile_in_zip_read := some info' }).2, currentfile := none })
        else ((if rest.length ≤ len then .ZR_OK else .ZR_MORE, rest.take len),
          { u' with uf := { u'.uf with file := file, pfile_in_zip_read := some info' } })) := by
  by_cases hgiven : rest.take len = []
  · have hnone : min info.rest_read_uncompressed len = 0 := by
      rw [hcount, Nat.min_comm, ← List.length_take, hgiven, List.length_nil]
    have hsame : u'.uf = { u'.uf with file := u'.uf.file, pfile_in_zip_read := some info } := by rw [← hinfo]
    refine ⟨u'.uf.file, info, hopened.buf, fun hsome => absurd hgiven hsome, ?_⟩
    unfold TUnzip.Unzip
    simp only [hopen, unzReadCurrentFile_nothing len hinfo hnone (by omega : 0 < turns), if_pos hgiven,
      Bool.false_eq_true, if_false, ← hsame]
  · obtain ⟨file, info', hread, hfile, hholding⟩ := unzReadCurrentFile_ready len hz (by rw [hopened.buf]; exact hr.size)
      hopened.byte_before_the_zipfile hinfo hready hcount hgiven hturns
    rw [hopened.buf] at hfile
    refine ⟨file, info', hfile, fun _ => hfile ▸ hholding, ?_⟩
    unfold TUnzip.Unzip
    simp only [hopen, hread, if_neg hgiven]
    obtain ⟨b, given, hcons⟩ := List.exists_cons_of_ne_nil hgiven
    rw [hcons]
    simp only [List.length_cons, decide_eq_true_eq]

/-- The piece that a call gives, whatever was read before. -/
theorem Unzip_serves {index len : ℕ} (hz : Inflating z R) (hr : Readable entries) (hl : Lists fileTime entries files)
    (h : Serves R entries files password u cur) (hok : Allowed z R entries files password (.Unzip index len))
    (hcount : entries.length ≤ turns) (hturns : (archive entries).length + 2 ≤ turns) :
    ∃ u', u.call z fileTime turns (.Unzip index len) = .done ((reader files cur (.Unzip index len)).1, u') ∧
      Serves R entries files password u' (reader files cur (.Unzip index len)).2 := by
  by_cases hi : index < entries.length
  · obtain ⟨e, f, he, hf⟩ := hl.pair hi
    obtain ⟨u', hopen, hserves⟩ := openIndex_serves hr h he hf (hok he hf) hcount
    obtain ⟨i, hat⟩ := hserves.at_
    obtain ⟨info, f', hidden, hf', hinfo, hready, hcounts, hwaiting⟩ := hserves.reading rfl
    obtain rfl := Option.some.inj (hf'.symm.trans hf)
    have hmin : min info.rest_read_uncompressed len = min (f'.content.drop (comeTo cur index)).length len := by
      obtain hexact | ⟨hzero, hless, hflg⟩ := hcounts
      · rw [hexact]
      · obtain hplain | ⟨hlen, -⟩ := hok he hf
        · exact absurd hplain.flg (by rw [hflg e he]; decide)
        · rw [hzero, List.drop_zero]
          omega
    obtain ⟨file, info', hfile, hholding', hunzip⟩ :=
      Unzip_open len hz hopen hr hat.toOpened hinfo hready hmin (by omega)
    have hat' : At entries i { u'.uf with file := file, pfile_in_zip_read := some info' } :=
      ⟨⟨hfile, hat.number_entry, hat.byte_before_the_zipfile, hat.offset_central_dir⟩, hat.num_file,
        hat.pos_in_central_dir, hat.current_file_ok, hat.current⟩
    simp only [TUnzip.call, hunzip, Outcome.map_done, reader, hf]
    by_cases hgiven : (f'.content.drop (comeTo cur index)).take len = []
    · simp only [if_pos hgiven]
      exact ⟨_, rfl, ⟨⟨i, unzCloseCurrentFile_at hat'⟩, rfl, fun hcur => absurd hcur (by simp), hserves.cached,
        hserves.word⟩⟩
    · simp only [if_neg hgiven]
      refine ⟨_, rfl, ⟨⟨i, hat'⟩, hserves.current, ?_, hserves.cached, hserves.word⟩⟩
      intro index' come hcur
      obtain ⟨rfl, rfl⟩ := Prod.mk.inj (Option.some.inj hcur)
      have hholding := hholding' hgiven
      rw [List.drop_drop, ← hfile] at hholding
      have hsize : file.buf.length < 4294967296 := hfile ▸ hr.size
      exact ⟨info', f', hidden, hf, rfl, hholding.ready hsize, Or.inl hholding.rest, hfile ▸ hholding.room⟩
  · have hf : files[index]? = none := List.getElem?_eq_none (by rw [hl.length]; omega)
    have hclosed := h.close
    obtain ⟨j, hat⟩ := hclosed.at_
    have hother : ¬ u.currentfile = some index := by
      rw [h.current, Option.map_eq_some_iff]
      rintro ⟨⟨index', come⟩, hcur, rfl⟩
      obtain ⟨info, f, hidden, hf', -⟩ := h.reading hcur
      rw [hf] at hf'
      exact absurd hf' (by simp)
    have hbound : u.close.uf.number_entry ≤ index := by
      rw [hat.number_entry]
      omega
    simp only [TUnzip.call, TUnzip.Unzip, TUnzip.openIndex, if_neg hother, if_pos hbound, Outcome.map_done, reader, hf]
    exact ⟨_, rfl, hclosed⟩

/-! ## The session -/

theorem OpenZip_serves (h : Readable entries) (files : List Listed) (password : List Byte) :
    ∃ u : TUnzip ι, OpenZip (archive entries) password = some (.ok u) ∧ At entries 0 u.uf ∧ u.currentfile = none ∧
      Serves R entries files (password.takeWhile (· ≠ 0)) u none := by
  obtain ⟨s, hopen, hat⟩ := unzOpenInternal_at (ι := ι) h
  refine ⟨⟨s, none, none, password.takeWhile (· ≠ 0)⟩, ?_, hat, rfl,
    ⟨⟨0, hat⟩, rfl, fun hcur => absurd hcur (by simp), fun hcached => absurd hcached (by simp), rfl⟩⟩
  unfold OpenZip
  rw [hopen]
  rfl

/-- Any session of allowed calls. -/
theorem session_serves {calls : List Call} (hz : Inflating z R) (hr : Readable entries)
    (hl : Lists fileTime entries files)
    (h : Serves R entries files password u cur) (hok : ∀ c ∈ calls, Allowed z R entries files password c)
    (hcount : entries.length ≤ turns) (hturns : (archive entries).length + 2 ≤ turns) :
    session (TUnzip.call z fileTime turns) u calls = .done (modelled (reader files) cur calls) := by
  refine session_refines (fun u cur c h hc => ?_) h hok
  cases c with
  | Get index => exact Get_serves hr hl h hcount index
  | Find name ic => exact Find_serves hr hl h hc hcount
  | Unzip index len => exact Unzip_serves hz hr hl h hc hcount hturns

end StarLib.Zip
