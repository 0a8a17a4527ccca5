import StarLib.Zip.Passwords

/-! # Behind a password, all at once

A stored file behind a password that is asked for in one piece comes as a whole, but the counter of what is still to come
runs below zero. The end is not reported, and the next call waits for it for ever.
-/

namespace StarLib.Zip
open Foundations
set_option autoImplicit false
set_option maxHeartbeats 250000
set_option maxRecDepth 120000

variable {ι : Type} {z : Inflater ι} {R : ι → List Byte → List Byte → Prop} {fileTime : SYSTEMTIME → FILETIME}

/-! ## The counter -/

/-- A stored file without its header. The counter is twelve less than what is to come, and there is room for all of it. -/
structure Short (buf : List Byte) (r : Reading ι) (text : List Byte) : Prop where
  file : r.file.buf = buf
  data : ∃ later, StandsAt buf r.info.pos_in_zipfile later ∧ later.length = r.info.rest_read_compressed ∧
    r.info.next_in ++ r.info.decoded later = text
  rest : r.info.rest_read_uncompressed = sub32 text.length 12
  room : r.avail_out = text.length
  small : text.length < 4294967296
  method : r.info.compression_method = 0
  header : r.info.encheadleft = 0

variable {buf text : List Byte} {r : Reading ι}

theorem sub32_twelve {n : ℕ} (hn : n < 4294967296) : sub32 n 12 = 0 ↔ n = 12 := by
  unfold sub32 u32
  omega

theorem sub32_sub32 {n k : ℕ} (hn : n < 4294967296) (hk : k ≤ n) : sub32 (sub32 n 12) k = sub32 (n - k) 12 := by
  unfold sub32 u32
  omega

/-- The block is copied; the end is reported only where twelve bytes are left. -/
theorem copyStored_short (h : Short buf r text) :
    ∃ r' text', copyStored r = .again r' ∧ Short buf r' text' ∧ text = r.info.next_in ++ text' ∧
      r'.given = r.given ++ r.info.next_in ∧ r'.reached_eof = (r.reached_eof || decide (text'.length = 12)) ∧
      r'.info.next_in = [] ∧ r'.info.rest_read_compressed = r.info.rest_read_compressed := by
  obtain ⟨later, hstands, hlength, htext⟩ := h.data
  have hlengths : text.length = r.info.next_in.length + (r.info.decoded later).length := by
    rw [← htext, List.length_append]
  have hsmall := h.small
  have hmin : min r.avail_out r.info.next_in.length = r.info.next_in.length := by
    rw [h.room]
    omega
  have hcount : sub32 r.info.rest_read_uncompressed r.info.next_in.length = sub32 (r.info.decoded later).length 12 := by
    rw [h.rest, sub32_sub32 hsmall (by omega), hlengths, Nat.add_sub_cancel_left]
  unfold copyStored
  simp only [hmin, List.take_length, List.drop_length, hcount]
  refine ⟨_, r.info.decoded later, rfl, ⟨h.file, ⟨later, hstands, hlength, rfl⟩, rfl, ?_, by omega, h.method, h.header⟩,
    htext.symm, rfl, ?_, rfl, rfl⟩
  · dsimp only
    rw [h.room]
    omega
  · show (r.reached_eof || decide (sub32 (r.info.decoded later).length 12 = 0)) = _
    rw [decide_eq_decide.2 (sub32_twelve (by omega : (r.info.decoded later).length < 4294967296))]

/-- Behind the header a turn copies. -/
theorem readTurn_copies {r' : Reading ι} (hfill : fillBuffer 0 r = .again r') (hheader : r'.info.encheadleft = 0)
    (hmethod : r'.info.compression_method = 0) : readTurn z 0 r = copyStored r' := by
  have hskip : skipHeader r' = .again r' := by
    unfold skipHeader
    simp only [hheader, Nat.zero_min]
    exact if_neg (Nat.lt_irrefl 0)
  unfold readTurn
  rw [hfill]
  show (skipHeader r').andThen _ = _
  rw [hskip]
  exact if_pos hmethod

/-- The next block. -/
theorem readTurn_short (hbuf : buf.length < 4294967296) (h : Short buf r text) (hnext : r.info.next_in = []) :
    ∃ r' block text', readTurn z 0 r = .again r' ∧ Short buf r' text' ∧ text = block ++ text' ∧
      block.length = min 16384 text.length ∧ r'.given = r.given ++ block ∧
      r'.reached_eof = (r.reached_eof || decide (text'.length = 12)) ∧ r'.info.next_in = [] := by
  obtain ⟨later, hstands, hlength, htext⟩ := h.data
  have hall : r.info.rest_read_compressed = text.length := by
    rw [← htext, hnext, List.nil_append, decoded_length, hlength]
  obtain ⟨file, pos, rest, next_in, keys, later', hfill, hfile, hstands', hlength', hdecoded, -, -, hblock⟩ :=
    fillBuffer_fills (by rw [h.file]; exact hbuf) (h.file.symm ▸ hstands) hlength
  have hfilled : Short buf { r with
      file := file
      info := { r.info with
        pos_in_zipfile := pos, rest_read_compressed := rest, next_in := next_in, keys := keys } } text :=
    ⟨hfile.trans h.file, ⟨later', h.file ▸ hstands', hlength', hdecoded.trans htext⟩, h.rest, h.room, h.small, h.method,
      h.header⟩
  obtain ⟨r', text', hcopy, hshort, hsplit, hgiven, heof, hnone, -⟩ := copyStored_short hfilled
  exact ⟨r', next_in, text', (readTurn_copies hfill h.header h.method).trans hcopy, hshort, hsplit,
    (hblock hnext).trans (by rw [hall]), hgiven, heof, hnone⟩

theorem readLoop_short {turns : ℕ} (hbuf : buf.length < 4294967296) (h : Short buf r text) (hnext : r.info.next_in = [])
    (hblocks : text.length % 16384 ≠ 12) (hturns : text.length < turns) :
    ∃ r', readLoop z 0 turns r = .stop (.count r'.given.length) r' ∧ r'.given = r.given ++ text ∧
      r'.reached_eof = r.reached_eof ∧ Short buf r' [] ∧ r'.info.next_in = [] := by
  induction turns generalizing r text with
  | zero => exact absurd hturns (Nat.not_lt_zero _)
  | succ turns ih =>
    unfold readLoop
    rw [h.room]
    by_cases hnone : text = []
    · rw [hnone] at h ⊢
      rw [List.length_nil, if_pos rfl, List.append_nil]
      exact ⟨r, rfl, rfl, rfl, h, hnext⟩
    · have hpos := List.length_pos_of_ne_nil hnone
      obtain ⟨r', block, text', hturn, hshort, hsplit, hblock, hgiven, heof, hnext'⟩ :=
        readTurn_short (z := z) hbuf h hnext
      have hlength := congrArg List.length hsplit
      rw [List.length_append] at hlength
      rw [if_neg hpos.ne', hturn]
      obtain ⟨r'', hloop, hgiven', heof', hshort', hnext''⟩ := ih hshort hnext' (by omega) (by omega)
      refine ⟨r'', hloop, ?_, ?_, hshort', hnext''⟩
      · rw [hgiven', hgiven, hsplit, List.append_assoc]
      · rw [heof', heof, decide_eq_false (by omega), Bool.or_false]

/-- Where nothing is left to copy but the counter says more, a turn changes nothing. -/
theorem readTurn_waits (h : Short buf r []) (hnext : r.info.next_in = []) (avail_out : ℕ) :
    readTurn z 0 { r with avail_out := avail_out } = .again { r with avail_out := avail_out } := by
  obtain ⟨later, -, hlength, hnone⟩ := h.data
  have hdone : r.info.rest_read_compressed = 0 := by
    rw [hnext, List.nil_append] at hnone
    rw [← hlength, ← decoded_length r.info later, hnone, List.length_nil]
  have hrest : r.info.rest_read_uncompressed = 4294967284 := h.rest
  have hfill : fillBuffer 0 { r with avail_out := avail_out } = .again { r with avail_out := avail_out } := by
    unfold fillBuffer
    exact if_neg (by rw [hdone]; exact fun hmore => Nat.lt_irrefl 0 hmore.2)
  rw [readTurn_copies hfill h.header h.method]
  unfold copyStored
  have hsame : sub32 r.info.rest_read_uncompressed 0 = r.info.rest_read_uncompressed := by
    rw [hrest]
    rfl
  have hmore : decide (r.info.rest_read_uncompressed = 0) = false := by
    rw [hrest]
    rfl
  simp only [hnext, List.length_nil, Nat.min_zero, List.take_nil, List.drop_nil, crc32_nil, hsame, hmore, List.append_nil,
    Nat.sub_zero, Bool.or_false]
  rw [← hnext]

theorem readLoop_waits {avail_out : ℕ} (turns : ℕ) (h : Short buf r []) (hnext : r.info.next_in = [])
    (hroom : 0 < avail_out) :
    readLoop z 0 turns { r with avail_out := avail_out } = .again { r with avail_out := avail_out } := by
  induction turns with
  | zero => rfl
  | succ turns ih =>
    unfold readLoop
    rw [if_neg hroom.ne', readTurn_waits h hnext avail_out]
    exact ih

/-! ## The two calls -/

variable {entries : List Entry} {e : Entry} {index len turns : ℕ} {password hidden : List Byte} {s : unz_s ι}

/-- Everything comes, but not the report of the end. -/
theorem unzReadCurrentFile_short (hr : Readable entries) (he : entries[index]? = some e)
    (hsecret : Secret z R password e text hidden) (hhidden : hidden.length = 12) (hstore : e.info.how = 0)
    (hblocks : (text ++ hidden).length % 16384 ≠ 0) (hlen : (text ++ hidden).length ≤ len)
    (hopened : Opened entries s) (hinfo : s.pfile_in_zip_read = some (begun z password e))
    (hturns : (archive entries).length + 2 ≤ turns) :
    ∃ r', unzReadCurrentFile z turns s len =
        .done ((.count (text ++ hidden).length, text ++ hidden, false),
          { s with file := r'.file, pfile_in_zip_read := some r'.info }) ∧
      Short (archive entries) r' [] ∧ r'.info.next_in = [] := by
  have hn : (text ++ hidden).length = text.length + 12 := by rw [List.length_append, hhidden]
  have hall : (begun z password e).rest_read_uncompressed = (text ++ hidden).length := hsecret.len.trans hn.symm
  have hsmall : (text ++ hidden).length < 4294967296 := hn ▸ hsecret.len ▸ (hr.fits e (List.mem_of_getElem? he)).len
  obtain ⟨file, pos, rest, next_in, keys, later, hfront, hfile, hstands, hlength, hcomes, hwhole, hblock, hbound⟩ :=
    begun_front (r := ⟨begun z password e, s.file, [], (text ++ hidden).length, false⟩) hr he hsecret hopened.buf rfl
  have hdata : next_in ++ ({ begun z password e with keys := keys } : ReadInfo ι).decoded later = text ++ hidden :=
    (if_pos hstore).mp hcomes
  have hlengths := congrArg List.length hdata
  rw [List.length_append, decoded_length, hlength] at hlengths
  have hshort : Short (archive entries) ⟨{ begun z password e with
      pos_in_zipfile := pos
      rest_read_compressed := rest
      next_in := next_in
      keys := keys
      rest_read_uncompressed := text.length
      encheadleft := 0 }, file, [], (text ++ hidden).length, false⟩ (text ++ hidden) :=
    ⟨hfile, ⟨later, hstands, hlength, hdata⟩, by rw [hn, sub32_eq (by omega) (by omega), Nat.add_sub_cancel], rfl, hsmall,
      hstore, rfl⟩
  obtain ⟨r, text', hcopy, hshort', hsplit, hgiven, heof, hnext, -⟩ := copyStored_short hshort
  have hrest : (text ++ hidden).length = next_in.length + text'.length :=
    (congrArg List.length hsplit).trans List.length_append
  dsimp only at hgiven heof
  obtain ⟨turns, rfl⟩ : ∃ k, turns = k + 1 := ⟨turns - 1, by omega⟩
  obtain ⟨r', hloop, hgiven', heof', hshort'', hnext'⟩ :=
    readLoop_short (z := z) hr.size hshort' hnext (by omega) (by omega : text'.length < turns)
  have hturn : readTurn z 0 ⟨begun z password e, s.file, [], (text ++ hidden).length, false⟩ = .again r := by
    unfold readTurn
    rw [hfront]
    exact (if_pos hstore).trans hcopy
  have hpos : ¬ (text ++ hidden).length = 0 := by omega
  have hroom : (if (text ++ hidden).length < len then (text ++ hidden).length else len) = (text ++ hidden).length := by
    split
    · rfl
    · omega
  have hgave : r'.given = text ++ hidden := by
    rw [hgiven', hgiven, List.nil_append]
    exact hsplit.symm
  have hend : r'.reached_eof = false := by
    rw [heof', heof, decide_eq_false (by omega)]
    rfl
  refine ⟨r', ?_, hshort'', hnext'⟩
  unfold unzReadCurrentFile
  rw [hinfo]
  simp only [if_neg (show ¬ len = 0 by omega), hall, hroom, hopened.byte_before_the_zipfile]
  rw [readLoop, if_neg hpos, hturn]
  simp only [Turn.andThen, hloop, hgave, hend]

/-- With the counter below zero a call waits. -/
theorem unzReadCurrentFile_waits (turns : ℕ) (h : Short buf r []) (hnext : r.info.next_in = []) (hlen : 0 < len)
    (hbefore : s.byte_before_the_zipfile = 0) (hfile : s.file = r.file) (hinfo : s.pfile_in_zip_read = some r.info) :
    unzReadCurrentFile z turns s len = .running := by
  have hrest : r.info.rest_read_uncompressed = 4294967284 := h.rest
  have hpos : 0 < if r.info.rest_read_uncompressed < len then r.info.rest_read_uncompressed else len := by
    rw [hrest]
    split
    · decide
    · exact hlen
  have hshort : Short buf { r with given := [], reached_eof := false } [] :=
    ⟨h.file, h.data, h.rest, h.room, h.small, h.method, h.header⟩
  have hloop := readLoop_waits (z := z) turns hshort hnext hpos
  unfold unzReadCurrentFile
  rw [hinfo]
  simp only [if_neg hlen.ne', hbefore, hfile, hloop]

/-- A stored file that is asked for as a whole comes as a whole, with the report that there is more. Whoever asks for more
waits for ever, unless the file fills the blocks of the reader. -/
theorem session_endless {deflate : List Byte → List (List Byte)} {block : List Byte} {requests : List Request}
    {zip : TZip} {q : Request} {len' : ℕ} (h : Written deflate block password requests zip)
    (hq : (accepted requests)[index]? = some q) (henc : q.encrypted zip.password) (hstore : q.method = STORE)
    (hlong : 12 ≤ q.src.content.length) (hblocks : q.src.content.length % 16384 ≠ 0)
    (hlen : q.src.content.length ≤ len) (hlen' : 0 < len')
    (hturns : (written deflate zip requests).GetMemory.1.2 + 2 ≤ turns) :
    ∃ u, OpenZip (memory deflate zip requests) password = some (.ok u) ∧
      session (TUnzip.call z fileTime turns) u [.Unzip index len] = .done [.piece .ZR_MORE q.src.content] ∧
      session (TUnzip.call z fileTime turns) u [.Unzip index len, .Unzip index len'] = .running := by
  obtain ⟨entries, hmade, hr, hmemory, hused⟩ := h.readable
  obtain ⟨u, hopen, hat, hclosed, hserves⟩ := OpenZip_serves (ι := ι) (R := fun _ _ _ => False) hr [] password
  rw [hused] at hturns
  have hcount := archive_count entries
  have hi : index < entries.length := by
    rw [hmade.length]
    exact (List.getElem?_eq_some_iff.1 hq).1
  obtain ⟨q', inp, writ, hq', -, he⟩ := hmade.at (List.getElem?_eq_getElem hi)
  obtain rfl := Option.some.inj (hq'.symm.trans hq)
  have hmem := List.mem_of_getElem? hq
  have he' : entries[index]? = some (q'.entry deflate zip.password writ inp) := he ▸ List.getElem?_eq_getElem hi
  have hword : u.password = zip.password := hserves.word.trans h.word
  have hall : q'.shown zip.password ++ q'.src.content.drop (q'.src.content.length - 12) = q'.src.content := by
    rw [Request.shown, if_pos henc, List.take_append_drop]
  have hsecret : Secret z (fun _ _ _ => False) u.password (q'.entry deflate zip.password writ inp)
      (q'.shown zip.password) (q'.src.content.drop (q'.src.content.length - 12)) := by
    rw [hword]
    exact entry_secret henc (h.contents q' hmem) hlong fun hdeflate => absurd (hstore.symm.trans hdeflate) (by decide)
  obtain ⟨s, hgo, hat'⟩ := goToFile_at hr hat hi (by omega : index ≤ turns)
  obtain ⟨s', hshown, hat'', hbegun⟩ := unzOpenCurrentFile_at z u.password hr hat' he'
  have hindex : u.openIndex z turns index = .done (.ok { u with uf := s', currentfile := some index }) := by
    unfold TUnzip.openIndex TUnzip.close
    simp only [hclosed, reduceCtorEq, if_false, hat.number_entry, if_neg (Nat.not_le.2 hi), hgo, hshown]
  have hhidden : (q'.src.content.drop (q'.src.content.length - 12)).length = 12 := by
    rw [List.length_drop]
    omega
  have hroom : (q'.shown zip.password ++ q'.src.content.drop (q'.src.content.length - 12)).length ≤ len :=
    hall.symm ▸ hlen
  obtain ⟨r, hread, hshort, hnext⟩ := unzReadCurrentFile_short hr he' hsecret hhidden hstore (hall.symm ▸ hblocks) hroom
    hat''.toOpened hbegun hturns
  rw [hall] at hread
  have hfirst : u.Unzip z turns index len = .done ((.ZR_MORE, q'.src.content), { u with
      uf := { s' with file := r.file, pfile_in_zip_read := some r.info }, currentfile := some index }) := by
    unfold TUnzip.Unzip
    obtain ⟨n, hn⟩ : ∃ n, q'.src.content.length = n + 1 := ⟨q'.src.content.length - 1, by omega⟩
    simp only [hindex, hread, hn, Bool.false_eq_true, if_false]
  have hwaits : TUnzip.Unzip z turns { u with
      uf := { s' with file := r.file, pfile_in_zip_read := some r.info }, currentfile := some index } index len' =
      .running := by
    unfold TUnzip.Unzip TUnzip.openIndex
    have hnever := unzReadCurrentFile_waits (z := z) turns
      (s := { s' with file := r.file, pfile_in_zip_read := some r.info }) hshort hnext hlen'
      hat''.byte_before_the_zipfile rfl rfl
    simp only [if_true, hnever]
  refine ⟨u, hmemory ▸ hopen, ?_, ?_⟩
  · simp only [session, TUnzip.call, hfirst, Outcome.map_done, Outcome.bind_done]
  · simp only [session, TUnzip.call, hfirst, hwaits, Outcome.map_done, Outcome.bind_done]
    rfl

/-- The fourteen letters come at once, and the next one is waited for. -/
theorem session_endless_sample : ∃ u, OpenZip (memory storedBlock secretZip secretRequests) [0x70] = some (.ok u) ∧
    session (TUnzip.call storedInflater (fun _ => 0) 200) u [.Unzip 0 14] =
      .done [.piece .ZR_MORE ((List.range 14).map fun i => BitVec.ofNat 8 (0x61 + i))] ∧
    session (TUnzip.call storedInflater (fun _ => 0) 200) u [.Unzip 0 14, .Unzip 0 1] = .running := by
  have hfirst : (accepted secretRequests)[0]? = some (secretRequests.head (List.cons_ne_nil _ _)) := rfl
  have hturns : (written storedBlock secretZip secretRequests).GetMemory.1.2 + 2 ≤ 200 := by
    rw [secret_used]
    decide
  exact session_endless secret_written hfirst ⟨by decide, rfl⟩ rfl (by decide) (by decide) (by decide) (by decide) hturns

end StarLib.Zip
