import StarLib.Zip.Opening

/-! # Reading the contents of a file

A file comes out in pieces of any sizes: what a call gives is the next part of the text, and the end is reported together
with the last byte that the reader counts. For a file that was compressed this rests on what `inflate` promises.
-/

namespace StarLib.Zip
open Foundations
set_option autoImplicit false
set_option maxHeartbeats 250000
set_option maxRecDepth 120000

variable {ι : Type} {z : Inflater ι} {R : ι → List Byte → List Byte → Prop}

/-! ## The promise of inflate -/

/-- `R` relates a state of `inflate` to the data it will be given and the text that is still to come. A call gives some of
the text. It stops where the room is used up, where the text is over, or where there is more data to wait for. -/
structure Inflating (z : Inflater ι) (R : ι → List Byte → List Byte → Prop) : Prop where
  step : ∀ {stream : ι} {inp later text : List Byte} {avail_out : ℕ}, R stream (inp ++ later) text → 0 < avail_out →
    text ≠ [] → (inp = [] → later = []) →
    ∃ err out left stream' text', z.inflate stream inp avail_out = (err, out, left, stream') ∧ text = out ++ text' ∧
      out.length ≤ avail_out ∧ R stream' (left ++ later) text' ∧ left.length ≤ inp.length ∧
      (err = .Z_OK ∨ err = .Z_STREAM_END ∧ text' = []) ∧
      (out.length = avail_out ∨ text' = [] ∨ left = [] ∧ later ≠ [])

/-- The text of some data, for a method of compression. -/
def Comes (R : ι → List Byte → List Byte → Prop) (info : ReadInfo ι) (data text : List Byte) : Prop :=
  if info.compression_method = 0 then data = text else R info.stream data text

theorem sub32_eq {a b : ℕ} (ha : a < 4294967296) (hb : b ≤ a) : sub32 a b = a - b := by
  unfold sub32 u32
  omega

/-! ## One turn -/

/-- The bytes of the archive as the file is given them. -/
def ReadInfo.decoded (info : ReadInfo ι) (bytes : List Byte) : List Byte :=
  if info.encrypted then (zdecodes info.keys bytes).1 else bytes

/-- The data in front of the copying part of the loop. -/
def ReadInfo.waiting (info : ReadInfo ι) : ℕ := info.next_in.length + info.rest_read_compressed

/-- A file that is being read, and what is still to come of it. The reader stops in front of what is hidden. -/
structure Holding (R : ι → List Byte → List Byte → Prop) (buf : List Byte) (info : ReadInfo ι) (text hidden : List Byte) :
    Prop where
  data : ∃ later, StandsAt buf info.pos_in_zipfile later ∧ later.length = info.rest_read_compressed ∧
    Comes R info (info.next_in ++ info.decoded later) (text ++ hidden)
  room : info.next_in.length + info.rest_read_compressed ≤ buf.length
  rest : info.rest_read_uncompressed = text.length
  small : text.length < 4294967296
  crc : (crc32 info.crc32 (text ++ hidden)).toNat = info.crc32_wait
  header : info.encheadleft = 0

theorem decoded_length (info : ReadInfo ι) (bytes : List Byte) : (info.decoded bytes).length = bytes.length := by
  unfold ReadInfo.decoded
  split
  · exact zdecodes_length ..
  · rfl

/-- The next block of the archive, and what is behind it. -/
theorem fillBuffer_fills {r : Reading ι} {later : List Byte} (hbuf : r.file.buf.length < 4294967296)
    (hstands : StandsAt r.file.buf r.info.pos_in_zipfile later) (hlength : later.length = r.info.rest_read_compressed) :
    ∃ file pos rest next_in keys later', fillBuffer 0 r = .again { r with
        file := file
        info := { r.info with
          pos_in_zipfile := pos, rest_read_compressed := rest, next_in := next_in, keys := keys } } ∧
      file.buf = r.file.buf ∧ StandsAt r.file.buf pos later' ∧ later'.length = rest ∧
      next_in ++ ({ r.info with keys := keys } : ReadInfo ι).decoded later' = r.info.next_in ++ r.info.decoded later ∧
      next_in.length + rest = r.info.waiting ∧ (next_in = [] → rest = 0) ∧
      (r.info.next_in = [] → next_in.length = min 16384 r.info.rest_read_compressed) := by
  unfold fillBuffer
  by_cases hempty : r.info.next_in = [] ∧ 0 < r.info.rest_read_compressed
  · obtain ⟨hnext, hrest⟩ := hempty
    generalize hk : min 16384 r.info.rest_read_compressed = k
    have hfirst : (later.take k).length = k := by
      rw [List.length_take]
      omega
    have hleft : (later.drop k).length = r.info.rest_read_compressed - k := by rw [List.length_drop, hlength]
    have hsplit := List.take_append_drop k later
    have hbound := hstands.bound
    generalize later.take k = first at hfirst hsplit
    generalize later.drop k = later' at hleft hsplit
    subst hsplit
    have hplace : u32 (r.info.pos_in_zipfile + 0) = r.info.pos_in_zipfile := Nat.mod_eq_of_lt (by omega)
    have hread := lufread_at hbuf hstands.left
    have hright := hstands.right
    rw [hfirst] at hread hright
    rw [if_pos ⟨hnext, hrest⟩]
    simp only [LUFILE.lufseek, hplace, hread, hfirst, ne_eq, not_true_eq_false, if_false]
    refine ⟨_, _, _, _, _, later', rfl, rfl, hright, hleft, ?_, ?_, fun hnone => ?_, fun _ => ?_⟩
    · unfold ReadInfo.decoded
      rw [hnext, List.nil_append]
      dsimp only
      cases r.info.encrypted with
      | false => rfl
      | true =>
        simp only [if_true]
        rw [zdecodes_append]
    · have hdecoded : (if r.info.encrypted = true then (zdecodes r.info.keys first).1 else first).length = k := by
        rw [← hfirst]
        exact decoded_length r.info first
      unfold ReadInfo.waiting
      rw [hdecoded, hnext, List.length_nil]
      omega
    · have hdecoded : (if r.info.encrypted = true then (zdecodes r.info.keys first).1 else first).length = k := by
        rw [← hfirst]
        exact decoded_length r.info first
      rw [hnone, List.length_nil] at hdecoded
      omega
    · rw [← hfirst]
      exact decoded_length r.info first
  · rw [if_neg hempty]
    have hdone : r.info.next_in = [] → r.info.rest_read_compressed = 0 := fun hnext =>
      Nat.eq_zero_of_not_pos fun hpos => hempty ⟨hnext, hpos⟩
    refine ⟨r.file, r.info.pos_in_zipfile, r.info.rest_read_compressed, r.info.next_in, r.info.keys, later, rfl, rfl,
      hstands, hlength, rfl, rfl, hdone, fun hnext => ?_⟩
    rw [hdone hnext, Nat.min_zero, hnext, List.length_nil]

theorem fillBuffer_holding {r : Reading ι} {text hidden : List Byte} (hbuf : r.file.buf.length < 4294967296)
    (h : Holding R r.file.buf r.info text hidden) :
    ∃ file info, fillBuffer 0 r = .again { r with file := file, info := info } ∧ file.buf = r.file.buf ∧
      Holding R file.buf info text hidden ∧ (info.next_in = [] → info.rest_read_compressed = 0) ∧
      info.waiting = r.info.waiting := by
  obtain ⟨later, hstands, hlength, hcomes⟩ := h.data
  obtain ⟨file, pos, rest, next_in, keys, later', hfill, hfile, hstands', hlength', hdecoded, hwaiting, hdone, -⟩ :=
    fillBuffer_fills hbuf hstands hlength
  have hroom := h.room
  refine ⟨file, _, hfill, hfile,
    ⟨⟨later', hfile.symm ▸ hstands', hlength', ?_⟩, ?_, h.rest, h.small, h.crc, h.header⟩, hdone, hwaiting⟩
  · unfold Comes at hcomes ⊢
    rw [← hdecoded] at hcomes
    exact hcomes
  · rw [hfile]
    exact hwaiting.trans_le hroom

theorem skipHeader_holding {r : Reading ι} {text hidden buf : List Byte} (h : Holding R buf r.info text hidden) :
    skipHeader r = .again r := by
  unfold skipHeader
  simp only [h.header, Nat.zero_min]
  exact if_neg (Nat.lt_irrefl 0)

/-- The part of a turn in front of the copying comes to what is still to come of the file. -/
def Ready (R : ι → List Byte → List Byte → Prop) (file : LUFILE) (info : ReadInfo ι) (text hidden : List Byte) : Prop :=
  ∀ r : Reading ι, r.file = file → r.info = info → ∃ file' info',
    (fillBuffer 0 r).andThen skipHeader = .again { r with file := file', info := info' } ∧ file'.buf = file.buf ∧
      Holding R file'.buf info' text hidden ∧ (info'.next_in = [] → info'.rest_read_compressed = 0) ∧
      info'.waiting ≤ info.waiting

theorem Holding.ready {file : LUFILE} {info : ReadInfo ι} {text hidden : List Byte} (hbuf : file.buf.length < 4294967296)
    (h : Holding R file.buf info text hidden) : Ready R file info text hidden := by
  rintro r rfl rfl
  obtain ⟨file', info', hfill, hfile, hholding, hdone, hwaiting⟩ := fillBuffer_holding hbuf h
  refine ⟨file', info', ?_, hfile, hholding, hdone, hwaiting.le⟩
  rw [hfill]
  exact skipHeader_holding (r := { r with file := file', info := info' }) hholding

/-- A turn that came to its end: what was given, and what is still to come. -/
structure Turned (R : ι → List Byte → List Byte → Prop) (r r' : Reading ι) (out text' hidden : List Byte) : Prop where
  given : r'.given = r.given ++ out
  avail_out : r'.avail_out = r.avail_out - out.length
  reached_eof : r'.reached_eof = (r.reached_eof || decide (text' = []))
  file : r'.file.buf = r.file.buf
  holding : Holding R r'.file.buf r'.info text' hidden

/-- The text goes on where the first part of it has been copied. -/
theorem Holding.give {buf out text' hidden next_in later : List Byte} {info : ReadInfo ι} (stream : ι)
    (h : Holding R buf info (out ++ text') hidden) (hnext : next_in.length ≤ info.next_in.length)
    (hstands : StandsAt buf info.pos_in_zipfile later) (hlength : later.length = info.rest_read_compressed)
    (hcomes : Comes R { info with stream := stream } (next_in ++ info.decoded later) (text' ++ hidden)) :
    Holding R buf { info with
      stream := stream
      next_in := next_in
      crc32 := crc32 info.crc32 out
      rest_read_uncompressed := sub32 info.rest_read_uncompressed out.length } text' hidden := by
  have hroom := h.room
  have hsmall := h.small
  have hrest := h.rest
  have hcrc := h.crc
  rw [List.length_append] at hsmall hrest
  refine ⟨⟨later, hstands, hlength, hcomes⟩, ?_, ?_, by omega, ?_, h.header⟩
  · dsimp only
    omega
  · dsimp only
    rw [sub32_eq (by omega) (by omega)]
    omega
  · dsimp only
    rw [← hcrc, List.append_assoc, ← crc32_append]

/-- A turn gives some of the text. It is the last one, it fills the buffer, or it uses up data. -/
def Gives (R : ι → List Byte → List Byte → Prop) (r : Reading ι) (text hidden : List Byte) (t : Turn ι) : Prop :=
  ∃ r' out text', text = out ++ text' ∧ out.length ≤ r.avail_out ∧ Turned R r r' out text' hidden ∧
    (t = .stop (.count (r.given ++ out).length) r' ∧ text' = [] ∨
      t = .again r' ∧ (out.length = r.avail_out ∨ r'.info.waiting < r.info.waiting))

variable {r : Reading ι} {text hidden : List Byte}

/-- What is copied is in front of what is hidden. -/
theorem append_splits {α : Type} {out rest text hidden : List α} (h : out ++ rest = text ++ hidden)
    (hle : out.length ≤ text.length) : ∃ text', text = out ++ text' ∧ rest = text' ++ hidden := by
  obtain ⟨text', htext, hrest⟩ | ⟨more, hout, hhidden⟩ := List.append_eq_append_iff.1 h
  · exact ⟨text', htext, hrest⟩
  · have hmore : more = [] := by
      rw [hout, List.length_append] at hle
      exact List.eq_nil_of_length_eq_zero (by omega)
    rw [hmore, List.append_nil] at hout
    rw [hmore, List.nil_append] at hhidden
    exact ⟨[], by rw [hout, List.append_nil], hhidden.symm⟩

theorem copyStored_gives (h : Holding R r.file.buf r.info text hidden) (hmethod : r.info.compression_method = 0)
    (hle : r.avail_out ≤ text.length) (hwait : r.info.next_in = [] → r.info.rest_read_compressed = 0) :
    Gives R r text hidden (copyStored r) := by
  obtain ⟨later, hstands, hlength, hdata⟩ := h.data
  have hcomes : r.info.next_in ++ r.info.decoded later = text ++ hidden := by
    unfold Comes at hdata
    rwa [if_pos hmethod] at hdata
  have hall : text.length ≤ r.info.next_in.length + later.length := by
    have hlengths := congrArg List.length hcomes
    rw [List.length_append, List.length_append, decoded_length] at hlengths
    omega
  unfold copyStored
  dsimp only
  generalize hk : min r.avail_out r.info.next_in.length = k
  have hsplit : r.info.next_in.take k ++ r.info.next_in.drop k = r.info.next_in := List.take_append_drop ..
  have hout : (r.info.next_in.take k).length = k := by
    rw [List.length_take]
    omega
  have hleft : (r.info.next_in.drop k).length = r.info.next_in.length - k := List.length_drop
  generalize r.info.next_in.take k = out at hsplit hout
  generalize r.info.next_in.drop k = left at hsplit hleft
  rw [← hsplit, List.append_assoc] at hcomes
  obtain ⟨text', htext, hmore⟩ := append_splits hcomes (by omega)
  rw [htext] at h
  have hgive := h.give r.info.stream (by omega) hstands hlength
    (show Comes R _ (left ++ _) _ by unfold Comes; rw [if_pos hmethod]; exact hmore)
  have heof := hgive.rest
  rw [hout] at heof hgive
  refine ⟨_, out, text', htext, by omega, ?_, Or.inr ⟨rfl, ?_⟩⟩
  · refine ⟨rfl, by rw [hout], ?_, rfl, hgive⟩
    dsimp only at heof ⊢
    rw [heof]
    congr 1
    exact decide_eq_decide.2 List.length_eq_zero_iff
  · by_cases hfull : r.info.next_in.length < r.avail_out
    · right
      have hsome : r.info.next_in ≠ [] := fun hnone => by
        have hnothing := hlength.trans (hwait hnone)
        omega
      have hlength' := List.length_pos_of_ne_nil hsome
      unfold ReadInfo.waiting
      dsimp only
      omega
    · left
      omega

theorem copyInflated_gives (hz : Inflating z R) (h : Holding R r.file.buf r.info text hidden)
    (hmethod : r.info.compression_method ≠ 0) (hpos : 0 < r.avail_out) (hle : r.avail_out ≤ text.length)
    (hwait : r.info.next_in = [] → r.info.rest_read_compressed = 0) : Gives R r text hidden (copyInflated z r) := by
  obtain ⟨later, hstands, hlength, hdata⟩ := h.data
  have hcomes : R r.info.stream (r.info.next_in ++ r.info.decoded later) (text ++ hidden) := by
    unfold Comes at hdata
    rwa [if_neg hmethod] at hdata
  have hsome : text ++ hidden ≠ [] := List.ne_nil_of_length_pos (by rw [List.length_append]; omega)
  have hlater : r.info.next_in = [] → r.info.decoded later = [] := fun hnone =>
    List.eq_nil_of_length_eq_zero ((decoded_length r.info later).trans (hlength.trans (hwait hnone)))
  obtain ⟨err, out, left, stream, more, hinflate, hall, hroom, hR, hleft, herr, hstop⟩ := hz.step hcomes hpos hsome hlater
  obtain ⟨text', htext, rfl⟩ := append_splits hall.symm (hroom.trans hle)
  rw [htext] at h
  have hgive := h.give stream hleft hstands hlength (by unfold Comes; rwa [if_neg hmethod])
  have hrest := hgive.rest
  unfold copyInflated
  rw [hinflate]
  dsimp only at hrest ⊢
  by_cases hlast : err = .Z_STREAM_END ∨ sub32 r.info.rest_read_uncompressed out.length = 0
  · have hnil : text' = [] := by
      rcases hlast with hend | hzero
      · rcases herr with hok | ⟨-, hnil⟩
        · exact absurd (hok.symm.trans hend) (by decide)
        · exact (List.append_eq_nil_iff.1 hnil).1
      · exact List.eq_nil_of_length_eq_zero (hrest.symm.trans hzero)
    rw [if_pos hlast]
    refine ⟨_, out, text', htext, hroom, ?_, Or.inl ⟨rfl, hnil⟩⟩
    refine ⟨rfl, rfl, ?_, rfl, hgive⟩
    rw [decide_eq_true hnil, Bool.or_true]
  · have hmore : text' ≠ [] := fun hnil => hlast (Or.inr (by rw [hrest, hnil, List.length_nil]))
    have hok : ¬ err ≠ .Z_OK := by
      rcases herr with hok | ⟨-, hnil⟩
      · exact not_not.2 hok
      · exact absurd (List.append_eq_nil_iff.1 hnil).1 hmore
    rw [if_neg hlast, if_neg hok]
    refine ⟨_, out, text', htext, hroom, ?_, Or.inr ⟨rfl, ?_⟩⟩
    · refine ⟨rfl, rfl, ?_, rfl, hgive⟩
      rw [decide_eq_false hmore, Bool.or_false]
    · rcases hstop with hfull | hnil | ⟨hnone, hwaits⟩
      · exact Or.inl hfull
      · exact absurd (List.append_eq_nil_iff.1 hnil).1 hmore
      · right
        have hgiven := List.length_pos_of_ne_nil fun hnone => hwaits (hlater hnone)
        unfold ReadInfo.waiting
        dsimp only
        rw [hnone, List.length_nil]
        omega

theorem readTurn_gives (hz : Inflating z R) (h : Ready R r.file r.info text hidden) (hpos : 0 < r.avail_out)
    (hle : r.avail_out ≤ text.length) : Gives R r text hidden (readTurn z 0 r) := by
  obtain ⟨file, info, hfront, hfile, hholding, hdone, hwaiting⟩ := h r rfl rfl
  have hcopy : Gives R { r with file := file, info := info } text hidden
      (if info.compression_method = 0 then copyStored { r with file := file, info := info }
        else copyInflated z { r with file := file, info := info }) := by
    by_cases hmethod : info.compression_method = 0
    · rw [if_pos hmethod]
      exact copyStored_gives hholding hmethod hle hdone
    · rw [if_neg hmethod]
      exact copyInflated_gives hz hholding hmethod hpos hle hdone
  unfold readTurn
  rw [hfront]
  obtain ⟨r', out, text', htext, hroom, hturned, hres⟩ := hcopy
  refine ⟨r', out, text', htext, hroom, ?_, ?_⟩
  · exact ⟨hturned.given, hturned.avail_out, hturned.reached_eof, hturned.file.trans hfile, hturned.holding⟩
  · exact hres.imp_right fun hmore => hmore.imp_right fun hmore => hmore.imp_right fun hless => hless.trans_le hwaiting

/-! ## A call -/

/-- The loop gives what there is room for. -/
theorem readLoop_ready {turns : ℕ} (hz : Inflating z R) (hbuf : r.file.buf.length < 4294967296)
    (h : Ready R r.file r.info text hidden) (hpos : 0 < r.avail_out) (hle : r.avail_out ≤ text.length)
    (hturns : r.info.waiting + 2 ≤ turns) :
    ∃ r', readLoop z 0 turns r = .stop (.count r'.given.length) r' ∧ r'.given = r.given ++ text.take r.avail_out ∧
      r'.reached_eof = (r.reached_eof || decide (text.drop r.avail_out = [])) ∧
      r'.file.buf = r.file.buf ∧ Holding R r'.file.buf r'.info (text.drop r.avail_out) hidden := by
  induction turns generalizing r text with
  | zero => exact absurd hturns (by omega)
  | succ turns ih =>
    unfold readLoop
    rw [if_neg hpos.ne']
    obtain ⟨r', out, text', htext, hroom, hturned, hres⟩ := readTurn_gives hz h hpos hle
    have htake : text.take r.avail_out = out ++ text'.take r'.avail_out := by
      rw [htext, hturned.avail_out, List.take_append, List.take_of_length_le hroom]
    have hdrop : text.drop r.avail_out = text'.drop r'.avail_out := by
      rw [htext, hturned.avail_out, List.drop_append, List.drop_of_length_le hroom, List.nil_append]
    have hle' : r'.avail_out ≤ text'.length := by
      rw [htext, List.length_append] at hle
      rw [hturned.avail_out]
      omega
    have hlast : text' = [] → r'.avail_out = 0 := fun hnil => by
      rw [hnil] at hle'
      exact Nat.le_zero.1 hle'
    have hdone : r'.avail_out = 0 → r'.given = r.given ++ text.take r.avail_out ∧
        r'.reached_eof = (r.reached_eof || decide (text.drop r.avail_out = [])) ∧
        Holding R r'.file.buf r'.info (text.drop r.avail_out) hidden := fun hfull => by
      rw [hfull, List.drop_zero] at hdrop
      rw [hfull, List.take_zero, List.append_nil] at htake
      exact ⟨by rw [htake, hturned.given], by rw [hturned.reached_eof, hdrop], by rw [hdrop]; exact hturned.holding⟩
    rcases hres with ⟨hstop, hnil⟩ | ⟨hagain, hmore⟩
    · obtain ⟨hgiven, heof, hholding⟩ := hdone (hlast hnil)
      refine ⟨r', ?_, hgiven, heof, hturned.file, hholding⟩
      rw [hstop, hturned.given]
      rfl
    · rw [hagain]
      simp only [Turn.andThen]
      by_cases hfull : r'.avail_out = 0
      · obtain ⟨hgiven, heof, hholding⟩ := hdone hfull
        refine ⟨r', ?_, hgiven, heof, hturned.file, hholding⟩
        cases turns with
        | zero => exact absurd hturns (by omega)
        | succ turns =>
          unfold readLoop
          rw [if_pos hfull]
      · have hsmaller : r'.info.waiting < r.info.waiting := hmore.resolve_left fun hall => hfull (by
          rw [hturned.avail_out, hall, Nat.sub_self])
        have hbuf' : r'.file.buf.length < 4294967296 := hturned.file ▸ hbuf
        obtain ⟨r'', hloop, hgiven, heof, hfile, hholding⟩ :=
          ih hbuf' (hturned.holding.ready hbuf') (Nat.pos_of_ne_zero hfull) hle' (by omega)
        refine ⟨r'', hloop, ?_, ?_, hfile.trans hturned.file, by rw [hdrop]; exact hholding⟩
        · rw [hgiven, hturned.given, htake, List.append_assoc]
        · have hsome : text' ≠ [] := fun hnil => hfull (hlast hnil)
          rw [heof, hturned.reached_eof, decide_eq_false hsome, Bool.or_false, hdrop]

variable {turns : ℕ} {s : unz_s ι} {info : ReadInfo ι}

/-- A call that has no room, or comes behind the end, gives nothing. -/
theorem unzReadCurrentFile_nothing (len : ℕ) (hinfo : s.pfile_in_zip_read = some info)
    (hnone : min info.rest_read_uncompressed len = 0) (hturns : 0 < turns) :
    unzReadCurrentFile z turns s len = .done ((.count 0, [], false), s) := by
  have hsame : s = { s with file := s.file, pfile_in_zip_read := some info } := by rw [← hinfo]
  unfold unzReadCurrentFile
  rw [hinfo]
  by_cases hlen : len = 0
  · simp only [if_pos hlen]
  · have hrest : info.rest_read_uncompressed = 0 := by omega
    obtain ⟨turns, rfl⟩ : ∃ k, turns = k + 1 := ⟨turns - 1, by omega⟩
    simp only [if_neg hlen, hrest, if_pos (Nat.pos_of_ne_zero hlen), readLoop, if_true]
    exact congrArg (fun s' => Outcome.done ((ReadResult.count 0, [], false), s')) hsame.symm

/-- A call gives the next part of the text, and reports the end with the last byte of it. -/
theorem unzReadCurrentFile_ready (len : ℕ) (hz : Inflating z R) (hbuf : s.file.buf.length < 4294967296)
    (hbefore : s.byte_before_the_zipfile = 0) (hinfo : s.pfile_in_zip_read = some info)
    (h : Ready R s.file info text hidden) (hcount : min info.rest_read_uncompressed len = min text.length len)
    (hsome : text.take len ≠ []) (hturns : info.waiting + 2 ≤ turns) :
    ∃ file info', unzReadCurrentFile z turns s len =
        .done ((.count (text.take len).length, text.take len, decide (text.length ≤ len)),
          { s with file := file, pfile_in_zip_read := some info' }) ∧
      file.buf = s.file.buf ∧ Holding R file.buf info' (text.drop len) hidden := by
  have hpos : 0 < min text.length len := by
    have hlength := List.length_pos_of_ne_nil hsome
    rw [List.length_take] at hlength
    omega
  generalize havail : (if info.rest_read_uncompressed < len then info.rest_read_uncompressed else len) = avail_out
  have hmin : avail_out = min text.length len := by
    rw [← havail, ← hcount]
    split
    · omega
    · omega
  obtain ⟨r, hloop, hgiven, heof, hfile, hholding⟩ := readLoop_ready (r := ⟨info, s.file, [], avail_out, false⟩) hz hbuf h
    (hmin ▸ hpos) (by rw [hmin]; exact Nat.min_le_left ..) hturns
  have hparts : text.take avail_out = text.take len ∧ text.drop avail_out = text.drop len := by
    rcases Nat.le_total len text.length with hless | hmore
    · rw [hmin, Nat.min_eq_right hless]
      exact ⟨rfl, rfl⟩
    · rw [hmin, Nat.min_eq_left hmore, List.take_of_length_le (Nat.le_refl _), List.take_of_length_le hmore,
        List.drop_of_length_le (Nat.le_refl _), List.drop_of_length_le hmore]
      exact ⟨rfl, rfl⟩
  rw [hparts.1, List.nil_append] at hgiven
  have heof' : r.reached_eof = decide (text.length ≤ len) := by
    rw [heof, Bool.false_or, hparts.2]
    exact decide_eq_decide.2 List.drop_eq_nil_iff
  refine ⟨r.file, r.info, ?_, hfile, hparts.2 ▸ hholding⟩
  unfold unzReadCurrentFile
  rw [hinfo]
  simp only [if_neg (show ¬ len = 0 by omega), havail, hbefore, hloop]
  rw [← hgiven, ← heof']

/-! ## How a file begins -/

/-- A file of the archive that is not encrypted, and its text. -/
structure Plain (z : Inflater ι) (R : ι → List Byte → List Byte → Prop) (e : Entry) (text : List Byte) : Prop where
  flg : e.info.flg % 2 = 0
  siz : e.info.siz = e.body.length
  len : e.info.len = text.length
  crc : e.info.crc = (crc32 0 text).toNat
  text : if e.info.how = 0 then e.body = text else R z.init e.body text

theorem begun_holding {entries : List Entry} {e : Entry} {i : ℕ} (h : Readable entries) (he : entries[i]? = some e)
    (hplain : Plain z R e text) (password : List Byte) : Holding R (archive entries) (begun z password e) text [] := by
  have hbody := body_at h.offsets he
  have hfits := h.fits e (List.mem_of_getElem? he)
  have hbound := hbody.bound
  have hclear : ¬ e.info.flg % 2 = 1 := by
    rw [hplain.flg]
    decide
  refine ⟨⟨e.body, hbody, hplain.siz.symm, ?_⟩, ?_, hplain.len, hplain.len ▸ hfits.len, ?_, if_neg hclear⟩
  · have hdecoded : (begun z password e).decoded e.body = e.body := if_neg (by
      rw [show (begun z password e).encrypted = decide (e.info.flg % 2 = 1) from rfl, decide_eq_false hclear]
      exact Bool.false_ne_true)
    rw [hdecoded, List.append_nil]
    exact hplain.text
  · show 0 + e.info.siz ≤ _
    rw [hplain.siz]
    omega
  · rw [List.append_nil]
    exact hplain.crc.symm

/-- A file of the archive that is encrypted with this password. The reader counts the header as a part of its text. -/
structure Secret (z : Inflater ι) (R : ι → List Byte → List Byte → Prop) (password : List Byte) (e : Entry)
    (text hidden : List Byte) : Prop where
  flg : e.info.flg = 9
  body : ∃ head data tail, e.body = (zencodes (passwordKeys password) (head ++ data)).1 ++ tail ∧ head.length = 12 ∧
    head.getD 11 0 = BitVec.ofNat 8 (e.info.tim / 256) ∧ e.info.siz = 12 + data.length ∧
    if e.info.how = 0 then data = text ++ hidden else R z.init data (text ++ hidden)
  len : e.info.len = text.length + 12
  crc : e.info.crc = (crc32 0 (text ++ hidden)).toNat

/-- What is in front of the copying when a file behind a password is read for the first time: the header is skipped, and
is taken off what is counted. -/
theorem begun_front {entries : List Entry} {e : Entry} {i : ℕ} {password : List Byte} {r : Reading ι}
    (h : Readable entries) (he : entries[i]? = some e) (hsecret : Secret z R password e text hidden)
    (hfile : r.file.buf = archive entries) (hinfo : r.info = begun z password e) :
    ∃ file pos rest next_in keys later, (fillBuffer 0 r).andThen skipHeader = .again { r with
        file := file
        info := { r.info with
          pos_in_zipfile := pos
          rest_read_compressed := rest
          next_in := next_in
          keys := keys
          rest_read_uncompressed := text.length
          encheadleft := 0 } } ∧
      file.buf = archive entries ∧ StandsAt (archive entries) pos later ∧ later.length = rest ∧
      Comes R r.info (next_in ++ ({ r.info with keys := keys } : ReadInfo ι).decoded later) (text ++ hidden) ∧
      12 + next_in.length + rest = e.info.siz ∧ 12 + next_in.length = min 16384 e.info.siz ∧
      e.info.siz ≤ (archive entries).length := by
  obtain ⟨head, data, tail, hbody, hhead, hcheck, hsiz, hdata⟩ := hsecret.body
  have hstands := body_at h.offsets he
  have hfits := h.fits e (List.mem_of_getElem? he)
  rw [hbody] at hstands
  have hlength : (zencodes (passwordKeys password) (head ++ data)).1.length = e.info.siz := by
    rw [zencodes_length, List.length_append, hhead, hsiz]
  have hset : e.info.flg % 2 = 1 := by rw [hsecret.flg]
  obtain ⟨file, pos, rest, next_in, keys, later, hfill, hfile', hstands', hlength', hdecoded, hwaiting, -, hfirst⟩ :=
    fillBuffer_fills (r := r) (by rw [hfile]; exact h.size) (by rw [hfile, hinfo]; exact hstands.left)
      (by rw [hinfo]; exact hlength)
  have hplain : r.info.next_in ++ r.info.decoded (zencodes (passwordKeys password) (head ++ data)).1 = head ++ data := by
    rw [hinfo]
    refine (if_pos (decide_eq_true hset)).trans ?_
    exact congrArg Prod.fst (zdecodes_zencodes (passwordKeys password) (head ++ data))
  have hblock : next_in.length = min 16384 e.info.siz := by
    have hblock := hfirst (by rw [hinfo]; rfl)
    rw [hinfo] at hblock
    exact hblock
  have henough : 12 ≤ next_in.length := by omega
  rw [hplain] at hdecoded
  obtain ⟨more, hnext, hlater⟩ := append_splits hdecoded.symm (hhead.trans_le henough)
  have hleft : r.info.encheadleft = 12 := by
    rw [hinfo]
    exact if_pos hset
  have hskip : min 12 next_in.length = 12 := Nat.min_eq_left henough
  have hbyte : next_in.getD 11 0 = r.info.crcenctest := by
    rw [hnext, List.getD_append _ _ _ _ (by rw [hhead]; decide), hcheck, hinfo]
    exact (if_pos (by rw [hsecret.flg])).symm
  have hdrop : next_in.drop 12 = more := by rw [hnext, ← hhead, List.drop_left]
  have hshorter : sub32 r.info.rest_read_uncompressed 12 = text.length := by
    have hlen : r.info.rest_read_uncompressed = text.length + 12 := by
      rw [hinfo]
      exact hsecret.len
    have hbound := hsecret.len ▸ hfits.len
    rw [hlen, sub32_eq (by omega) (by omega), Nat.add_sub_cancel]
  have hmore : next_in.length = 12 + more.length := by rw [hnext, List.length_append, hhead]
  have hbound := hstands.left.bound
  rw [hlength] at hbound
  have hwait : r.info.waiting = e.info.siz := by
    rw [hinfo]
    exact Nat.zero_add _
  refine ⟨file, pos, rest, more, keys, later, ?_, hfile'.trans hfile, hfile ▸ hstands', hlength', ?_, by omega, by omega,
    by omega⟩
  · rw [hfill]
    show skipHeader _ = _
    unfold skipHeader
    simp only [hleft, hskip, hdrop, hshorter, hbyte, Nat.sub_self, ne_eq, not_true_eq_false, and_false, if_false]
    exact if_pos (Nat.zero_lt_succ 11)
  · unfold Comes
    rw [hinfo]
    rw [hlater, hinfo] at hdata
    exact hdata

theorem begun_secret {entries : List Entry} {e : Entry} {i : ℕ} {password : List Byte} {file : LUFILE}
    (h : Readable entries) (he : entries[i]? = some e) (hsecret : Secret z R password e text hidden)
    (hfile : file.buf = archive entries) : Ready R file (begun z password e) text hidden := by
  rintro r rfl hinfo
  obtain ⟨file', pos, rest, next_in, keys, later, hfront, hfile', hstands, hlength, hcomes, hall, hblock, hbound⟩ :=
    begun_front h he hsecret hfile hinfo
  have hlen := hsecret.len ▸ (h.fits e (List.mem_of_getElem? he)).len
  refine ⟨file', _, hfront, hfile'.trans hfile.symm, ⟨⟨later, ?_, hlength, hcomes⟩, ?_, rfl, by omega, ?_, rfl⟩,
    fun hnone => ?_, ?_⟩
  · rw [hfile']
    exact hstands
  · rw [hfile']
    dsimp only
    omega
  · rw [hinfo]
    exact hsecret.crc.symm
  · dsimp only at hnone ⊢
    rw [hnone, List.length_nil] at hblock hall
    omega
  · show next_in.length + rest ≤ 0 + e.info.siz
    omega

end StarLib.Zip
