import StarLib.Foundations.Sessions
import StarLib.Zip.Writer

/-! # Reading an archive

The archive is a block of memory. A read whose place lies behind its end goes past it, and a number of which a byte is
missing is read as if it were there (`UNZ_EOF` is `UNZ_OK`): both are `none` here. What `inflate` does is a parameter.
-/

namespace StarLib.Zip
open Foundations
set_option autoImplicit false
set_option maxHeartbeats 250000
set_option maxRecDepth 120000

/-- An `unsigned int`. -/
def u32 (n : ℕ) : ℕ := n % 4294967296

/-- The difference of two of them. -/
def sub32 (a b : ℕ) : ℕ := u32 (a + 4294967296 - b)

inductive UnzError
  | UNZ_OK
  | UNZ_END_OF_LIST_OF_FILE
  | UNZ_ERRNO
  | UNZ_PARAMERROR
  | UNZ_BADZIPFILE
  | UNZ_CRCERROR
  | UNZ_PASSWORD
deriving DecidableEq

/-! ## The file -/

structure LUFILE where
  buf : List Byte
  pos : ℕ

namespace LUFILE

variable (stream : LUFILE)

/-- `lufseek` from the start. -/
def lufseek (offset : ℕ) : LUFILE := { stream with pos := u32 offset }

def lufread (toread : ℕ) : Option (List Byte × LUFILE) :=
  let toread := if stream.buf.length < u32 (stream.pos + toread) then sub32 stream.buf.length stream.pos else toread
  if stream.pos + toread ≤ stream.buf.length then
    some ((stream.buf.drop stream.pos).take toread, { stream with pos := stream.pos + toread })
  else none

def unzlocal_getByte : Option (ℕ × LUFILE) :=
  match stream.lufread 1 with
  | some ([c], stream) => some (c.toNat, stream)
  | _ => none

def unzlocal_getShort : Option (ℕ × LUFILE) := do
  let (b0, stream) ← stream.unzlocal_getByte
  let (b1, stream) ← stream.unzlocal_getByte
  return (b0 + 256 * b1, stream)

def unzlocal_getLong : Option (ℕ × LUFILE) := do
  let (b0, stream) ← stream.unzlocal_getByte
  let (b1, stream) ← stream.unzlocal_getByte
  let (b2, stream) ← stream.unzlocal_getByte
  let (b3, stream) ← stream.unzlocal_getByte
  return (b0 + 256 * b1 + 65536 * b2 + 16777216 * b3, stream)

/-- The loop over the places of the buffer, from the last one; it does not stop at the first one. -/
def searchBack (buf : List Byte) : ℕ → Option ℕ
  | 0 => none
  | i + 1 => if (buf.drop i).take 4 = [0x50, 0x4b, 0x05, 0x06] then some i else searchBack buf i

/-- `unzlocal_SearchCentralDir`. The loop that reads further back is left after its first turn. -/
def unzlocal_SearchCentralDir : Option (ℕ × LUFILE) :=
  let uSizeFile := stream.buf.length
  let uMaxBack := min 0xffff uSizeFile
  if 4 < uMaxBack then do
    let uBackRead := if uMaxBack < 4 + 0x400 then uMaxBack else 4 + 0x400
    let uReadPos := uSizeFile - uBackRead
    let uReadSize := min (0x400 + 4) (uSizeFile - uReadPos)
    let (buf, stream) ← (stream.lufseek uReadPos).lufread uReadSize
    let i ← searchBack buf (uReadSize - 3)
    return (uReadPos + i, stream)
  else some (0xffffffff, stream.lufseek uSizeFile)

end LUFILE

/-! ## The directory -/

structure unz_file_info where
  version : ℕ
  version_needed : ℕ
  flag : ℕ
  compression_method : ℕ
  dosDate : ℕ
  crc : ℕ
  compressed_size : ℕ
  uncompressed_size : ℕ
  size_filename : ℕ
  size_file_extra : ℕ
  size_file_comment : ℕ
  disk_num_start : ℕ
  internal_fa : ℕ
  external_fa : ℕ
  -- unz_file_info_internal
  offset_curfile : ℕ

inductive ZlibError
  | Z_OK
  | Z_STREAM_END
  | failed
deriving DecidableEq

/-- `inflateInit2`, and `inflate` for some input and room for some output: the output, and the input that is left. -/
structure Inflater (ι : Type) where
  init : ι
  inflate : ι → List Byte → ℕ → ZlibError × List Byte × List Byte × ι

/-- `file_in_zip_read_info_s`: the input of the stream that has been read is `next_in`. -/
structure ReadInfo (ι : Type) where
  stream : ι
  next_in : List Byte
  pos_in_zipfile : ℕ
  crc32 : DWord
  crc32_wait : ℕ
  rest_read_compressed : ℕ
  rest_read_uncompressed : ℕ
  compression_method : ℕ
  encrypted : Bool
  keys : Keys
  encheadleft : ℕ
  crcenctest : Byte

structure unz_s (ι : Type) where
  file : LUFILE
  number_entry : ℕ
  size_comment : ℕ
  byte_before_the_zipfile : ℕ
  num_file : ℕ
  pos_in_central_dir : ℕ
  current_file_ok : Bool
  central_pos : ℕ
  size_central_dir : ℕ
  offset_central_dir : ℕ
  cur_file_info : unz_file_info
  pfile_in_zip_read : Option (ReadInfo ι)

variable {ι : Type}

/-- The first part of `unzlocal_GetCurrentFileInfoInternal`: the fields. -/
def readFileInfo (s : unz_s ι) : Option (UnzError × unz_file_info × LUFILE) := do
  let file := s.file.lufseek (s.pos_in_central_dir + s.byte_before_the_zipfile)
  let (uMagic, file) ← file.unzlocal_getLong
  let err : UnzError := if uMagic ≠ 0x02014b50 then .UNZ_BADZIPFILE else .UNZ_OK
  let (version, file) ← file.unzlocal_getShort
  let (version_needed, file) ← file.unzlocal_getShort
  let (flag, file) ← file.unzlocal_getShort
  let (compression_method, file) ← file.unzlocal_getShort
  let (dosDate, file) ← file.unzlocal_getLong
  let (crc, file) ← file.unzlocal_getLong
  let (compressed_size, file) ← file.unzlocal_getLong
  let (uncompressed_size, file) ← file.unzlocal_getLong
  let (size_filename, file) ← file.unzlocal_getShort
  let (size_file_extra, file) ← file.unzlocal_getShort
  let (size_file_comment, file) ← file.unzlocal_getShort
  let (disk_num_start, file) ← file.unzlocal_getShort
  let (internal_fa, file) ← file.unzlocal_getShort
  let (external_fa, file) ← file.unzlocal_getLong
  let (offset_curfile, file) ← file.unzlocal_getLong
  return (err, ⟨version, version_needed, flag, compression_method, dosDate, crc, compressed_size, uncompressed_size,
    size_filename, size_file_extra, size_file_comment, disk_num_start, internal_fa, external_fa, offset_curfile⟩, file)

/-- `unzlocal_GetCurrentFileInfoInternal`, with a buffer for the name or without one. -/
def unzlocal_GetCurrentFileInfoInternal (s : unz_s ι) (fileNameBufferSize : Option ℕ) :
    Option (UnzError × unz_file_info × List Byte × LUFILE) := do
  let (err, info, file) ← readFileInfo s
  match fileNameBufferSize with
  | none => return (err, info, [], file)
  | some size =>
    if err = .UNZ_OK ∧ 0 < info.size_filename ∧ 0 < size then
      let uSizeRead := if info.size_filename < size then info.size_filename else size
      let (szFileName, file) ← file.lufread uSizeRead
      return (if szFileName.length ≠ uSizeRead then .UNZ_ERRNO else err, info, szFileName, file)
    else return (err, info, [], file)

/-- The current file is the one of `pos_in_central_dir`. -/
def setCurrent (s : unz_s ι) : Option (UnzError × unz_s ι) := do
  let (err, info, _, file) ← unzlocal_GetCurrentFileInfoInternal s none
  return (err, { s with
    file := file
    cur_file_info := if err = .UNZ_OK then info else s.cur_file_info
    current_file_ok := decide (err = .UNZ_OK) })

def unzGoToFirstFile (s : unz_s ι) : Option (UnzError × unz_s ι) :=
  setCurrent { s with pos_in_central_dir := s.offset_central_dir, num_file := 0 }

def SIZECENTRALDIRITEM : ℕ := 0x2e
def SIZEZIPLOCALHEADER : ℕ := 0x1e

def unzGoToNextFile (s : unz_s ι) : Option (UnzError × unz_s ι) :=
  if s.current_file_ok = false then some (.UNZ_END_OF_LIST_OF_FILE, s)
  else if s.num_file + 1 = s.number_entry then some (.UNZ_END_OF_LIST_OF_FILE, s)
  else
    setCurrent { s with
      pos_in_central_dir := s.pos_in_central_dir + (SIZECENTRALDIRITEM + s.cur_file_info.size_filename +
        s.cur_file_info.size_file_extra + s.cur_file_info.size_file_comment)
      num_file := s.num_file + 1 }

/-- `unzOpenInternal`: nothing where the archive is refused. -/
def unzOpenInternal (fin : LUFILE) : Option (Option (unz_s ι)) := do
  let (central_pos, fin) ← fin.unzlocal_SearchCentralDir
  if central_pos = 0xffffffff then return none
  let (_, fin) ← (fin.lufseek central_pos).unzlocal_getLong
  let (number_disk, fin) ← fin.unzlocal_getShort
  let (number_disk_with_CD, fin) ← fin.unzlocal_getShort
  let (number_entry, fin) ← fin.unzlocal_getShort
  let (number_entry_CD, fin) ← fin.unzlocal_getShort
  if number_entry_CD ≠ number_entry ∨ number_disk_with_CD ≠ 0 ∨ number_disk ≠ 0 then return none
  let (size_central_dir, fin) ← fin.unzlocal_getLong
  let (offset_central_dir, fin) ← fin.unzlocal_getLong
  let (size_comment, fin) ← fin.unzlocal_getShort
  if central_pos < u32 (offset_central_dir + size_central_dir) then return none
  let (_, s) ← unzGoToFirstFile
    ⟨fin, number_entry, size_comment, central_pos - u32 (offset_central_dir + size_central_dir), 0, 0, false, central_pos,
      size_central_dir, offset_central_dir, ⟨0, 0, 0, 0, 0, 0, 0, 0, 0, 0, 0, 0, 0, 0, 0⟩, none⟩
  return some s

/-- The local header of the current file: the sizes of its two texts, and where the second one is. -/
def unzlocal_CheckCurrentFileCoherencyHeader (s : unz_s ι) : Option (UnzError × ℕ × ℕ × ℕ × LUFILE) := do
  let file := s.file.lufseek (s.cur_file_info.offset_curfile + s.byte_before_the_zipfile)
  let (uMagic, file) ← file.unzlocal_getLong
  let err : UnzError := if uMagic ≠ 0x04034b50 then .UNZ_BADZIPFILE else .UNZ_OK
  let (_, file) ← file.unzlocal_getShort
  let (uFlags, file) ← file.unzlocal_getShort
  let (uData, file) ← file.unzlocal_getShort
  let err := if uData ≠ s.cur_file_info.compression_method then .UNZ_BADZIPFILE else err
  let err := if s.cur_file_info.compression_method ≠ 0 ∧ s.cur_file_info.compression_method ≠ 8 then .UNZ_BADZIPFILE
    else err
  let (_, file) ← file.unzlocal_getLong
  let (uData, file) ← file.unzlocal_getLong
  let err := if uData ≠ s.cur_file_info.crc ∧ uFlags / 8 % 2 = 0 then .UNZ_BADZIPFILE else err
  let (uData, file) ← file.unzlocal_getLong
  let err := if uData ≠ s.cur_file_info.compressed_size ∧ uFlags / 8 % 2 = 0 then .UNZ_BADZIPFILE else err
  let (uData, file) ← file.unzlocal_getLong
  let err := if uData ≠ s.cur_file_info.uncompressed_size ∧ uFlags / 8 % 2 = 0 then .UNZ_BADZIPFILE else err
  let (size_filename, file) ← file.unzlocal_getShort
  let err := if size_filename ≠ s.cur_file_info.size_filename then .UNZ_BADZIPFILE else err
  let (size_extra_field, file) ← file.unzlocal_getShort
  return (err, size_filename + size_extra_field,
    u32 (s.cur_file_info.offset_curfile + SIZEZIPLOCALHEADER + size_filename), size_extra_field, file)

/-! ## The contents of a file -/

/-- `unzCloseCurrentFile` -/
def unzCloseCurrentFile (s : unz_s ι) : UnzError × unz_s ι :=
  match s.pfile_in_zip_read with
  | none => (.UNZ_PARAMERROR, s)
  | some info =>
    let err : UnzError :=
      if info.rest_read_uncompressed = 0 ∧ info.crc32.toNat ≠ info.crc32_wait then .UNZ_CRCERROR else .UNZ_OK
    (err, { s with pfile_in_zip_read := none })

/-- `unzOpenCurrentFile` -/
def unzOpenCurrentFile (z : Inflater ι) (s : unz_s ι) (password : List Byte) : Option (UnzError × unz_s ι) :=
  if s.current_file_ok = false then some (.UNZ_PARAMERROR, s)
  else do
    let s := { s with pfile_in_zip_read := none }
    let (err, iSizeVar, _, _, file) ← unzlocal_CheckCurrentFileCoherencyHeader s
    if err ≠ .UNZ_OK then return (.UNZ_BADZIPFILE, { s with file := file })
    let cur := s.cur_file_info
    let encrypted := decide (cur.flag % 2 = 1)
    return (.UNZ_OK, { s with
      file := file
      pfile_in_zip_read := some {
        stream := z.init
        next_in := []
        pos_in_zipfile := cur.offset_curfile + SIZEZIPLOCALHEADER + iSizeVar
        crc32 := 0
        crc32_wait := cur.crc
        rest_read_compressed := cur.compressed_size
        rest_read_uncompressed := cur.uncompressed_size
        compression_method := cur.compression_method
        encrypted := encrypted
        keys := passwordKeys password
        encheadleft := if encrypted then 12 else 0
        crcenctest := if cur.flag / 8 % 2 = 1 then BitVec.ofNat 8 (cur.dosDate / 256)
          else BitVec.ofNat 8 (cur.crc / 16777216) } })

/-- A call of `unzReadCurrentFile` on its way: what it has put into the buffer, and the room there is still. -/
structure Reading (ι : Type) where
  info : ReadInfo ι
  file : LUFILE
  given : List Byte
  avail_out : ℕ
  reached_eof : Bool

inductive ReadResult
  | count (n : ℕ)
  | unz (err : UnzError)
  | zlib (err : ZlibError)

inductive Turn (ι : Type)
  | fault
  | stop (res : ReadResult) (r : Reading ι)
  | again (r : Reading ι)

/-- The next block of the file, decrypted. -/
def fillBuffer (before : ℕ) (r : Reading ι) : Turn ι :=
  if r.info.next_in = [] ∧ 0 < r.info.rest_read_compressed then
    let uReadThis := min 16384 r.info.rest_read_compressed
    match (r.file.lufseek (r.info.pos_in_zipfile + before)).lufread uReadThis with
    | none => .fault
    | some (buf, file) =>
      if buf.length ≠ uReadThis then .stop (.unz .UNZ_ERRNO) { r with file := file }
      else
        let decoded := zdecodes r.info.keys buf
        .again { r with
          file := file
          info := { r.info with
            pos_in_zipfile := r.info.pos_in_zipfile + uReadThis
            rest_read_compressed := r.info.rest_read_compressed - uReadThis
            next_in := if r.info.encrypted then decoded.1 else buf
            keys := if r.info.encrypted then decoded.2 else r.info.keys } }
  else .again r

/-- The twelve bytes in front of the data. They are taken off what is still to come out. -/
def skipHeader (r : Reading ι) : Turn ι :=
  let uDoEncHead := min r.info.encheadleft r.info.next_in.length
  if 0 < uDoEncHead then
    let bufcrc := r.info.next_in.getD (uDoEncHead - 1) 0
    let r := { r with info := { r.info with
      rest_read_uncompressed := sub32 r.info.rest_read_uncompressed uDoEncHead
      next_in := r.info.next_in.drop uDoEncHead
      encheadleft := r.info.encheadleft - uDoEncHead } }
    if r.info.encheadleft = 0 ∧ bufcrc ≠ r.info.crcenctest then .stop (.unz .UNZ_PASSWORD) r else .again r
  else .again r

def copyStored (r : Reading ι) : Turn ι :=
  let uDoCopy := min r.avail_out r.info.next_in.length
  let copied := r.info.next_in.take uDoCopy
  let info := { r.info with
    crc32 := crc32 r.info.crc32 copied
    rest_read_uncompressed := sub32 r.info.rest_read_uncompressed uDoCopy
    next_in := r.info.next_in.drop uDoCopy }
  .again { r with
    info := info
    given := r.given ++ copied
    avail_out := r.avail_out - uDoCopy
    reached_eof := r.reached_eof || decide (info.rest_read_uncompressed = 0) }

def copyInflated (z : Inflater ι) (r : Reading ι) : Turn ι :=
  let (err, out, left, stream) := z.inflate r.info.stream r.info.next_in r.avail_out
  let info := { r.info with
    stream := stream
    next_in := left
    crc32 := crc32 r.info.crc32 out
    rest_read_uncompressed := sub32 r.info.rest_read_uncompressed out.length }
  let r := { r with info := info, given := r.given ++ out, avail_out := r.avail_out - out.length }
  if err = .Z_STREAM_END ∨ info.rest_read_uncompressed = 0 then
    .stop (.count r.given.length) { r with reached_eof := true }
  else if err ≠ .Z_OK then .stop (.zlib err) r
  else .again r

def Turn.andThen (t : Turn ι) (next : Reading ι → Turn ι) : Turn ι :=
  match t with
  | .again r => next r
  | t => t

def readTurn (z : Inflater ι) (before : ℕ) (r : Reading ι) : Turn ι :=
  ((fillBuffer before r).andThen skipHeader).andThen fun r =>
    if r.info.compression_method = 0 then copyStored r else copyInflated z r

/-- Some turns of the loop; `again` where it is not over then. -/
def readLoop (z : Inflater ι) (before : ℕ) : ℕ → Reading ι → Turn ι
  | 0, r => .again r
  | turns + 1, r =>
    if r.avail_out = 0 then .stop (.count r.given.length) r
    else (readTurn z before r).andThen (readLoop z before turns)

/-- `unzReadCurrentFile`: its value, the bytes in the buffer, and whether the end was reached. -/
def unzReadCurrentFile (z : Inflater ι) (turns : ℕ) (s : unz_s ι) (len : ℕ) :
    Outcome ((ReadResult × List Byte × Bool) × unz_s ι) :=
  match s.pfile_in_zip_read with
  | none => .done ((.unz .UNZ_PARAMERROR, [], false), s)
  | some info =>
    if len = 0 then .done ((.count 0, [], false), s)
    else
      let avail_out := if info.rest_read_uncompressed < len then info.rest_read_uncompressed else len
      match readLoop z s.byte_before_the_zipfile turns ⟨info, s.file, [], avail_out, false⟩ with
      | .fault => .fault
      | .again _ => .running
      | .stop res r =>
        .done ((res, r.given, r.reached_eof), { s with file := r.file, pfile_in_zip_read := some r.info })

/-! ## From file to file -/

/-- `while ((int)uf->num_file<index) unzGoToNextFile(uf)` -/
def goForward (index : ℕ) : ℕ → unz_s ι → Outcome (unz_s ι)
  | 0, s => if s.num_file < index then .running else .done s
  | turns + 1, s =>
    if s.num_file < index then
      match unzGoToNextFile s with
      | none => .fault
      | some (_, s) => goForward index turns s
    else .done s

/-- To a file of the directory, from the first one where that is behind. -/
def goToFile (turns index : ℕ) (s : unz_s ι) : Outcome (unz_s ι) :=
  if index < s.num_file then
    match unzGoToFirstFile s with
    | none => .fault
    | some (_, s) => goForward index turns s
  else goForward index turns s

/-! ## Searching -/

/-- The name of the current file, as far as the buffer holds it. -/
def currentName (s : unz_s ι) (fileNameBufferSize : ℕ) : Option (unz_file_info × List Byte × unz_s ι) := do
  let (err, info, name, file) ← unzlocal_GetCurrentFileInfoInternal s (some fileNameBufferSize)
  if err ≠ .UNZ_OK then none
  return (info, name.takeWhile (· ≠ 0), { s with file := file })

def strcmpcasenosensitive_internal : List Byte → List Byte → ℤ
  | [], [] => 0
  | [], _ :: _ => -1
  | _ :: _, [] => 1
  | c1 :: fileName1, c2 :: fileName2 =>
    if (toUpper c1).toInt < (toUpper c2).toInt then -1
    else if (toUpper c2).toInt < (toUpper c1).toInt then 1
    else strcmpcasenosensitive_internal fileName1 fileName2

/-- Whether the result is zero. -/
def unzStringFileNameCompare (ic : Bool) (fileName1 fileName2 : List Byte) : Bool :=
  if ic then strcmpcasenosensitive_internal fileName1 fileName2 == 0 else fileName1 == fileName2

def locateFrom (szFileName : List Byte) (ic : Bool) : ℕ → unz_s ι → Outcome (UnzError × unz_s ι)
  | 0, _ => .running
  | turns + 1, s =>
    match currentName s 256 with
    | none => .fault
    | some (_, szCurrentFileName, s) =>
      if unzStringFileNameCompare ic szCurrentFileName szFileName then .done (.UNZ_OK, s)
      else
        match unzGoToNextFile s with
        | none => .fault
        | some (.UNZ_OK, s) => locateFrom szFileName ic turns s
        | some (err, s) => .done (err, s)

/-- `unzLocateFile`. The place is put back where the name is not found, what is known of the file there is not. -/
def unzLocateFile (turns : ℕ) (s : unz_s ι) (szFileName : List Byte) (ic : Bool) : Outcome (UnzError × unz_s ι) :=
  if 256 ≤ szFileName.length then .done (.UNZ_PARAMERROR, s)
  else if s.current_file_ok = false then .done (.UNZ_END_OF_LIST_OF_FILE, s)
  else
    let back (err : UnzError) (s' : unz_s ι) : Outcome (UnzError × unz_s ι) :=
      .done (err, { s' with num_file := s.num_file, pos_in_central_dir := s.pos_in_central_dir })
    match unzGoToFirstFile s with
    | none => .fault
    | some (.UNZ_OK, s') =>
      match locateFrom szFileName ic turns s' with
      | .done (.UNZ_OK, s') => .done (.UNZ_OK, s')
      | .done (err, s') => back err s'
      | res => res
    | some (err, s') => back err s'

end StarLib.Zip
