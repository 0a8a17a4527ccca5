import StarLib.Foundations.Segments
import StarLib.Zip.Reader

/-! # What a caller asks of an archive

`TUnzip` keeps the place in the directory, the file that is being read, and the entry that was asked for last. Indices
are not negative, but for the one of `Get` that asks for the number of files. What a file time is for a date in the
format of DOS is a parameter.
-/

namespace StarLib.Zip
open Foundations
set_option autoImplicit false
set_option maxHeartbeats 250000
set_option maxRecDepth 120000

def MAX_PATH : ℕ := 260

/-! ## Times -/

abbrev FILETIME := BitVec 64

structure SYSTEMTIME where
  wYear : ℕ
  wMonth : ℕ
  wDay : ℕ
  wHour : ℕ
  wMinute : ℕ
  wSecond : ℕ
deriving DecidableEq

/-- The date and the time of `dosdatetime2filetime`. -/
def dosdatetime (dosDate : ℕ) : SYSTEMTIME :=
  let dostime := dosDate % 65536
  let dosdate := dosDate / 65536 % 65536
  ⟨dosdate / 512 % 128 + 1980, dosdate / 32 % 16, dosdate % 32, dostime / 2048 % 32, dostime / 32 % 64, dostime % 32 * 2⟩

def timet2filetime (t : ℕ) : FILETIME := BitVec.ofInt 64 (long t * 10000000 + 116444736000000000)

/-- The field of the times, if there is one. -/
def findUT : ℕ → List Byte → Option (List Byte)
  | 0, _ => none
  | fuel + 1, extra =>
    if 4 < extra.length then
      if extra.take 2 = [0x55, 0x54] then some extra else findUT fuel (extra.drop (4 + (extra.getD 2 0).toNat))
    else none

/-- One of the times, if it is there; nothing where the field is too short. -/
def readTime (has : Bool) (ft : FILETIME) (extra : List Byte) : Option (FILETIME × List Byte) :=
  if has then if extra.length < 4 then none else some (timet2filetime (leValue (extra.take 4)), extra.drop 4)
  else some (ft, extra)

structure EntryTimes where
  mtime : FILETIME
  atime : FILETIME
  ctime : FILETIME
deriving DecidableEq

def entryTimes (ft : FILETIME) (extra : List Byte) : Option EntryTimes :=
  match findUT extra.length extra with
  | none => some ⟨ft, ft, ft⟩
  | some field => do
    let flags := (field.getD 4 0).toNat
    let (mtime, field) ← readTime (decide (flags % 2 = 1)) ft (field.drop 5)
    let (atime, field) ← readTime (decide (flags / 2 % 2 = 1)) ft field
    let (ctime, _) ← readTime (decide (flags / 4 % 2 = 1)) ft field
    return ⟨mtime, atime, ctime⟩

/-! ## Names -/

/-- `\..\`, `\../`, `/../` and `/..\` -/
def parentParts : List (List Byte) :=
  [[0x5c, 0x2e, 0x2e, 0x5c], [0x5c, 0x2e, 0x2e, 0x2f], [0x2f, 0x2e, 0x2e, 0x2f], [0x2f, 0x2e, 0x2e, 0x5c]]

/-- What is behind the first of the parts that occurs. -/
def afterPart (sfn : List Byte) : List (List Byte) → Option (List Byte)
  | [] => none
  | part :: parts =>
    match firstMatch part sfn with
    | some i => some (sfn.drop (i + 4))
    | none => afterPart sfn parts

/-- A turn of the loop over `sfn`; nothing where it breaks. -/
def chop (sfn : List Byte) : Option (List Byte) :=
  if sfn.getD 1 0 = 0x3a then some (sfn.drop 2)
  else if sfn.head? = some 0x5c then some (sfn.drop 1)
  else if sfn.head? = some 0x2f then some (sfn.drop 1)
  else afterPart sfn parentParts

def safeName : ℕ → List Byte → List Byte
  | 0, sfn => sfn
  | fuel + 1, sfn =>
    match chop sfn with
    | some sfn => safeName fuel sfn
    | none => sfn

/-! ## TUnzip -/

structure ZIPENTRY where
  index : ℤ
  name : List Byte
  attr : ℕ
  times : EntryTimes
  comp_size : ℤ
  unc_size : ℤ
deriving DecidableEq

variable {ι : Type}

structure TUnzip (ι : Type) where
  uf : unz_s ι
  -- nothing for -1
  currentfile : Option ℕ
  -- `czei` and `cze`
  cached : Option (ℕ × ZIPENTRY)
  password : List Byte

/-- `OpenZip` for a block of memory; `Open` answers `ZR_NOFILE` where there is no archive. -/
def OpenZip (buf password : List Byte) : Option (Except ZRESULT (TUnzip ι)) := do
  match ← unzOpenInternal ⟨buf, 0⟩ with
  | none => return .error .ZR_NOFILE
  | some uf => return .ok ⟨uf, none, none, password.takeWhile (· ≠ 0)⟩

def TUnzip.close (u : TUnzip ι) : TUnzip ι :=
  match u.currentfile with
  | none => u
  | some _ => { u with uf := (unzCloseCurrentFile u.uf).2, currentfile := none }

/-- The attributes of Windows, from those of the archive. -/
def fileAttributes (version external_fa : ℕ) : ℕ :=
  let host := version / 256
  let windows := host == 0 || host == 7 || host == 11 || host == 14
  let bit (n : ℕ) : Bool := decide (external_fa / n % 2 = 1)
  let isdir := if windows then bit 0x10 else bit 0x40000000
  let readonly := if windows then bit 0x01 else !bit 0x00800000
  let hidden := windows && bit 0x02
  let system := windows && bit 0x04
  let archive := !windows || bit 0x20
  (if isdir then 0x10 else 0) + (if archive then 0x20 else 0) + (if hidden then 0x02 else 0) +
    (if readonly then 0x01 else 0) + (if system then 0x04 else 0)

/-- What `Get` says of the current file. A name without a zero behind it is copied from behind its end. -/
def getEntry (fileTime : SYSTEMTIME → FILETIME) (uf : unz_s ι) : Option (Except ZRESULT ZIPENTRY × unz_s ι) := do
  let (ufi, fn, uf) ← currentName uf MAX_PATH
  if MAX_PATH ≤ fn.length then none
  let (res, _, offset, extralen, file) ← unzlocal_CheckCurrentFileCoherencyHeader uf
  if res ≠ .UNZ_OK then return (.error .ZR_CORRUPT, { uf with file := file })
  let (extra, file) ← (file.lufseek offset).lufread extralen
  let uf := { uf with file := file }
  if extra.length ≠ extralen then return (.error .ZR_READ, uf)
  let times ← entryTimes (fileTime (dosdatetime ufi.dosDate)) extra
  return (.ok ⟨uf.num_file, safeName fn.length fn, fileAttributes ufi.version ufi.external_fa, times,
    long ufi.compressed_size, long ufi.uncompressed_size⟩, uf)

/-- The part of `Get` that goes to the file. -/
def TUnzip.getAt (fileTime : SYSTEMTIME → FILETIME) (turns : ℕ) (u : TUnzip ι) (index : ℕ) :
    Outcome (Except ZRESULT ZIPENTRY × TUnzip ι) :=
  match goToFile turns index u.uf with
  | .fault => .fault
  | .running => .running
  | .done uf =>
    match getEntry fileTime uf with
    | none => .fault
    | some (.error res, uf) => .done (.error res, { u with uf := uf })
    | some (.ok ze, uf) => .done (.ok ze, { u with uf := uf, cached := some (index, ze) })

def TUnzip.Get (fileTime : SYSTEMTIME → FILETIME) (turns : ℕ) (u : TUnzip ι) (index : ℤ) :
    Outcome (Except ZRESULT ZIPENTRY × TUnzip ι) :=
  if index < -1 ∨ (u.uf.number_entry : ℤ) ≤ index then .done (.error .ZR_ARGS, u)
  else
    let u := u.close
    match index with
    | .negSucc _ => .done (.ok ⟨u.uf.number_entry, [], 0, ⟨0, 0, 0⟩, 0, 0⟩, u)
    | .ofNat index =>
      match u.cached.filter (·.1 == index) with
      | some cached => .done (.ok cached.2, u)
      | none => u.getAt fileTime turns index

/-- `Find`, where the index and the entry are asked for: without them where there is no file of that name. -/
def TUnzip.Find (fileTime : SYSTEMTIME → FILETIME) (turns : ℕ) (u : TUnzip ι) (tname : List Byte) (ic : Bool) :
    Outcome (Except ZRESULT (ℕ × ZIPENTRY) × TUnzip ι) :=
  match unzLocateFile turns u.uf tname ic with
  | .fault => .fault
  | .running => .running
  | .done (.UNZ_OK, uf) =>
    let u := { u with uf := uf }.close
    match u.Get fileTime turns u.uf.num_file with
    | .fault => .fault
    | .running => .running
    | .done (.error res, u') => .done (.error res, u')
    | .done (.ok ze, u') => .done (.ok (u.uf.num_file, ze), u')
  | .done (_, uf) => .done (.error .ZR_NOTFOUND, { u with uf := uf })

/-- The file `index` is the one that is read. -/
def TUnzip.openIndex (z : Inflater ι) (turns : ℕ) (u : TUnzip ι) (index : ℕ) : Outcome (Except ZRESULT (TUnzip ι)) :=
  if u.currentfile = some index then .done (.ok u)
  else
    let u := u.close
    if u.uf.number_entry ≤ index then .done (.error .ZR_ARGS)
    else
      match goToFile turns index u.uf with
      | .fault => .fault
      | .running => .running
      | .done uf =>
        match unzOpenCurrentFile z uf u.password with
        | none => .fault
        | some (_, uf) => .done (.ok { u with uf := uf, currentfile := some index })

/-- `Unzip` into a block of memory. -/
def TUnzip.Unzip (z : Inflater ι) (turns : ℕ) (u : TUnzip ι) (index len : ℕ) :
    Outcome ((ZRESULT × List Byte) × TUnzip ι) :=
  match u.openIndex z turns index with
  | .fault => .fault
  | .running => .running
  | .done (.error res) => .done ((res, []), u.close)
  | .done (.ok u) =>
    match unzReadCurrentFile z turns u.uf len with
    | .fault => .fault
    | .running => .running
    | .done ((res, given, reached_eof), uf) =>
      let u := { u with uf := uf }
      let u := match res with
        | .count (_ + 1) => u
        | _ => { u with uf := (unzCloseCurrentFile u.uf).2, currentfile := none }
      let code : ZRESULT :=
        if reached_eof then .ZR_OK
        else match res with
          | .count (_ + 1) => .ZR_MORE
          | .unz .UNZ_PASSWORD => .ZR_PASSWORD
          | _ => .ZR_FLATE
      .done ((code, given), u)

end StarLib.Zip
