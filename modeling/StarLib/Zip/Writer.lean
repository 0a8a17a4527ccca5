import StarLib.Foundations.Ascii
import StarLib.Foundations.Records
import StarLib.Zip.Cipher

/-! # Writing an archive

`TZip` writes into a block of memory: for every file a header, its data and, behind a password, a second record of the
sizes; at the end a directory of all of them. The header is written before the sizes are known, and once more afterwards.

Sizes are those of a block below `2^32 - 2^14` bytes, where no sum of them wraps. What `deflate` makes of the data is
a parameter.
-/

namespace StarLib.Zip
open Foundations
set_option autoImplicit false
set_option maxHeartbeats 250000
set_option maxRecDepth 120000

inductive ZRESULT
  | ZR_OK
  | ZR_NOFILE
  | ZR_WRITE
  | ZR_NOTFOUND
  | ZR_MORE
  | ZR_CORRUPT
  | ZR_READ
  | ZR_PASSWORD
  | ZR_ARGS
  | ZR_MEMSIZE
  | ZR_FAILED
  | ZR_ENDED
  | ZR_NOTINITED
  | ZR_MISSIZE
  | ZR_SEEK
  | ZR_NOCHANGE
  | ZR_FLATE
deriving DecidableEq

/-! ## The memory -/

/-- Where the archive goes: the block of memory, the place in it, and the words of the cipher. -/
structure Output where
  obuf : List Byte
  opos : ℕ
  oerr : ZRESULT
  encwriting : Bool
  keys : Keys

namespace Output

/-- `TZip::write` -/
def write (out : Output) (buf : List Byte) : ℕ × Output :=
  let srcbuf := if out.encwriting then (zencodes out.keys buf).1 else buf
  let out := { out with keys := if out.encwriting then (zencodes out.keys buf).2 else out.keys }
  if out.obuf.length ≤ out.opos + buf.length then (0, { out with oerr := .ZR_MEMSIZE })
  else (buf.length, { out with obuf := overwrite out.obuf out.opos srcbuf, opos := out.opos + buf.length })

/-- `TZip::swrite` -/
def swrite (out : Output) (buf : List Byte) : ℕ × Output := if buf.length = 0 then (0, out) else out.write buf

/-- `TZip::oseek` -/
def oseek (out : Output) (pos : ℕ) : Bool × Output :=
  if out.obuf.length ≤ pos then (false, { out with oerr := .ZR_MEMSIZE }) else (true, { out with opos := pos })

def PUTSH (a : ℕ) (out : Output) : Output :=
  let out := (out.swrite [BitVec.ofNat 8 a]).2
  (out.swrite [BitVec.ofNat 8 (a / 256)]).2

def PUTLG (a : ℕ) (out : Output) : Output := PUTSH (a / 65536) (PUTSH (a % 65536) out)

end Output

/-! ## Headers -/

def LOCSIG : ℕ := 0x04034b50
def CENSIG : ℕ := 0x02014b50
def ENDSIG : ℕ := 0x06054b50
def EXTLOCSIG : ℕ := 0x08074b50

def LOCHEAD : ℕ := 26
def CENHEAD : ℕ := 42
def ENDHEAD : ℕ := 18

def STORE : ℕ := 0
def DEFLATE : ℕ := 8

/-- `zlist`; the comments are always empty. -/
structure TZipFileInfo where
  vem : ℕ
  ver : ℕ
  flg : ℕ
  how : ℕ
  tim : ℕ
  crc : ℕ
  siz : ℕ
  len : ℕ
  dsk : ℕ
  att : ℕ
  lflg : ℕ
  atx : ℕ
  off : ℕ
  extra : List Byte
  cextra : List Byte
  iname : List Byte

namespace Output

/-- The name and what comes behind it, at the end of a header. -/
def puttexts (name extra : List Byte) (out : Output) : Bool × Output :=
  let res := out.swrite name
  if res.1 ≠ name.length then (false, res.2)
  else
    let res := res.2.swrite extra
    (res.1 == extra.length, res.2)

/-- `putlocal`: whether the result is `ZE_OK`. -/
def putlocal (z : TZipFileInfo) (out : Output) : Bool × Output :=
  let out := PUTLG LOCSIG out
  let out := PUTSH z.ver out
  let out := PUTSH z.lflg out
  let out := PUTSH z.how out
  let out := PUTLG z.tim out
  let out := PUTLG z.crc out
  let out := PUTLG z.siz out
  let out := PUTLG z.len out
  let out := PUTSH z.iname.length out
  let out := PUTSH z.extra.length out
  puttexts z.iname z.extra out

def putextended (z : TZipFileInfo) (out : Output) : Output :=
  let out := PUTLG EXTLOCSIG out
  let out := PUTLG z.crc out
  let out := PUTLG z.siz out
  PUTLG z.len out

def putcentral (z : TZipFileInfo) (out : Output) : Bool × Output :=
  let out := PUTLG CENSIG out
  let out := PUTSH z.vem out
  let out := PUTSH z.ver out
  let out := PUTSH z.flg out
  let out := PUTSH z.how out
  let out := PUTLG z.tim out
  let out := PUTLG z.crc out
  let out := PUTLG z.siz out
  let out := PUTLG z.len out
  let out := PUTSH z.iname.length out
  let out := PUTSH z.cextra.length out
  let out := PUTSH 0 out
  let out := PUTSH z.dsk out
  let out := PUTSH z.att out
  let out := PUTLG z.atx out
  let out := PUTLG z.off out
  puttexts z.iname z.cextra out

/-- `putend`, without a comment. -/
def putend (n s c : ℕ) (out : Output) : Output :=
  let out := PUTLG ENDSIG out
  let out := PUTSH 0 out
  let out := PUTSH 0 out
  let out := PUTSH n out
  let out := PUTSH n out
  let out := PUTLG s out
  let out := PUTLG c out
  PUTSH 0 out

end Output

/-! ## The file that is read -/

structure iztimes where
  mtime : DWord
  atime : DWord
  ctime : DWord

/-- What `GetNow` says. -/
structure Now where
  times : iztimes
  timestamp : DWord

/-- What is still to be read: the rest of a block of memory, or what the next calls of `ReadFile` give. -/
inductive Unread
  | mem (rest : List Byte)
  | file (reads : List (List Byte))

structure Input where
  attr : ℕ
  now : Now
  isize : ℤ
  ired : ℕ
  crc : DWord
  csize : ℕ
  unread : Unread

/-- A `long`. -/
def long (n : ℕ) : ℤ := (BitVec.ofNat 32 n).toInt

/-- What is added, as `ZIP_MEMORY`, `ZIP_HANDLE`, `ZIP_FILENAME` or `ZIP_FOLDER`. An empty block of memory stands for a
null pointer too, `none` for a file that cannot be opened. -/
inductive Source
  | memory (src : List Byte)
  | handle (len : ℕ) (reads : List (List Byte))
  | filename (reads : Option (List (List Byte)))
  | folder

namespace Source

def isFolder : Source → Bool
  | folder => true
  | _ => false

/-- `open_mem`, `open_handle`, `open_file` and `open_dir`. Whether a file can seek is asked of `hfout`, which an archive
in memory does not have: no file can, and its size and its times are not read. -/
def openSource (now : Now) : Source → Except ZRESULT Input
  | memory src =>
    if src = [] then .error .ZR_ARGS else .ok ⟨0x80000000, now, long src.length, 0, 0, 0, .mem src⟩
  | handle len reads => .ok ⟨0x80000000, now, if len ≠ 0 then long len else -1, 0, 0, 0, .file reads⟩
  | filename none => .error .ZR_NOFILE
  | filename (some reads) => .ok ⟨0x80000000, now, -1, 0, 0, 0, .file reads⟩
  | folder => .ok ⟨0x41c00010, now, 0, 0, 0, 0, .mem []⟩

end Source

namespace Input

/-- `TZip::read`; a read of nothing is the end. -/
def read (inp : Input) (size : ℕ) : List Byte × Input :=
  let red := match inp.unread with
    | .mem rest => rest.take size
    | .file [] => []
    | .file (red :: _) => red
  let unread := match inp.unread with
    | .mem rest => .mem (rest.drop size)
    | .file reads => .file reads.tail
  (red, { inp with ired := inp.ired + red.length, crc := crc32 inp.crc red, unread := unread })

/-- `TZip::iclose` -/
def iclose (inp : Input) : Input := { inp with isize := long inp.ired }

/-- The reads there can be until the end. -/
def turns (inp : Input) : ℕ :=
  match inp.unread with
  | .mem rest => rest.length + 1
  | .file reads => reads.length + 1

/-- The reads of `ideflate`, up to the end. -/
def readAll : ℕ → Input → List Byte × Input
  | 0, inp => ([], inp)
  | fuel + 1, inp =>
    if (inp.read 16384).1 = [] then ([], (inp.read 16384).2)
    else
      let more := readAll fuel (inp.read 16384).2
      ((inp.read 16384).1 ++ more.1, more.2)

end Input

/-! ## Data -/

/-- The blocks that `deflate` gives to `sflush`. -/
def flushes (out : Output) : List (List Byte) → Output
  | [] => out
  | block :: blocks => flushes (out.swrite block).2 blocks

def ideflate (deflate : List Byte → List (List Byte)) (out : Output) (inp : Input) : ZRESULT × Output × Input :=
  let all := inp.readAll inp.turns
  (.ZR_OK, flushes out (deflate all.1), { all.2 with csize := (deflate all.1).flatten.length })

def istoreLoop : ℕ → ℕ → Output → Input → ZRESULT × Output × Input
  | 0, _, out, inp => (.ZR_OK, out, inp)
  | fuel + 1, size, out, inp =>
    let cin := inp.read 16384
    if cin.1 = [] then (.ZR_OK, out, { cin.2 with csize := size })
    else
      let cout := out.write cin.1
      if cout.1 ≠ cin.1.length then (.ZR_MISSIZE, cout.2, cin.2)
      else istoreLoop fuel (size + cin.1.length) cout.2 cin.2

def istore (out : Output) (inp : Input) : ZRESULT × Output × Input := istoreLoop inp.turns 0 out inp

/-- The data of one file; a folder has none. -/
def addContents (deflate : List Byte → List (List Byte)) (isdir : Bool) (method : ℕ) (out : Output) (inp : Input) :
    ZRESULT × Output × Input :=
  if isdir then (.ZR_OK, out, { inp with csize := 0 })
  else if method = DEFLATE then ideflate deflate out inp
  else istore out inp

/-! ## Names -/

def lustricmp : List Byte → List Byte → ℤ
  | [], [] => 0
  | [], b :: _ => if 0 < (toLower b).toInt then -1 else 1
  | a :: _, [] => if (toLower a).toInt < 0 then -1 else 1
  | a :: sa, b :: sb =>
    if (toLower a).toInt = (toLower b).toInt then lustricmp sa sb
    else if (toLower a).toInt < (toLower b).toInt then -1 else 1

/-- `.Z`, `.zip`, `.zoo`, `.arc`, `.lzh`, `.arj`, `.gz`, `.tgz` -/
def zipSuffixes : List (List Byte) :=
  [[0x2e, 0x5a], [0x2e, 0x7a, 0x69, 0x70], [0x2e, 0x7a, 0x6f, 0x6f], [0x2e, 0x61, 0x72, 0x63], [0x2e, 0x6c, 0x7a, 0x68],
   [0x2e, 0x61, 0x72, 0x6a], [0x2e, 0x67, 0x7a], [0x2e, 0x74, 0x67, 0x7a]]

def HasZipSuffix (fn : List Byte) : Bool :=
  let ext := fn.reverse.takeWhile (· ≠ 0x2e)
  if ext.length = fn.length then false
  else zipSuffixes.any fun suffix => decide (lustricmp (0x2e :: ext.reverse) suffix = 0)

/-- `_tcsncpy` up to `MAX_PATH`, with slashes for the backslashes. -/
def zipName (odstzn : List Byte) : List Byte :=
  ((odstzn.takeWhile (· ≠ 0)).take 259).map fun d => if d = 0x5c then 0x2f else d

/-! ## The archive -/

structure TZip where
  -- empty where there is none
  password : List Byte
  out : Output
  writ : ℕ
  hasputcen : Bool
  zfis : List TZipFileInfo

/-- `TZip::TZip` and `Create` for a block of memory. -/
def CreateZip (z password : List Byte) : Except ZRESULT TZip :=
  if z.length = 0 then .error .ZR_MEMSIZE
  else .ok ⟨password.takeWhile (· ≠ 0), ⟨z, 0, .ZR_OK, false, ⟨0, 0, 0⟩⟩, 0, false, []⟩

/-- The times in the header, behind the name. -/
def extraTimes (times : iztimes) : List Byte :=
  [0x55, 0x54, 13, 0, 7] ++ (leBytes 4 times.mtime.toNat ++ (leBytes 4 times.atime.toNat ++ leBytes 4 times.ctime.toNat))

/-- The times in the directory: the first one. -/
def centralTimes (times : iztimes) : List Byte := ((extraTimes times).take 9).set 2 5

/-- The header of a file that has not been read yet. -/
def newInfo (password : List Byte) (writ : ℕ) (inp : Input) (isdir : Bool) (passex method : ℕ) (dstzn : List Byte) :
    TZipFileInfo :=
  let flg := if password ≠ [] ∧ isdir = false then 9 else 8
  { vem := 0xb17
    ver := 20
    flg := flg
    how := method
    tim := inp.now.timestamp.toNat
    crc := 0
    siz := if method = STORE ∧ 0 ≤ inp.isize then (inp.isize + passex).toNat else 0
    len := (inp.isize % 4294967296).toNat
    dsk := 0
    att := 0
    lflg := flg
    atx := inp.attr
    off := writ
    extra := extraTimes inp.now.times
    cextra := centralTimes inp.now.times
    iname := if isdir && decide (dstzn.getLast? ≠ some 0x2f) then dstzn ++ [0x2f] else dstzn }

/-- The twelve bytes in front of encrypted data, before they are encrypted. -/
def encHeader (rand : ℕ → ℕ) (tim : ℕ) : List Byte :=
  (List.range 11).map (fun i => BitVec.ofNat 8 (rand i / 128)) ++ [BitVec.ofNat 8 (tim / 256)]

namespace TZip

/-- The file joins the list for the directory. -/
def addInfo (zip : TZip) (zfi : TZipFileInfo) : ZRESULT × TZip :=
  if zip.out.oerr ≠ .ZR_OK then (zip.out.oerr, zip) else (.ZR_OK, { zip with zfis := zip.zfis ++ [zfi] })

/-- The end of `Add`: the header once more, or the second record. -/
def addSizes (zip : TZip) (zfi : TZipFileInfo) (inp : Input) (isdir : Bool) (passex method : ℕ) : ZRESULT × TZip :=
  let sizeRight := zfi.siz = inp.csize + passex
  let zfi := { zfi with crc := inp.crc.toNat, siz := inp.csize + passex, len := (inp.isize % 4294967296).toNat }
  if zip.password = [] ∨ isdir then
    let flg := if zfi.flg % 2 = 0 then zfi.flg - (zfi.flg / 8 % 2) * 8 else zfi.flg
    let zfi := { zfi with how := method, flg := flg, lflg := flg }
    let back := zip.out.oseek zfi.off
    if back.1 = false then (.ZR_SEEK, { zip with out := back.2 })
    else
      let header := back.2.putlocal zfi
      if header.1 = false then (.ZR_WRITE, { zip with out := header.2 })
      else
        let forth := header.2.oseek zip.writ
        if forth.1 = false then (.ZR_SEEK, { zip with out := forth.2 }) else addInfo { zip with out := forth.2 } zfi
  else if zfi.how ≠ method then (.ZR_NOCHANGE, zip)
  else if method = STORE ∧ ¬ sizeRight then (.ZR_NOCHANGE, zip)
  else addInfo { zip with out := zip.out.putextended zfi, writ := zip.writ + 16 } { zfi with flg := zfi.lflg }

/-- The middle of `Add`: the data, encrypted behind a password. -/
def addData (deflate : List Byte → List (List Byte)) (zip : TZip) (zfi : TZipFileInfo) (inp : Input) (isdir : Bool)
    (passex method : ℕ) (rand : ℕ → ℕ) : ZRESULT × TZip :=
  let encbuf := zencodes (passwordKeys zip.password) (encHeader rand zfi.tim)
  let out := { zip.out with keys := encbuf.2 }
  let out := if zip.password ≠ [] ∧ isdir = false then (out.swrite encbuf.1).2 else out
  let out := { out with encwriting := decide (zip.password ≠ [] ∧ isdir = false) }
  let data := addContents deflate isdir method out inp
  let inp := data.2.2.iclose
  let zip : TZip := { zip with out := { data.2.1 with encwriting := false }, writ := zip.writ + passex + inp.csize }
  if zip.out.oerr ≠ .ZR_OK then (zip.out.oerr, zip)
  else if data.1 ≠ .ZR_OK then (.ZR_WRITE, zip)
  else addSizes zip zfi inp isdir passex method

def Add (deflate : List Byte → List (List Byte)) (zip : TZip) (odstzn : List Byte) (src : Source) (now : Now)
    (rand : ℕ → ℕ) : ZRESULT × TZip :=
  if zip.out.oerr ≠ .ZR_OK then (.ZR_FAILED, zip)
  else if zip.hasputcen then (.ZR_ENDED, zip)
  else
    let isdir := src.isFolder
    let passex := if zip.password ≠ [] ∧ isdir = false then 12 else 0
    let dstzn := zipName odstzn
    if dstzn = [] then (.ZR_ARGS, zip)
    else
      let method := if isdir || HasZipSuffix dstzn then STORE else DEFLATE
      match src.openSource now with
      | .error openres => (openres, zip)
      | .ok inp =>
        let zfi := newInfo zip.password zip.writ inp isdir passex method dstzn
        let header := zip.out.putlocal zfi
        if header.1 = false then (.ZR_WRITE, { zip with out := header.2 })
        else
          let zip := { zip with out := header.2, writ := zip.writ + 4 + LOCHEAD + zfi.iname.length + zfi.extra.length }
          if zip.out.oerr ≠ .ZR_OK then (zip.out.oerr, zip)
          else addData deflate zip zfi inp isdir passex method rand

/-- The directory; no more of it is written once an entry has failed. -/
def putcentrals : List TZipFileInfo → Bool × Output × ℕ → Bool × Output × ℕ
  | [], s => s
  | zfi :: zfis, (okay, out, writ) =>
    let res := if okay then out.putcentral zfi else (false, out)
    putcentrals zfis (res.1, res.2, writ + 4 + CENHEAD + zfi.iname.length + zfi.cextra.length)

def AddCentral (zip : TZip) : ZRESULT × TZip :=
  let s := putcentrals zip.zfis (true, zip.out, zip.writ)
  if s.1 then
    (.ZR_OK, { zip with
      out := s.2.1.putend zip.zfis.length (s.2.2 - zip.writ) zip.writ
      writ := s.2.2 + 4 + ENDHEAD })
  else (.ZR_WRITE, { zip with out := s.2.1, writ := s.2.2 })

/-- `GetMemory`: the block and how much of it is said to be used. -/
def GetMemory (zip : TZip) : (List Byte × ℕ) × TZip :=
  let zip := if zip.hasputcen then zip else { zip.AddCentral.2 with hasputcen := true }
  ((zip.out.obuf, zip.writ), zip)

end TZip

end StarLib.Zip
