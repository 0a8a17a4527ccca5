import StarLib.Foundations.Loop

/-! # Folders

`CopyFolder`, `DeleteFolderContents` and `MoveFolder` of `filemisc.cpp`. A folder is the list of what a search
for all of its files finds, in that order; outside of root folders the list starts with `.` and `..`. Every
call of the system may fail, and the event of `hTerminate` may be set at every look.
-/

namespace StarLib.FileMisc
open Foundations
set_option autoImplicit false
set_option maxHeartbeats 250000
set_option maxRecDepth 120000

abbrev TCHAR := ℕ

abbrev CString := List TCHAR

/-- The names from a folder down to a file or folder in it. -/
abbrev Path := List CString

variable {γ : Type}

inductive Listing (γ : Type)
  | nil
  | file (name : CString) (content : γ) (rest : Listing γ)
  | folder (name : CString) (items rest : Listing γ)

/-- A file with this content is there. -/
def Listing.Holds : Listing γ → Path → γ → Prop
  | .nil, _, _ => False
  | .file name content rest, q, c => (q = [name] ∧ c = content) ∨ rest.Holds q c
  | .folder name items rest, q, c => (∃ q', q = name :: q' ∧ items.Holds q' c) ∨ rest.Holds q c

inductive Op
  | createFolder (p : Path)
  | copyFile (p : Path)
  | deleteFile (p : Path)
  | removeDirectory (p : Path)
  deriving DecidableEq

/-- What the calls of a run answer, by the number of calls before them. -/
structure Env where
  succeeds : ℕ → Op → Bool
  signalled : ℕ → Bool

/-- What is gone from the source, and the files of the destination. -/
structure Disk (γ : Type) where
  deletedFiles : Path → Bool
  removedFolders : Path → Bool
  dest : Path → Option γ
  calls : ℕ
  waits : ℕ

/-- The variables of the two functions. -/
structure Search (γ : Type) where
  bResult : Bool
  bStopped : Bool
  disk : Disk γ

/-! ## Calls of the system -/

/-- `bStopped = (WaitForSingleObject(hTerminate, 0) == WAIT_OBJECT_0)`; `false` is the handle `NULL`. -/
def wait (e : Env) (hTerminate : Bool) (s : Search γ) : Search γ :=
  { s with bStopped := hTerminate && e.signalled s.disk.waits, disk := { s.disk with waits := s.disk.waits + 1 } }

/-- `bResult` of a call that does `f` when it succeeds. -/
def call (e : Env) (op : Op) (f : Disk γ → Disk γ) (s : Search γ) : Search γ :=
  let d := { s.disk with calls := s.disk.calls + 1 }
  if e.succeeds s.disk.calls op then { s with bResult := true, disk := f d } else { s with bResult := false, disk := d }

def Disk.delete (p : Path) (d : Disk γ) : Disk γ := { d with deletedFiles := Function.update d.deletedFiles p true }

def Disk.remove (p : Path) (d : Disk γ) : Disk γ := { d with removedFolders := Function.update d.removedFolders p true }

def Disk.copy (p : Path) (c : γ) (d : Disk γ) : Disk γ := { d with dest := Function.update d.dest p (some c) }

def dots : List CString := [[0x2e], [0x2e, 0x2e]]

/-- Nothing but `.` and `..` is left in a folder. -/
def Listing.emptied (d : Disk γ) (path : Path) : Listing γ → Bool
  | .nil => true
  | .file name _ rest => (d.deletedFiles (path ++ [name])) && rest.emptied d path
  | .folder name _ rest => (dots.contains name || d.removedFolders (path ++ [name])) && rest.emptied d path

/-- `RemoveDirectory`, which fails for a folder that is not empty. -/
def removeDirectory (e : Env) (p : Path) (items : Listing γ) (s : Search γ) : Search γ :=
  if items.emptied s.disk p then call e (.removeDirectory p) (Disk.remove p) s
  else { s with bResult := false, disk := { s.disk with calls := s.disk.calls + 1 } }

/-! ## What the two functions share -/

def anyFile : CString := [0x2a, 0x2e, 0x2a]

/-- `finfo.cFileName[0] != '.'`. -/
def plain (name : CString) : Bool := name.headD 0 != 0x2e

def nPasses (bIncludeSubFolders : Bool) (szFileMask : CString) : ℕ := if bIncludeSubFolders && !szFileMask.isEmpty then 2 else 1

/-- `sMask` of a pass; no mask is the empty one. -/
def passMask (szFileMask : CString) (nPass : ℕ) : CString := if szFileMask.isEmpty || nPass == 1 then anyFile else szFileMask

/-- `for (int nPass = 0; !bStopped && nPass < nPasses; nPass++)`, behind the first look at `hTerminate`. -/
def passes (e : Env) (hTerminate : Bool) (n : ℕ) (loop : ℕ → Search γ → Search γ) (d : Disk γ) : Search γ :=
  forRange 0 n (fun nPass s => if s.bStopped then s else loop nPass s) (wait e hTerminate ⟨true, false, d⟩)

/-- What the functions return. -/
def Search.returned (s : Search γ) : Bool := !s.bStopped && s.bResult

/-- An entry in the loop `do … while (!bStopped && bResult && FindNextFile(…))`: one that the search does not find
makes no turn. -/
def entry (e : Env) (hTerminate found : Bool) (turn next : Search γ → Search γ) (s : Search γ) : Search γ :=
  if found then
    let s := wait e hTerminate (turn s)
    if s.returned then next s else s
  else next s

section Functions
variable (wild : CString → CString → Bool) (e : Env) (hTerminate : Bool)

/-! ## `DeleteFolderContents` -/

def deleteFileTurn (p : Path) (name : CString) (s : Search γ) : Search γ :=
  if plain name then call e (.deleteFile p) (Disk.delete p) s else s

/-- `contents` is the call of the function for the sub-folder, where `bIncludeSubFolders` is `TRUE` as it is here. -/
def deleteFolderTurn (bIncludeSubFolders : Bool) (szFileMask : CString) (p : Path) (name : CString) (items : Listing γ)
    (contents : Disk γ → Search γ) (nPass : ℕ) (s : Search γ) : Search γ :=
  if plain name && (bIncludeSubFolders && (nPass == 1 || nPasses bIncludeSubFolders szFileMask == 1)) then
    let r := contents s.disk
    if r.returned && szFileMask.isEmpty then removeDirectory e p items { s with disk := r.disk }
    else { s with disk := r.disk }
  else s

/-- The loop over what a search finds; `wild` is the matching of names by the system. -/
def deleteLoop (bIncludeSubFolders : Bool) (szFileMask : CString) : Listing γ → Path → ℕ → Search γ → Search γ
  | .nil, _, _, s => s
  | .file name _ rest, path, nPass, s =>
    entry e hTerminate (wild (passMask szFileMask nPass) name && !s.disk.deletedFiles (path ++ [name]))
      (deleteFileTurn e (path ++ [name]) name)
      (deleteLoop bIncludeSubFolders szFileMask rest path nPass) s
  | .folder name items rest, path, nPass, s =>
    entry e hTerminate (wild (passMask szFileMask nPass) name && !s.disk.removedFolders (path ++ [name]))
      (deleteFolderTurn e bIncludeSubFolders szFileMask (path ++ [name]) name items
        (passes e hTerminate (nPasses bIncludeSubFolders szFileMask)
          (deleteLoop bIncludeSubFolders szFileMask items (path ++ [name]))) nPass)
      (deleteLoop bIncludeSubFolders szFileMask rest path nPass) s

/-- `DeleteFolderContents` for a folder that exists. -/
def deleteFolderContents (bIncludeSubFolders : Bool) (szFileMask : CString) (l : Listing γ) (d : Disk γ) : Bool × Disk γ :=
  let s := passes e hTerminate (nPasses bIncludeSubFolders szFileMask)
    (deleteLoop wild e hTerminate bIncludeSubFolders szFileMask l []) d
  (s.returned, s.disk)

/-! ## `CopyFolder` and `MoveFolder` -/

/-- `CopyFolder` with its passes, from a folder that exists. -/
def createThen (p : Path) (passes : Disk γ → Search γ) (d : Disk γ) : Search γ :=
  let s := call e (.createFolder p) id ⟨true, false, d⟩
  if s.bResult then passes s.disk else s

def copyFileTurn (p : Path) (name : CString) (content : γ) (nPass : ℕ) (s : Search γ) : Search γ :=
  if plain name && nPass == 0 then call e (.copyFile p) (Disk.copy p content) s else s

def copyFolderTurn (bIncludeSubFolders : Bool) (szFileMask : CString) (name : CString) (contents : Disk γ → Search γ)
    (nPass : ℕ) (s : Search γ) : Search γ :=
  if plain name && ((nPass == 1 || nPasses bIncludeSubFolders szFileMask == 1) && bIncludeSubFolders) then
    let r := contents s.disk
    { s with bResult := r.returned, disk := r.disk }
  else s

/-- The call for a sub-folder goes to the function without a mask, which includes its sub-folders. -/
def copyLoop : Listing γ → Bool → CString → Path → ℕ → Search γ → Search γ
  | .nil, _, _, _, _, s => s
  | .file name content rest, bIncludeSubFolders, szFileMask, path, nPass, s =>
    entry e hTerminate (wild (passMask szFileMask nPass) name) (copyFileTurn e (path ++ [name]) name content nPass)
      (copyLoop rest bIncludeSubFolders szFileMask path nPass) s
  | .folder name items rest, bIncludeSubFolders, szFileMask, path, nPass, s =>
    entry e hTerminate (wild (passMask szFileMask nPass) name)
      (copyFolderTurn bIncludeSubFolders szFileMask name
        (createThen e (path ++ [name]) (passes e hTerminate (nPasses true []) (copyLoop items true [] (path ++ [name])))) nPass)
      (copyLoop rest bIncludeSubFolders szFileMask path nPass) s

def copyFolder (bIncludeSubFolders : Bool) (szFileMask : CString) (l : Listing γ) (d : Disk γ) : Bool × Disk γ :=
  let s := createThen e [] (passes e hTerminate (nPasses bIncludeSubFolders szFileMask)
    (copyLoop wild e hTerminate l bIncludeSubFolders szFileMask [])) d
  (s.returned, s.disk)

def moveFolder (bIncludeSubFolders : Bool) (szFileMask : CString) (l : Listing γ) (d : Disk γ) : Bool × Disk γ :=
  let r := copyFolder wild e hTerminate bIncludeSubFolders szFileMask l d
  if r.1 then (true, (deleteFolderContents wild e false bIncludeSubFolders szFileMask l r.2).2) else (false, r.2)

end Functions

/-- Names without wildcards, and the mask for all files. -/
def literal (spec name : CString) : Bool := spec == anyFile || spec == name

end StarLib.FileMisc
