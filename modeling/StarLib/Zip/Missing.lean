import StarLib.Zip.Archive

/-! # A search without success

A search that does not find its name goes back to the place it came from, but keeps what it knows of the last file. The
file that is read next is that one, whatever its index says.
-/

namespace StarLib.Zip
open Foundations
set_option autoImplicit false
set_option maxHeartbeats 250000
set_option maxRecDepth 120000

variable {ι : Type} {z : Inflater ι} {R : ι → List Byte → List Byte → Prop} {fileTime : SYSTEMTIME → FILETIME}
  {entries : List Entry} {files : List Listed} {turns : ℕ} {name : List Byte} {ic : Bool}

/-- The search ends at the last file. -/
theorem locateFrom_missing {i : ℕ} {s : unz_s ι} (hr : Readable entries) (hat : At entries i s)
    (hsome : ∀ e ∈ entries, ∀ c ∈ e.info.iname, c ≠ 0)
    (hmissing : ∀ e ∈ entries, ¬ unzStringFileNameCompare ic (e.info.iname.take 256) name = true)
    (hturns : entries.length - i ≤ turns) :
    ∃ s', locateFrom name ic turns s = .done (.UNZ_END_OF_LIST_OF_FILE, s') ∧ At entries (entries.length - 1) s' := by
  induction turns generalizing i s with
  | zero =>
    obtain ⟨e, he, -⟩ := hat.current
    have hi : i < entries.length := (List.getElem?_eq_some_iff.1 he).1
    exact absurd hturns (by omega)
  | succ turns ih =>
    obtain ⟨e, he, -⟩ := hat.current
    have hi : i < entries.length := (List.getElem?_eq_some_iff.1 he).1
    have hmem := List.mem_of_getElem? he
    have hwhole : (e.info.iname.take 256).takeWhile (· ≠ 0) = e.info.iname.take 256 := by
      rw [List.takeWhile_eq_self_iff]
      exact fun c hc => decide_eq_true (hsome e hmem c (List.mem_of_mem_take hc))
    obtain ⟨file, hname, hfile⟩ := currentName_at hr hat he (by decide : 0 < 256)
    rw [hwhole] at hname
    have hat' := hat.file (hfile.trans hat.buf)
    unfold locateFrom
    simp only [hname]
    rw [if_neg (hmissing e hmem)]
    by_cases hlast : i + 1 = entries.length
    · obtain rfl : i = entries.length - 1 := by omega
      refine ⟨_, ?_, hat'⟩
      unfold unzGoToNextFile
      rw [if_neg (by rw [hat'.current_file_ok]; exact Bool.noConfusion),
        if_pos (by rw [hat'.num_file, hat'.number_entry]; exact hlast)]
    · obtain ⟨s', hnext, hat''⟩ := GoToNext_at hr hat' (by omega)
      rw [hnext]
      exact ih hat'' (by omega)

theorem Find_missing {u : TUnzip ι} {i : ℕ} (hr : Readable entries) (hl : Lists fileTime entries files)
    (hat : At entries i u.uf) (hshort : name.length < 256) (hmissing : ∀ f ∈ files, f.named ic name = false)
    (hturns : entries.length ≤ turns) :
    ∃ s', u.Find fileTime turns name ic = .done (.error .ZR_NOTFOUND, { u with uf := s' }) ∧ Opened entries s' ∧
      s'.num_file = i ∧ s'.current_file_ok = true ∧
      ∃ e, entries[entries.length - 1]? = some e ∧ s'.cur_file_info = infoOf e.info := by
  obtain ⟨s, hfirst, hat'⟩ := GoToFirst_at hr hat.toOpened
  obtain ⟨s', hlocate, hat''⟩ := locateFrom_missing hr hat' (fun e he => (hl.some_ e he).1) (fun e hmem hnamed => by
    obtain ⟨j, he⟩ := List.getElem?_of_mem hmem
    obtain ⟨e', f, he', hf⟩ := hl.pair (List.getElem?_eq_some_iff.1 he).1
    obtain rfl := Option.some.inj (he'.symm.trans he)
    have hfalse := hmissing f (List.mem_of_getElem? hf)
    unfold Listed.named at hfalse
    rw [hl.iname he hf, hnamed] at hfalse
    exact Bool.noConfusion hfalse) (by omega : entries.length - 0 ≤ turns)
  refine ⟨{ s' with num_file := u.uf.num_file, pos_in_central_dir := u.uf.pos_in_central_dir }, ?_,
    ⟨hat''.buf, hat''.number_entry, hat''.byte_before_the_zipfile, hat''.offset_central_dir⟩, hat.num_file,
    hat''.current_file_ok, hat''.current⟩
  have hlost : unzLocateFile turns u.uf name ic = .done (.UNZ_END_OF_LIST_OF_FILE,
      { s' with num_file := u.uf.num_file, pos_in_central_dir := u.uf.pos_in_central_dir }) := by
    unfold unzLocateFile
    rw [if_neg (Nat.not_le.2 hshort), if_neg (by rw [hat.current_file_ok]; exact Bool.noConfusion)]
    simp only [hfirst, hlocate]
  unfold TUnzip.Find
  rw [hlost]

/-- A file that is stored as it is. -/
def plainEntry (name text : List Byte) (off : ℕ) : Entry :=
  let info : TZipFileInfo :=
    ⟨0xb17, 20, 0, STORE, 0, (crc32 0 text).toNat, text.length, text.length, 0, 0, 0, 0, off, [], [], name⟩
  ⟨info, text, info⟩

def plainListed (name : List Byte) (text : List Byte) (off index : ℕ) : Listed :=
  ⟨name, entryOf (plainEntry name text off) index ⟨0, 0, 0⟩, text⟩

/-- `a` with the text `x`, and `b` with the text `y`. -/
def twoEntries : List Entry := [plainEntry [0x61] [0x78] 0, plainEntry [0x62] [0x79] 32]

def twoFiles : List Listed := [plainListed [0x61] [0x78] 0 0, plainListed [0x62] [0x79] 32 1]

theorem twoEntries_readable : Readable twoEntries where
  some_ := List.cons_ne_nil _ _
  count := by decide
  size := by decide +kernel
  ending := EndsOnce.of_small (by decide) (by decide +kernel) (by decide +kernel)
  offsets := ⟨rfl, rfl, trivial⟩
  fits := by
    intro e he
    simp only [twoEntries, List.mem_cons, List.not_mem_nil, or_false] at he
    obtain rfl | rfl := he
    all_goals constructor
    all_goals decide +kernel
  coherent := by
    intro e he
    simp only [twoEntries, List.mem_cons, List.not_mem_nil, or_false] at he
    obtain rfl | rfl := he
    all_goals exact ⟨rfl, Or.inl rfl, rfl, by decide, by decide, fun _ => ⟨rfl, rfl, rfl⟩⟩

theorem twoEntries_at {i : ℕ} {e : Entry} {f : Listed} (he : twoEntries[i]? = some e) (hf : twoFiles[i]? = some f) :
    ∃ name text off, e = plainEntry name text off ∧ f = plainListed name text off i := by
  match i with
  | 0 => exact ⟨_, _, _, (Option.some.inj he).symm, (Option.some.inj hf).symm⟩
  | 1 => exact ⟨_, _, _, (Option.some.inj he).symm, (Option.some.inj hf).symm⟩
  | i + 2 => exact absurd he (Option.some_ne_none e).symm

theorem twoEntries_lists : Lists (fun _ => 0) twoEntries twoFiles where
  length := rfl
  iname := by
    intro i e f he hf
    obtain ⟨name, text, off, rfl, rfl⟩ := twoEntries_at he hf
    rfl
  some_ := by decide
  entry := by
    intro i e f he hf
    obtain ⟨name, text, off, rfl, rfl⟩ := twoEntries_at he hf
    exact ⟨_, rfl, rfl⟩

end StarLib.Zip
