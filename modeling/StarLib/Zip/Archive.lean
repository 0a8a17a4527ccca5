import StarLib.Zip.Session

/-! # From the writer to the reader

An archive that was written without an error is opened, and any session with it answers with what was added: the names,
the times and the sizes, and the contents in pieces.
-/

namespace StarLib.Zip
open Foundations
set_option autoImplicit false
set_option maxHeartbeats 250000
set_option maxRecDepth 120000

variable {deflate : List Byte → List (List Byte)} {block password : List Byte} {requests : List Request}
  {entries : List Entry} {zip : TZip}

/-! ## The listing -/

def Request.times (q : Request) : EntryTimes :=
  ⟨timet2filetime q.now.times.mtime.toNat, timet2filetime q.now.times.atime.toNat,
    timet2filetime q.now.times.ctime.toNat⟩

/-- What is known of a file that was added. -/
def Request.listed (deflate : List Byte → List (List Byte)) (password : List Byte) (q : Request) (index : ℕ) : Listed :=
  let siz := (stored deflate q.src.isFolder q.method q.src.content).length +
    if password ≠ [] ∧ q.src.isFolder = false then 12 else 0
  ⟨q.iname,
    ⟨index, safeName q.iname.length q.iname, if q.src.isFolder then 0x10 else 0, q.times, long siz,
      long q.src.content.length⟩,
    q.src.content⟩

def listing (deflate : List Byte → List (List Byte)) (password : List Byte) (requests : List Request) : List Listed :=
  (accepted requests).mapIdx fun index q => q.listed deflate password index

theorem entry_listed {q : Request} {inp : Input} {writ : ℕ} (index : ℕ) (h : q.opened = some inp) :
    entryOf (q.entry deflate password writ inp) index q.times = (q.listed deflate password index).entry := by
  obtain ⟨hiname, hatx, -⟩ := entry_info deflate password writ h
  have hattr : fileAttributes 0xb17 q.attr = if q.src.isFolder then 0x10 else 0 := by
    unfold Request.attr
    cases q.src.isFolder <;> rfl
  have hsiz : (q.entry deflate password writ inp).info.siz =
      (stored deflate q.src.isFolder q.method q.src.content).length +
        if decide (password ≠ [] ∧ q.src.isFolder = false) then 12 else 0 := rfl
  have hlen : long (q.entry deflate password writ inp).info.len = long q.src.content.length := by
    show long (q.src.content.length % 4294967296) = _
    unfold long
    congr 1
    apply BitVec.eq_of_toNat_eq
    rw [BitVec.toNat_ofNat, BitVec.toNat_ofNat]
    exact Nat.mod_mod ..
  unfold entryOf Request.listed
  rw [hiname, hatx, hsiz, hlen, ← hattr]
  simp only [decide_eq_true_eq]
  rfl

theorem Made.lists (fileTime : SYSTEMTIME → FILETIME) (h : Made deflate password requests entries)
    (hnames : ∀ q ∈ accepted requests, q.iname.length < MAX_PATH) :
    Lists fileTime entries (listing deflate password requests) := by
  have hat : ∀ {i : ℕ} {q : Request} {f : Listed}, (accepted requests)[i]? = some q →
      (listing deflate password requests)[i]? = some f → f = q.listed deflate password i := by
    intro i q f hq hf
    unfold listing at hf
    rw [List.getElem?_mapIdx, hq] at hf
    exact (Option.some.inj hf).symm
  refine ⟨by rw [listing, List.length_mapIdx, h.length], ?_, ?_, ?_⟩
  · intro i e f he hf
    obtain ⟨q, inp, writ, hq, hopened, rfl⟩ := h.at he
    rw [hat hq hf, (entry_info deflate password writ hopened).1]
    rfl
  · intro e hmem
    obtain ⟨i, he⟩ := List.getElem?_of_mem hmem
    obtain ⟨q, inp, writ, hq, hopened, rfl⟩ := h.at he
    rw [(entry_info deflate password writ hopened).1]
    exact ⟨(iname_some q).1, hnames q (List.mem_of_getElem? hq)⟩
  · intro i e f he hf
    obtain ⟨q, inp, writ, hq, hopened, rfl⟩ := h.at he
    obtain ⟨-, -, -, hextra⟩ := entry_info deflate password writ hopened
    refine ⟨q.times, ?_, ?_⟩
    · rw [hextra]
      exact entryTimes_extraTimes _ _
    · rw [hat hq hf]
      exact (entry_listed i hopened).symm

/-! ## The memory -/

theorem CreateZip_laid (h : CreateZip block password = .ok zip) :
    Laid zip [] ∧ zip.out.obuf.length = block.length := by
  unfold CreateZip at h
  split at h
  · exact absurd h (by simp)
  · next hlength =>
    rw [← Except.ok.inj h]
    exact ⟨⟨Nat.pos_of_ne_zero hlength, rfl, rfl, rfl, rfl, ⟨block, rfl⟩, rfl, trivial, rfl⟩, rfl⟩

theorem putcentrals_writ (infos : List TZipFileInfo) (s : Bool × Output × ℕ) :
    (TZip.putcentrals infos s).2.2 = s.2.2 + (infos.flatMap centralBytes).length := by
  induction infos generalizing s with
  | nil => rfl
  | cons info infos ih =>
    obtain ⟨okay, out, writ⟩ := s
    rw [TZip.putcentrals, ih, List.flatMap_cons, List.length_append, centralBytes_length]
    dsimp only
    omega

/-- What the writer counts stays below the size of the memory only if everything is in it. -/
theorem GetMemory_room (h : Laid zip entries) (hroom : zip.GetMemory.1.2 < zip.out.obuf.length) :
    (archive entries).length < zip.out.obuf.length := by
  by_contra hfull
  have hlength : (archive entries).length = zip.out.opos + (directory entries).length + (4 + ENDHEAD) := by
    rw [archive, List.length_append, List.length_append, endBytes_length, h.opos, h.writ, Nat.add_assoc]
  have hdirectory : (zip.zfis.flatMap centralBytes).length = (directory entries).length := by
    rw [h.zfis, List.flatMap_map]
    rfl
  have hwrit := putcentrals_writ zip.zfis (true, zip.out, zip.writ)
  have hopos := h.opos
  unfold TZip.GetMemory TZip.AddCentral at hroom
  simp only [h.open_, Bool.false_eq_true, if_false] at hroom
  cases hokay : (TZip.putcentrals zip.zfis (true, zip.out, zip.writ)).1 with
  | true =>
    simp only [hokay, if_true, hwrit, hdirectory] at hroom
    omega
  | false =>
    simp only [hokay, Bool.false_eq_true, if_false, hwrit, hdirectory] at hroom
    have hcentral := putcentrals_put zip.writ h.inside h.ok (by omega : zip.out.opos + (directory entries).length < _)
    rw [← h.zfis] at hcentral
    rw [hcentral] at hokay
    exact Bool.noConfusion hokay

/-! ## The whole way -/

/-- The calls of `Add` that follow `CreateZip`. -/
def written (deflate : List Byte → List (List Byte)) (zip : TZip) (requests : List Request) : TZip :=
  (addAll deflate zip requests).2

/-- An archive that was written without an error, has room in its block, and does not outgrow the fields of the format. -/
structure Written (deflate : List Byte → List (List Byte)) (block password : List Byte) (requests : List Request)
    (zip : TZip) : Prop where
  create : CreateZip block password = .ok zip
  added : ∀ p ∈ requests.zip (addAll deflate zip requests).1, p.1.opened = none ∨ p.2 = .ZR_OK
  some_ : accepted requests ≠ []
  count : (accepted requests).length < 65536
  names : ∀ q ∈ accepted requests, q.iname.length < MAX_PATH
  contents : ∀ q ∈ accepted requests, q.src.content.length < 4294967296
  room : (written deflate zip requests).GetMemory.1.2 < block.length
  size : (written deflate zip requests).GetMemory.1.2 < 4294967296
  ending : EndsOnce (accepted requests).length
    ((written deflate zip requests).GetMemory.1.2 - 22 - (written deflate zip requests).writ)
    (written deflate zip requests).writ

/-- The archive in the memory of the writer. -/
def memory (deflate : List Byte → List (List Byte)) (zip : TZip) (requests : List Request) : List Byte :=
  (written deflate zip requests).GetMemory.1.1.take (written deflate zip requests).GetMemory.1.2

theorem Written.readable (h : Written deflate block password requests zip) :
    ∃ entries, Made deflate zip.password requests entries ∧ Readable entries ∧
      memory deflate zip requests = archive entries ∧
      (written deflate zip requests).GetMemory.1.2 = (archive entries).length := by
  obtain ⟨hcreated, hblock⟩ := CreateZip_laid h.create
  obtain ⟨entries, hmade, hlaid, hlength⟩ := addAll_laid hcreated h.added
  rw [List.nil_append] at hlaid
  have hmemory := GetMemory_archive hlaid (GetMemory_room hlaid (by rw [hlength, hblock]; exact h.room))
  obtain ⟨⟨rest, hobuf⟩, hused⟩ := hmemory
  have hwrit : (written deflate zip requests).writ = (records entries).length := hlaid.writ
  have hused' : (written deflate zip requests).GetMemory.1.2 = (archive entries).length := hused
  have hdirectory : (archive entries).length - 22 - (records entries).length = (directory entries).length := by
    rw [archive, List.length_append, List.length_append, endBytes_length, ENDHEAD]
    omega
  have hending := h.ending
  rw [hused', hwrit, hdirectory, ← hmade.length] at hending
  refine ⟨entries, hmade, hmade.readable h.some_ h.count (hused' ▸ h.size) hending hlaid.offsets, ?_, hused'⟩
  unfold memory
  rw [hused']
  show List.take _ (addAll deflate zip requests).2.GetMemory.1.1 = _
  rw [hobuf, List.take_left]

theorem directory_count (entries : List Entry) : entries.length ≤ (directory entries).length := by
  induction entries with
  | nil => exact Nat.le_refl 0
  | cons e entries ih =>
    have hcons : directory (e :: entries) = centralBytes e.info ++ directory entries := List.flatMap_cons
    rw [hcons, List.length_append, centralBytes_length, List.length_cons]
    omega

theorem archive_count (entries : List Entry) : entries.length ≤ (archive entries).length := by
  have hdirectory := directory_count entries
  rw [archive, List.length_append, List.length_append]
  omega

section Reading

variable {ι : Type} {z : Inflater ι} {R : ι → List Byte → List Byte → Prop} {fileTime : SYSTEMTIME → FILETIME}

/-- What a caller may ask: contents that are not behind a password, and names that are in the archive. -/
def Asked (files : List Listed) (password : List Byte) (requests : List Request) : Call → Prop
  | .Get _ => True
  | .Find name ic => name.length < 256 ∧ ∃ f ∈ files, f.named ic name = true
  | .Unzip index _ => ∀ q, (accepted requests)[index]? = some q → password = [] ∨ q.src.isFolder = true

theorem Made.allowed {c : Call} (word : List Byte) (h : Made deflate password requests entries)
    (hdeflate : ∀ content, R z.init (deflate content).flatten content)
    (hcontents : ∀ q ∈ accepted requests, q.src.content.length < 4294967296)
    (hc : Asked (listing deflate password requests) password requests c) :
    Allowed z R entries (listing deflate password requests) word c := by
  cases c with
  | Get index => trivial
  | Find name ic => exact hc
  | Unzip index len =>
    intro e f he hf
    obtain ⟨q, inp, writ, hq, hopened, rfl⟩ := h.at he
    unfold listing at hf
    rw [List.getElem?_mapIdx, hq] at hf
    rw [← Option.some.inj hf]
    refine Or.inl (entry_plain (fun henc => ?_) (hcontents q (List.mem_of_getElem? hq)) q.src.content_folder
      fun _ => hdeflate q.src.content)
    obtain hnone | hfolder := hc q hq
    · exact henc.1 hnone
    · rw [henc.2] at hfolder
      exact Bool.false_ne_true hfolder

/-- A session with what was written, for a reader who holds these files. -/
theorem Written.serves {files : List Listed} {calls : List Call} {turns : ℕ} {password' : List Byte}
    (h : Written deflate block password requests zip) (hz : Inflating z R)
    (hl : ∀ {entries}, Made deflate zip.password requests entries → Lists fileTime entries files)
    (hok : ∀ {entries}, Made deflate zip.password requests entries →
      ∀ c ∈ calls, Allowed z R entries files (password'.takeWhile (· ≠ 0)) c)
    (hturns : (written deflate zip requests).GetMemory.1.2 + 2 ≤ turns) :
    ∃ u, OpenZip (memory deflate zip requests) password' = some (.ok u) ∧
      session (TUnzip.call z fileTime turns) u calls = .done (modelled (reader files) none calls) := by
  obtain ⟨entries, hmade, hreadable, hmemory, hused⟩ := h.readable
  obtain ⟨u, hopen, -, -, hserves⟩ := OpenZip_serves (R := R) hreadable files password'
  have hcount := archive_count entries
  rw [hused] at hturns
  refine ⟨u, hmemory ▸ hopen, ?_⟩
  exact session_serves hz hreadable (hl hmade) hserves (hok hmade) (by omega) hturns

end Reading

/-! ## A small archive -/

/-- `deflate` with one block that is stored, and `inflate` for it: the five bytes of its header are skipped. -/
def storedBlock (content : List Byte) : List (List Byte) :=
  [1 :: leBytes 2 content.length ++ leBytes 2 (65535 - content.length) ++ content]

def storedInflater : Inflater ℕ where
  init := 5
  inflate := fun skip inp avail_out =>
    (.Z_OK, (inp.drop skip).take avail_out, (inp.drop skip).drop avail_out, skip - inp.length)

theorem storedInflater_inflating :
    Inflating storedInflater fun skip data text => skip ≤ data.length ∧ data.drop skip = text where
  step := by
    intro skip inp later text avail_out h hroom hsome hwait
    obtain ⟨hskip, htext⟩ := h
    rw [List.drop_append] at htext
    rw [List.length_append] at hskip
    have hleft : ((inp.drop skip).drop avail_out).length = inp.length - skip - avail_out := by
      rw [List.length_drop, List.length_drop]
    refine ⟨.Z_OK, (inp.drop skip).take avail_out, (inp.drop skip).drop avail_out, skip - inp.length,
      (inp.drop skip).drop avail_out ++ later.drop (skip - inp.length), rfl, ?_, List.length_take_le .., ?_, by omega,
      Or.inl rfl, ?_⟩
    · rw [← htext, ← List.append_assoc, List.take_append_drop]
    · refine ⟨by rw [List.length_append, hleft]; omega, ?_⟩
      rw [List.drop_append, hleft]
      by_cases hpast : inp.length ≤ skip
      · rw [List.drop_eq_nil_of_le hpast]
        simp only [List.drop_nil, List.nil_append]
        congr 1
        omega
      · have hzero : skip - inp.length = 0 := by omega
        rw [hzero, List.drop_zero, Nat.zero_sub]
    · rw [List.length_take, List.length_drop]
      by_cases hfull : avail_out ≤ inp.length - skip
      · left
        omega
      · right
        have hnone : (inp.drop skip).drop avail_out = [] := List.eq_nil_of_length_eq_zero (by omega)
        rw [hnone]
        cases later with
        | nil => exact Or.inl (by rw [List.drop_nil]; rfl)
        | cons b later => exact Or.inr ⟨rfl, List.cons_ne_nil b later⟩

theorem storedBlock_inflates (content : List Byte) :
    5 ≤ (storedBlock content).flatten.length ∧ (storedBlock content).flatten.drop 5 = content := by
  unfold storedBlock
  simp only [List.flatten_cons, List.flatten_nil, List.append_nil]
  exact ⟨by simp only [List.length_append, List.length_cons, leBytes_length]; omega, rfl⟩

/-- The file `b` with two bytes, and one without a name, which is refused. -/
def smallRequests : List Request :=
  [⟨[0x62], .memory [0x68, 0x69], ⟨⟨1, 2, 3⟩, 4⟩, fun _ => 0⟩, ⟨[], .folder, ⟨⟨1, 2, 3⟩, 4⟩, fun _ => 0⟩]

def smallZip : TZip := ⟨[], ⟨List.replicate 150 0, 0, .ZR_OK, false, ⟨0, 0, 0⟩⟩, 0, false, []⟩

theorem small_used : (written storedBlock smallZip smallRequests).GetMemory.1.2 = 133 := by decide +kernel

theorem small_writ : (written storedBlock smallZip smallRequests).writ = 55 := by decide +kernel

theorem small_written : Written storedBlock (List.replicate 150 0) [] smallRequests smallZip where
  create := rfl
  added := by decide +kernel
  some_ := by decide
  count := by decide
  names := by decide
  contents := by decide
  room := by
    rw [small_used]
    decide
  size := by
    rw [small_used]
    decide
  ending := by
    rw [small_used, small_writ]
    exact EndsOnce.of_small (by decide) (by decide) (by decide)

end StarLib.Zip
