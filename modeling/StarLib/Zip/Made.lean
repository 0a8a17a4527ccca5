import StarLib.Zip.Contents
import StarLib.Zip.Entries

/-! # What was added can be read

The entries that a session of calls leaves in an archive are what the reader needs: their numbers fit, header and
directory agree, and the bytes of a file that is not encrypted are its data.
-/

namespace StarLib.Zip
open Foundations
set_option autoImplicit false
set_option maxHeartbeats 250000
set_option maxRecDepth 120000

/-! ## The entry of a call -/

/-- The calls that are not refused. -/
def accepted (requests : List Request) : List Request := requests.filter fun q => q.opened.isSome

namespace Request

/-- The name in the archive: that of a folder ends with a slash. -/
def iname (q : Request) : List Byte :=
  if q.src.isFolder && decide ((zipName q.name).getLast? ≠ some 0x2f) then zipName q.name ++ [0x2f] else zipName q.name

def attr (q : Request) : ℕ := if q.src.isFolder then 0x41c00010 else 0x80000000

end Request

variable {deflate : List Byte → List (List Byte)} {password : List Byte} {writ : ℕ} {q : Request} {inp : Input}

theorem openSource_attr {src : Source} {now : Now} (h : src.openSource now = .ok inp) :
    inp.attr = if src.isFolder then 0x41c00010 else 0x80000000 := by
  unfold Source.openSource at h
  cases src with
  | memory src =>
    simp only at h
    split at h
    · exact absurd h (by simp)
    · rw [← Except.ok.inj h]
      rfl
  | handle len reads =>
    rw [← Except.ok.inj h]
    rfl
  | filename reads =>
    cases reads with
    | none => exact absurd h (by simp)
    | some reads =>
      rw [← Except.ok.inj h]
      rfl
  | folder =>
    rw [← Except.ok.inj h]
    rfl

theorem opened_source (h : q.opened = some inp) : q.src.openSource q.now = .ok inp := by
  unfold Request.opened at h
  split at h
  · exact absurd h (Option.some_ne_none inp).symm
  · split at h
    · exact absurd h (Option.some_ne_none inp).symm
    · next hopen => rw [hopen, Option.some.inj h]

theorem zipName_some (name : List Byte) : (∀ c ∈ zipName name, c ≠ 0) ∧ (zipName name).length ≤ 259 := by
  refine ⟨fun c hc => ?_, ?_⟩
  · obtain ⟨d, hd, rfl⟩ := List.mem_map.1 hc
    have hsome := List.mem_takeWhile_imp (List.mem_of_mem_take hd)
    split
    · decide
    · exact of_decide_eq_true hsome
  · unfold zipName
    rw [List.length_map, List.length_take]
    exact Nat.min_le_left ..

theorem iname_some (q : Request) : (∀ c ∈ q.iname, c ≠ 0) ∧ q.iname.length ≤ 260 := by
  obtain ⟨hsome, hlength⟩ := zipName_some q.name
  unfold Request.iname
  split
  · refine ⟨fun c hc => ?_, ?_⟩
    · rcases List.mem_append.1 hc with hc | hc
      · exact hsome c hc
      · rw [List.mem_singleton.1 hc]
        decide
    · rw [List.length_append, List.length_singleton]
      omega
  · exact ⟨hsome, hlength.trans (by decide)⟩

theorem entry_info (deflate : List Byte → List (List Byte)) (password : List Byte) (writ : ℕ) (h : q.opened = some inp) :
    (q.entry deflate password writ inp).info.iname = q.iname ∧ (q.entry deflate password writ inp).info.atx = q.attr ∧
      (q.entry deflate password writ inp).info.tim = q.now.timestamp.toNat ∧
      (q.entry deflate password writ inp).header.extra = extraTimes q.now.times := by
  obtain ⟨hnow, -⟩ := openSource_ok (opened_source h)
  have hattr := openSource_attr (opened_source h)
  unfold Request.entry entryFor
  refine ⟨rfl, hattr, ?_, ?_⟩
  · show inp.now.timestamp.toNat = _
    rw [hnow]
  · rw [← hnow]
    dsimp only
    split
    · rfl
    · rfl

/-- A field that holds the method. -/
theorem method_cases (q : Request) : q.method = STORE ∨ q.method = DEFLATE := by
  unfold Request.method
  split
  · exact Or.inl rfl
  · exact Or.inr rfl

theorem entry_body_length :
    (q.entry deflate password writ inp).info.siz ≤ (q.entry deflate password writ inp).body.length := by
  have hlength := dataBytes_length deflate password q.src.isFolder q.method inp.now.timestamp.toNat q.src.content q.rand
  have hbody : (q.entry deflate password writ inp).body.length =
      (dataBytes deflate password q.src.isFolder q.method inp.now.timestamp.toNat q.src.content q.rand).length +
        (if decide (password ≠ [] ∧ q.src.isFolder = false) then
          extendedBytes (q.entry deflate password writ inp).info else []).length := List.length_append
  have hsiz : (q.entry deflate password writ inp).info.siz =
      (stored deflate q.src.isFolder q.method q.src.content).length +
        if decide (password ≠ [] ∧ q.src.isFolder = false) then 12 else 0 := rfl
  rw [hbody, hlength, hsiz]
  simp only [decide_eq_true_eq]
  omega

theorem entry_fits (h : q.opened = some inp) (hbody : (q.entry deflate password writ inp).body.length < 4294967296)
    (hoff : writ < 4294967296) : Fits (q.entry deflate password writ inp).info := by
  obtain ⟨hiname, hatx, htim, -⟩ := entry_info deflate password writ h
  have hname := (iname_some q).2
  have hmethod := method_cases q
  refine ⟨?_, ?_, ?_, ?_, ?_, ?_, ?_, ?_, ?_, ?_, ?_, ?_, ?_, ?_⟩
  · show 0xb17 < 65536
    decide
  · show 20 < 65536
    decide
  · show (if decide (password ≠ [] ∧ q.src.isFolder = false) then 9 else 0) < 65536
    split <;> decide
  · show q.method < 65536
    rcases hmethod with hmethod | hmethod
    · rw [hmethod]
      decide
    · rw [hmethod]
      decide
  · rw [htim]
    exact q.now.timestamp.isLt
  · exact (crc32 0 q.src.content).isLt
  · exact entry_body_length.trans_lt hbody
  · exact Nat.mod_lt _ (by decide)
  · rw [hiname]
    omega
  · show (centralTimes inp.now.times).length < 65536
    unfold centralTimes extraTimes
    simp only [List.length_set, List.length_take]
    omega
  · show 0 < 65536
    decide
  · show 0 < 65536
    decide
  · rw [hatx]
    unfold Request.attr
    split <;> decide
  · exact hoff

theorem entry_coherent : Coherent (q.entry deflate password writ inp) := by
  have hextra : (extraTimes inp.now.times).length < 65536 := by
    unfold extraTimes
    simp only [List.length_append, leBytes_length, List.length_cons, List.length_nil]
    omega
  unfold Request.entry
  dsimp only
  generalize hz : newInfo password writ inp q.src.isFolder (if password ≠ [] ∧ q.src.isFolder = false then 12 else 0)
    q.method (zipName q.name) = z
  have hmethod : z.how = STORE ∨ z.how = DEFLATE := by
    rw [← hz]
    exact method_cases q
  have hz' : z.extra = extraTimes inp.now.times := by rw [← hz]; rfl
  rw [← hz'] at hextra
  by_cases henc : password ≠ [] ∧ q.src.isFolder = false
  · have hflg : z.flg = 9 := by
      rw [← hz]
      exact if_pos henc
    have hlflg : z.lflg = 9 := by
      rw [← hz]
      exact if_pos henc
    rw [entryFor_encrypted henc hflg hlflg]
    exact ⟨rfl, hmethod, rfl, hlflg.trans_lt (by decide), hextra, fun hclear => absurd (hlflg ▸ hclear) (by decide)⟩
  · rw [entryFor_plain henc]
    exact ⟨rfl, hmethod, rfl, Nat.zero_lt_succ 65535, hextra, fun _ => ⟨rfl, rfl, rfl⟩⟩

/-- Without a password the data of a file is what was written for its contents. -/
theorem entry_plain {ι : Type} {z : Inflater ι} {R : ι → List Byte → List Byte → Prop}
    (henc : ¬ (password ≠ [] ∧ q.src.isFolder = false)) (hcontent : q.src.content.length < 4294967296)
    (hdir : q.src.isFolder = true → q.src.content = [])
    (hdeflate : q.method = DEFLATE → R z.init (deflate q.src.content).flatten q.src.content) :
    Plain z R (q.entry deflate password writ inp) q.src.content := by
  have hbody : dataBytes deflate password q.src.isFolder q.method inp.now.timestamp.toNat q.src.content q.rand =
      stored deflate q.src.isFolder q.method q.src.content := if_neg henc
  have hfolder : q.src.isFolder = true → q.method = STORE := fun hfolder => by
    unfold Request.method
    rw [hfolder, Bool.true_or, if_pos rfl]
  unfold Request.entry
  dsimp only
  rw [entryFor_plain henc]
  refine ⟨rfl, (congrArg List.length hbody).symm, Nat.mod_eq_of_lt hcontent, rfl, ?_⟩
  show if q.method = STORE then dataBytes deflate password q.src.isFolder q.method inp.now.timestamp.toNat q.src.content q.rand =
      q.src.content
    else R z.init
      (dataBytes deflate password q.src.isFolder q.method inp.now.timestamp.toNat q.src.content q.rand) q.src.content
  rw [hbody]
  unfold stored
  rcases method_cases q with hstore | hdefl
  · rw [if_pos hstore]
    split
    · next hisdir => exact (hdir hisdir).symm
    · rw [if_neg (by rw [hstore]; decide)]
  · have hfile : ¬ q.src.isFolder = true := fun hisdir => absurd ((hfolder hisdir).symm.trans hdefl) (by decide)
    rw [if_neg (by rw [hdefl]; decide), if_neg hfile, if_pos hdefl]
    exact hdeflate hdefl

/-! ## The entries of a session -/

variable {requests : List Request} {entries : List Entry}

theorem accepted_refused (h : q.opened = none) : accepted (q :: requests) = accepted requests :=
  List.filter_cons_of_neg (by rw [h]; exact Bool.false_ne_true)

theorem accepted_added (h : q.opened = some inp) : accepted (q :: requests) = q :: accepted requests :=
  List.filter_cons_of_pos (by rw [h]; rfl)

/-- Every entry is that of an accepted call. -/
theorem Made.at {e : Entry} {i : ℕ} (h : Made deflate password requests entries) (he : entries[i]? = some e) :
    ∃ q inp writ, (accepted requests)[i]? = some q ∧ q.opened = some inp ∧ e = q.entry deflate password writ inp := by
  induction h generalizing i with
  | nil => exact absurd he (by simp)
  | refused hq h ih =>
    rw [accepted_refused hq]
    exact ih he
  | @added q qs entries inp writ hq h ih =>
    rw [accepted_added hq]
    cases i with
    | zero => exact ⟨q, inp, writ, rfl, hq, (Option.some.inj he).symm⟩
    | succ i => exact ih he

theorem Made.length (h : Made deflate password requests entries) : entries.length = (accepted requests).length := by
  induction h with
  | nil => rfl
  | refused hq h ih => rw [ih, accepted_refused hq]
  | added writ hq h ih => rw [accepted_added hq, List.length_cons, List.length_cons, ih]

/-- The archive of a session can be read. -/
theorem Made.readable (h : Made deflate password requests entries) (hsome : accepted requests ≠ [])
    (hcount : (accepted requests).length < 65536) (hsize : (archive entries).length < 4294967296)
    (hending : EndsOnce entries.length (directory entries).length (records entries).length)
    (hoffsets : Offsets 0 entries) : Readable entries := by
  refine ⟨?_, h.length ▸ hcount, hsize, hending, hoffsets, fun e hmem => ?_, fun e hmem => ?_⟩
  · exact fun hnil => hsome (List.eq_nil_of_length_eq_zero (by rw [← h.length, hnil, List.length_nil]))
  · obtain ⟨i, he⟩ := List.getElem?_of_mem hmem
    obtain ⟨q, inp, writ, -, hq, rfl⟩ := h.at he
    have hrecord := (record_at hoffsets he).bound
    have hbytes : (q.entry deflate password writ inp).bytes.length =
        (localBytes (q.entry deflate password writ inp).header).length +
          (q.entry deflate password writ inp).body.length := List.length_append
    have hoff : (q.entry deflate password writ inp).info.off = writ := rfl
    exact entry_fits hq (by omega) (by omega)
  · obtain ⟨i, he⟩ := List.getElem?_of_mem hmem
    obtain ⟨q, inp, writ, -, -, rfl⟩ := h.at he
    exact entry_coherent

end StarLib.Zip
