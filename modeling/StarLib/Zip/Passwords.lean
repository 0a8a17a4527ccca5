import StarLib.Zip.Archive

/-! # Behind a password

The reader takes the header of an encrypted file off what it will give of the text. A caller who has the password and
asks for the text in pieces is told that the file is over twelve bytes before its end.
-/

namespace StarLib.Zip
open Foundations
set_option autoImplicit false
set_option maxHeartbeats 250000
set_option maxRecDepth 120000

variable {deflate : List Byte → List (List Byte)} {block password : List Byte} {requests : List Request}
  {entries : List Entry} {zip : TZip}

/-! ## What comes of a file -/

def Request.encrypted (password : List Byte) (q : Request) : Prop := password ≠ [] ∧ q.src.isFolder = false

instance (password : List Byte) (q : Request) : Decidable (q.encrypted password) := instDecidableAnd

/-- Twelve bytes of an encrypted file are missing. -/
def Request.shown (password : List Byte) (q : Request) : List Byte :=
  if q.encrypted password then q.src.content.take (q.src.content.length - 12) else q.src.content

def Request.shortened (deflate : List Byte → List (List Byte)) (password : List Byte) (q : Request) (index : ℕ) :
    Listed :=
  { q.listed deflate password index with content := q.shown password }

def shortenedListing (deflate : List Byte → List (List Byte)) (password : List Byte) (requests : List Request) :
    List Listed :=
  (accepted requests).mapIdx fun index q => q.shortened deflate password index

/-- Only the contents differ. -/
theorem Made.lists_shortened {fileTime : SYSTEMTIME → FILETIME} (h : Made deflate password requests entries)
    (hnames : ∀ q ∈ accepted requests, q.iname.length < MAX_PATH) :
    Lists fileTime entries (shortenedListing deflate password requests) := by
  have hl := h.lists fileTime hnames
  have hwhole : ∀ {i : ℕ} {f : Listed}, (shortenedListing deflate password requests)[i]? = some f →
      ∃ f', (listing deflate password requests)[i]? = some f' ∧ f.iname = f'.iname ∧ f.entry = f'.entry := by
    intro i f hf
    unfold shortenedListing at hf
    unfold listing
    rw [List.getElem?_mapIdx, Option.map_eq_some_iff] at hf
    obtain ⟨q, hq, rfl⟩ := hf
    rw [List.getElem?_mapIdx, hq]
    exact ⟨_, rfl, rfl, rfl⟩
  refine ⟨?_, ?_, hl.some_, ?_⟩
  · rw [← hl.length, shortenedListing, listing, List.length_mapIdx, List.length_mapIdx]
  · intro i e f he hf
    obtain ⟨f', hf', hiname, -⟩ := hwhole hf
    rw [hiname]
    exact hl.iname he hf'
  · intro i e f he hf
    obtain ⟨f', hf', -, hentry⟩ := hwhole hf
    rw [hentry]
    exact hl.entry he hf'

theorem encHeader_last (rand : ℕ → ℕ) (tim : ℕ) :
    (encHeader rand tim).length = 12 ∧ (encHeader rand tim).getD 11 0 = BitVec.ofNat 8 (tim / 256) := by
  have hlength : ((List.range 11).map fun i => (BitVec.ofNat 8 (rand i / 128) : Byte)).length = 11 := by
    rw [List.length_map, List.length_range]
  unfold encHeader
  refine ⟨by rw [List.length_append, hlength]; rfl, ?_⟩
  rw [List.getD_append_right _ _ _ _ hlength.le, hlength]
  rfl

variable {ι : Type} {z : Inflater ι} {R : ι → List Byte → List Byte → Prop} {fileTime : SYSTEMTIME → FILETIME}

theorem entry_secret {writ : ℕ} {q : Request} {inp : Input} (henc : q.encrypted password)
    (hcontent : q.src.content.length < 4294967296) (hlong : 12 ≤ q.src.content.length)
    (hdeflate : q.method = DEFLATE → R z.init (deflate q.src.content).flatten q.src.content) :
    Secret z R password (q.entry deflate password writ inp) (q.shown password)
      (q.src.content.drop (q.src.content.length - 12)) := by
  have hshown : q.shown password = q.src.content.take (q.src.content.length - 12) := if_pos henc
  have hall : q.shown password ++ q.src.content.drop (q.src.content.length - 12) = q.src.content := by
    rw [hshown, List.take_append_drop]
  have hlength : (q.shown password).length + 12 = q.src.content.length := by
    rw [hshown, List.length_take]
    omega
  obtain ⟨hhead, hlast⟩ := encHeader_last q.rand inp.now.timestamp.toNat
  have hbody : dataBytes deflate password q.src.isFolder q.method inp.now.timestamp.toNat q.src.content q.rand =
      (zencodes (passwordKeys password) (encHeader q.rand inp.now.timestamp.toNat ++
        stored deflate q.src.isFolder q.method q.src.content)).1 := if_pos henc
  have hfile : password ≠ [] ∧ q.src.isFolder = false := henc
  unfold Request.entry
  dsimp only
  rw [if_pos hfile, entryFor_encrypted hfile (if_pos hfile) (if_pos hfile)]
  refine ⟨if_pos henc, ⟨encHeader q.rand inp.now.timestamp.toNat, stored deflate q.src.isFolder q.method q.src.content, _,
    congrArg (· ++ _) hbody, hhead, hlast, Nat.add_comm .., ?_⟩, ?_, ?_⟩
  · rw [hall]
    show if q.method = STORE then stored deflate q.src.isFolder q.method q.src.content = q.src.content
      else R z.init (stored deflate q.src.isFolder q.method q.src.content) q.src.content
    have hstored : stored deflate q.src.isFolder q.method q.src.content =
        if q.method = DEFLATE then (deflate q.src.content).flatten else q.src.content :=
      if_neg (by rw [hfile.2]; exact Bool.false_ne_true)
    rw [hstored]
    obtain hstore | hdefl := method_cases q
    · rw [if_pos hstore, if_neg (by rw [hstore]; decide)]
    · rw [if_neg (by rw [hdefl]; decide), if_pos hdefl]
      exact hdeflate hdefl
  · exact (Nat.mod_eq_of_lt hcontent).trans hlength.symm
  · rw [hall]

/-! ## The session -/

/-- What a caller may ask: pieces of an encrypted file that are not longer than what there is without its last bytes. -/
def Pieces (deflate : List Byte → List (List Byte)) (password : List Byte) (requests : List Request) : Call → Prop
  | .Get _ => True
  | .Find name ic => name.length < 256 ∧ ∃ f ∈ listing deflate password requests, f.named ic name = true
  | .Unzip index len => ∀ q, (accepted requests)[index]? = some q → q.encrypted password →
    len + 12 ≤ q.src.content.length

theorem Made.allowed_pieces {c : Call} (h : Made deflate password requests entries)
    (hdeflate : ∀ content, R z.init (deflate content).flatten content)
    (hcontents : ∀ q ∈ accepted requests, q.src.content.length < 4294967296)
    (hc : Pieces deflate password requests c) :
    Allowed z R entries (shortenedListing deflate password requests) password c := by
  cases c with
  | Get index => trivial
  | Find name ic =>
    obtain ⟨hshort, f, hmem, hnamed⟩ := hc
    obtain ⟨i, hf⟩ := List.getElem?_of_mem hmem
    unfold listing at hf
    rw [List.getElem?_mapIdx, Option.map_eq_some_iff] at hf
    obtain ⟨q, hq, rfl⟩ := hf
    refine ⟨hshort, q.shortened deflate password i, List.mem_of_getElem? (i := i) ?_, hnamed⟩
    unfold shortenedListing
    rw [List.getElem?_mapIdx, hq]
    rfl
  | Unzip index len =>
    intro e f he hf
    obtain ⟨q, inp, writ, hq, hopened, rfl⟩ := h.at he
    have hmem := List.mem_of_getElem? hq
    unfold shortenedListing at hf
    rw [List.getElem?_mapIdx, hq] at hf
    rw [← Option.some.inj hf]
    show Plain z R _ (q.shown password) ∨
      len ≤ (q.shown password).length ∧ ∃ hidden, Secret z R password _ (q.shown password) hidden
    by_cases henc : q.encrypted password
    · have hlen := hc q hq henc
      refine Or.inr ⟨?_, _, entry_secret henc (hcontents q hmem) (by omega) fun _ => hdeflate q.src.content⟩
      rw [Request.shown, if_pos henc, List.length_take]
      omega
    · rw [Request.shown, if_neg henc]
      exact Or.inl (entry_plain henc (hcontents q hmem) q.src.content_folder fun _ => hdeflate q.src.content)

theorem Written.word (h : Written deflate block password requests zip) :
    password.takeWhile (· ≠ 0) = zip.password := by
  have hcreate := h.create
  unfold CreateZip at hcreate
  split at hcreate
  · exact absurd hcreate (by simp)
  · rw [← Except.ok.inj hcreate]

/-- With the password of the writer, the answers are those of a reader whose encrypted files have lost their last twelve
bytes: the end is reported in front of them. -/
theorem session_shortened (hz : Inflating z R) (hdeflate : ∀ content, R z.init (deflate content).flatten content)
    (h : Written deflate block password requests zip) {calls : List Call}
    (hcalls : ∀ c ∈ calls, Pieces deflate zip.password requests c) {turns : ℕ}
    (hturns : (written deflate zip requests).GetMemory.1.2 + 2 ≤ turns) :
    ∃ u, OpenZip (memory deflate zip requests) password = some (.ok u) ∧
      session (TUnzip.call z fileTime turns) u calls =
        .done (modelled (reader (shortenedListing deflate zip.password requests)) none calls) := by
  refine h.serves hz (fun hmade => hmade.lists_shortened h.names) (fun hmade c hc => ?_) hturns
  rw [h.word]
  exact hmade.allowed_pieces hdeflate h.contents (hcalls c hc)

/-- The file `b.Z` with the letters from `a` to `n`, behind the password `p`. Its suffix keeps it from being packed. -/
def secretRequests : List Request :=
  [⟨[0x62, 0x2e, 0x5a], .memory ((List.range 14).map fun i => BitVec.ofNat 8 (0x61 + i)), ⟨⟨1, 2, 3⟩, 4⟩, fun _ => 0⟩]

def secretZip : TZip := ⟨[0x70], ⟨List.replicate 200 0, 0, .ZR_OK, false, ⟨0, 0, 0⟩⟩, 0, false, []⟩

theorem secret_used : (written storedBlock secretZip secretRequests).GetMemory.1.2 = 172 := by decide +kernel

theorem secret_writ : (written storedBlock secretZip secretRequests).writ = 92 := by decide +kernel

theorem secret_written : Written storedBlock (List.replicate 200 0) [0x70] secretRequests secretZip where
  create := rfl
  added := by decide +kernel
  some_ := by decide
  count := by decide
  names := by decide
  contents := by decide
  room := by
    rw [secret_used]
    decide
  size := by
    rw [secret_used]
    decide
  ending := by
    rw [secret_used, secret_writ]
    exact EndsOnce.of_small (by decide) (by decide) (by decide)

/-- Two of the fourteen letters come. -/
theorem session_shortened_sample : ∃ u, OpenZip (memory storedBlock secretZip secretRequests) [0x70] = some (.ok u) ∧
    session (TUnzip.call storedInflater (fun _ => 0) 200) u [.Unzip 0 1, .Unzip 0 1, .Unzip 0 1] =
      .done [.piece .ZR_MORE [0x61], .piece .ZR_OK [0x62], .piece .ZR_FLATE []] := by
  have hmodelled : modelled (reader (shortenedListing storedBlock [0x70] secretRequests)) none
      [.Unzip 0 1, .Unzip 0 1, .Unzip 0 1] = [.piece .ZR_MORE [0x61], .piece .ZR_OK [0x62], .piece .ZR_FLATE []] := rfl
  rw [← hmodelled]
  refine session_shortened storedInflater_inflating storedBlock_inflates secret_written (fun c hc => ?_) (by
    rw [secret_used]
    decide)
  have hcall : c = .Unzip 0 1 := by simpa using hc
  rw [hcall]
  intro q hq _
  obtain rfl := Option.some.inj hq
  decide

end StarLib.Zip
