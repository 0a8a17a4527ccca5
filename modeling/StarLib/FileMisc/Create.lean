import StarLib.FileMisc.Paths

/-! # `CreateFolder`

The path is taken to pieces at its backslashes, and every folder on the way that does not exist is created. Behind the
two backslashes of a share the first piece is the server.
-/

namespace StarLib.FileMisc
open Foundations
set_option autoImplicit false
set_option maxHeartbeats 250000
set_option maxRecDepth 120000

variable {σ : Type}

/-- `UnterminatePath`. -/
def unterminatePath (isspace : TCHAR → Bool) (sPath : CString) : CString :=
  let s := sPath.rdropWhile isspace
  if position (reverseFind 0x5c s) = (s.length : ℤ) - 1 then s.take (s.length - 1) else s

/-- `CString::Find` of a letter, from a position on. -/
def findFrom (c : TCHAR) (nStart : ℕ) (s : CString) : Option ℕ := ((s.drop nStart).findIdx? (· == c)).map (· + nStart)

/-- What the system does with the folders of a disk. -/
structure Volume (σ : Type) where
  GetFileAttributes : σ → CString → DWORD
  CreateDirectory : σ → CString → Bool × σ

/-- `FolderExists`. -/
def Volume.folderExists (v : Volume σ) (d : σ) (szFolder : CString) : Bool :=
  szFolder.isEmpty || (v.GetFileAttributes d szFolder != 0xffffffff && v.GetFileAttributes d szFolder &&& 0x10 != 0)

/-- The variables of the loop, with the disk and the folders that it tried to create. -/
structure Creation (σ : Type) where
  sFolder : CString
  sRemaining : CString
  bDone : Bool
  bResult : Bool
  disk : σ
  tried : List CString

/-- The next piece goes to the folder. -/
def Creation.takePiece (s : Creation σ) : Creation σ :=
  match findFrom 0x5c 1 s.sRemaining with
  | none => { s with bDone := true, sFolder := s.sFolder ++ s.sRemaining }
  | some nFind => { s with sFolder := s.sFolder ++ s.sRemaining.take nFind, sRemaining := s.sRemaining.drop nFind }

/-- If the folder does not exist, it is created. -/
def Creation.provide (v : Volume σ) (s : Creation σ) : Creation σ :=
  if v.folderExists s.disk s.sFolder then s
  else
    let answer := v.CreateDirectory s.disk s.sFolder
    { s with bResult := if !answer.1 then false else s.bResult, disk := answer.2, tried := s.tried ++ [s.sFolder] }

def Creation.going (s : Creation σ) : Bool := !s.bDone && s.bResult

/-- The number of letters that are pulled off first. -/
def startLength (sRemaining : CString) : ℕ :=
  match find [0x3a, 0x5c] sRemaining with
  | some nFind => nFind + 2
  | none =>
    match find [0x5c, 0x5c] sRemaining with
    | some nFind => nFind + 2
    | none => 0

/-- The variables before the loop. -/
def Creation.start (isspace : TCHAR → Bool) (d : σ) (szFolder : CString) : Creation σ :=
  let sRemaining := unterminatePath isspace szFolder
  ⟨sRemaining.take (startLength sRemaining), sRemaining.drop (startLength sRemaining), false, true, d, []⟩

/-- `CreateFolder`, with the disk behind it and the folders that it tried to create. -/
def createFolder (v : Volume σ) (isspace : TCHAR → Bool) (fuel : ℕ) (d : σ) (szFolder : CString) :
    Option (Bool × σ × List CString) :=
  if v.folderExists d szFolder then some (true, d, [])
  else
    (whileEnds Creation.going (fun s => s.takePiece.provide v) fuel (Creation.start isspace d szFolder)).map fun s =>
      (s.bResult, s.disk, s.tried)

/-! ## Folder paths -/

/-- Names with a backslash in front of each. -/
def joined : List CString → CString
  | [] => []
  | name :: names => 0x5c :: name ++ joined names

/-- The drive root or the share below which a folder is. -/
inductive RootFolder
  | drive (letter : TCHAR)
  | share (server name : CString)

/-- The text in front of the first backslash of a folder. -/
def RootFolder.base : RootFolder → CString
  | .drive letter => [letter, colon]
  | .share server name => 0x5c :: 0x5c :: server ++ 0x5c :: name

/-- The folder with these names below the root. An empty name is a further backslash; the last one is a trailing one. -/
def RootFolder.path (root : RootFolder) (names : List CString) : CString :=
  match root, names with
  | .drive letter, [] => [letter, colon, 0x5c]
  | root, names => root.base ++ joined names

def serverText (server : CString) : CString := 0x5c :: 0x5c :: server

/-- What is not a folder that can be created: a drive and its root, a server and its share. -/
def RootFolder.fixed : RootFolder → List CString
  | .drive letter => [[letter, colon], [letter, colon, 0x5c]]
  | .share server name => [serverText server, (RootFolder.share server name).base]

/-- What is known of the two functions of the system. -/
structure Volume.Documented (v : Volume σ) : Prop where
  created : ∀ d s, (v.CreateDirectory d s).1 = true → v.folderExists (v.CreateDirectory d s).2 s = true
  kept : ∀ d s t, v.folderExists d t = true → v.folderExists (v.CreateDirectory d s).2 t = true

/-- `W` says of a disk that the root exists and is writable: every folder with a proper name can be created in each
folder below it. -/
structure Writable (v : Volume σ) (isspace : TCHAR → Bool) (isName : CString → Prop) (root : RootFolder) (W : σ → Prop) :
    Prop where
  name : ∀ n, isName n → n ≠ [] ∧ 0x5c ∉ n ∧ colon ∉ n ∧ ∀ c ∈ n.getLast?, isspace c = false
  rooted : ∀ d, W d → v.folderExists d (root.path []) = true
  parent : ∀ d names n, W d → v.folderExists d (root.path (names ++ [n])) = true →
    v.folderExists d (root.path names) = true
  slash : ∀ d names, W d → v.folderExists d (root.path names) = true → v.folderExists d (root.path (names ++ [[]])) = true
  create : ∀ d names n, W d → v.folderExists d (root.path names) = true → isName n →
    v.folderExists d (root.path (names ++ [n])) = false → (v.CreateDirectory d (root.path (names ++ [n]))).1 = true
  stays : ∀ d s, W d → W (v.CreateDirectory d s).2

/-- The call ends and returns `TRUE`, the folder and all that it is in exist afterwards, and it was not tried to create
the root or the server. -/
def Creates (v : Volume σ) (isspace : TCHAR → Bool) (d : σ) (root : RootFolder) (names : List CString) : Prop :=
  ∃ d' tried, (∃ turns, ∀ fuel, turns ≤ fuel → createFolder v isspace fuel d (root.path names) = some (true, d', tried)) ∧
    (∀ ns, ns <+: names → v.folderExists d' (root.path ns) = true) ∧ ∀ s ∈ tried, s ∉ root.fixed

section Pieces
variable {root : RootFolder} {names ns : List CString} {c x : TCHAR} {m n : CString}

theorem joined_append (names ns : List CString) : joined (names ++ ns) = joined names ++ joined ns := by
  induction names with
  | nil => rfl
  | cons n names ih => simp [joined, ih]

theorem path_concat (root : RootFolder) (names : List CString) (n : CString) :
    root.path (names ++ [n]) = root.base ++ joined names ++ 0x5c :: n := by
  have hjoined : root.path (names ++ [n]) = root.base ++ joined (names ++ [n]) := by
    cases root with
    | drive letter =>
      cases names with
      | nil => rfl
      | cons m names => rfl
    | share server name => rfl
  rw [hjoined, joined_append, List.append_assoc]
  simp [joined]

/-- The search from the second letter on finds the end of the first piece. -/
theorem findFrom_joined (hm : 0x5c ∉ m) (names : List CString) :
    findFrom 0x5c 1 (x :: (m ++ joined names)) = if names = [] then none else some (m.length + 1) := by
  have hplain : ∀ d ∈ m, (d == (0x5c : TCHAR)) = false := by
    intro d hd
    rw [beq_eq_false_iff_ne]
    exact fun heq => hm (heq ▸ hd)
  have hnone : m.findIdx? (· == (0x5c : TCHAR)) = none := List.findIdx?_eq_none_iff.2 hplain
  unfold findFrom
  rw [List.drop_succ_cons, List.drop_zero, List.findIdx?_append, hnone]
  cases names with
  | nil => rfl
  | cons n names =>
    rw [if_neg (List.cons_ne_nil n names)]
    simp [joined, List.findIdx?_cons]

theorem takePiece_last (s : Creation σ) (hm : 0x5c ∉ m) (hs : s.sRemaining = x :: m) :
    s.takePiece = { s with bDone := true, sFolder := s.sFolder ++ x :: m } := by
  have hfind := findFrom_joined (x := x) hm []
  rw [joined, List.append_nil, if_pos rfl] at hfind
  unfold Creation.takePiece
  rw [hs, hfind]

theorem takePiece_next (s : Creation σ) (hm : 0x5c ∉ m) (hnames : names ≠ [])
    (hs : s.sRemaining = x :: (m ++ joined names)) :
    s.takePiece = { s with sFolder := s.sFolder ++ x :: m, sRemaining := joined names } := by
  have hfind := findFrom_joined (x := x) hm names
  rw [if_neg hnames] at hfind
  unfold Creation.takePiece
  rw [hs, hfind]
  dsimp only
  rw [List.take_succ_cons, List.take_left, List.drop_succ_cons, List.drop_left]

end Pieces

/-! ## The loop -/

section Loop
variable {v : Volume σ} {isspace : TCHAR → Bool} {isName : CString → Prop} {root : RootFolder} {W : σ → Prop} {d : σ}

/-- A turn, or a run, leaves what exists, and tries only folders with a proper name. -/
structure Continued (v : Volume σ) (isName : CString → Prop) (root : RootFolder) (W : σ → Prop) (s s' : Creation σ) :
    Prop where
  writable : W s'.disk
  bResult : s'.bResult = true
  kept : ∀ t, v.folderExists s.disk t = true → v.folderExists s'.disk t = true
  tried : ∀ t ∈ s'.tried, t ∈ s.tried ∨ ∃ ns n, isName n ∧ t = root.path (ns ++ [n])

theorem Continued.trans {s s' s'' : Creation σ} (h : Continued v isName root W s s')
    (h' : Continued v isName root W s' s'') : Continued v isName root W s s'' := by
  refine ⟨h'.writable, h'.bResult, fun t ht => h'.kept t (h.kept t ht), fun t ht => ?_⟩
  rcases h'.tried t ht with ht | hnew
  · exact h.tried t ht
  · exact Or.inr hnew

theorem provide_continued (hv : v.Documented) (hw : Writable v isspace isName root W) {s : Creation σ}
    {names : List CString} {n : CString} (hW : W s.disk) (hs : s.bResult = true)
    (hnames : v.folderExists s.disk (root.path names) = true) (hn : n = [] ∨ isName n)
    (hfolder : s.sFolder = root.path (names ++ [n])) :
    Continued v isName root W s (s.provide v) ∧ v.folderExists (s.provide v).disk (root.path (names ++ [n])) = true ∧
      (s.provide v).sFolder = s.sFolder ∧ (s.provide v).sRemaining = s.sRemaining ∧ (s.provide v).bDone = s.bDone := by
  unfold Creation.provide
  cases hexists : v.folderExists s.disk s.sFolder with
  | true =>
    rw [if_pos rfl]
    refine ⟨⟨hW, hs, fun t ht => ht, fun t ht => Or.inl ht⟩, ?_, rfl, rfl, rfl⟩
    rw [← hfolder]
    exact hexists
  | false =>
    rw [if_neg Bool.false_ne_true]
    have hname : isName n := by
      rcases hn with rfl | hname
      · rw [hfolder, hw.slash s.disk names hW hnames] at hexists
        exact Bool.noConfusion hexists
      · exact hname
    rw [hfolder] at hexists
    have hanswer := hw.create s.disk names n hW hnames hname hexists
    rw [← hfolder] at hanswer
    dsimp only
    rw [hanswer]
    refine ⟨⟨hw.stays _ _ hW, hs, fun t ht => hv.kept _ _ t ht, fun t ht => ?_⟩, ?_, rfl, rfl, rfl⟩
    · rcases List.mem_append.1 ht with ht | ht
      · exact Or.inl ht
      · exact Or.inr ⟨names, n, hname, by rw [List.mem_singleton.1 ht, hfolder]⟩
    · rw [← hfolder]
      exact hv.created _ _ hanswer

/-- The next piece is the name `n`, which is followed by others. -/
structure Takes (root : RootFolder) (names : List CString) (n : CString) (rest : List CString) (s : Creation σ) :
    Prop where
  going : s.going = true
  sFolder : s.takePiece.sFolder = root.path (names ++ [n])
  sRemaining : rest ≠ [] → s.takePiece.sRemaining = joined rest
  bDone : s.takePiece.bDone = decide (rest = [])
  others : s.takePiece.bResult = s.bResult ∧ s.takePiece.disk = s.disk ∧ s.takePiece.tried = s.tried

theorem takes_of (s : Creation σ) {x : TCHAR} {m : CString} {names rest : List CString} {n : CString}
    (hgoing : s.going = true) (hm : 0x5c ∉ m) (hs : s.sRemaining = x :: (m ++ joined rest))
    (hfolder : s.sFolder ++ x :: m = root.path (names ++ [n])) : Takes root names n rest s := by
  have hdone : s.bDone = false := by
    unfold Creation.going at hgoing
    rw [Bool.and_eq_true, Bool.not_eq_true'] at hgoing
    exact hgoing.1
  by_cases hrest : rest = []
  · subst hrest
    rw [joined, List.append_nil] at hs
    have htake := takePiece_last s hm hs
    refine ⟨hgoing, by rw [htake, hfolder], fun hne => absurd rfl hne, by rw [htake]; rfl, ?_⟩
    rw [htake]
    exact ⟨rfl, rfl, rfl⟩
  · have htake := takePiece_next s hm hrest hs
    refine ⟨hgoing, by rw [htake, hfolder], fun _ => by rw [htake], ?_, ?_⟩
    · rw [htake, decide_eq_false hrest]
      exact hdone
    · rw [htake]
      exact ⟨rfl, rfl, rfl⟩

theorem takes_joined (s : Creation σ) {names rest : List CString} {n : CString} (hgoing : s.going = true) (hn : 0x5c ∉ n)
    (hs : s.sRemaining = joined (n :: rest)) (hfolder : s.sFolder = root.base ++ joined names) :
    Takes root names n rest s := by
  refine takes_of s hgoing hn hs ?_
  rw [hfolder, path_concat]

theorem Writable.no_slash (hw : Writable v isspace isName root W) {n : CString} (hn : n = [] ∨ isName n) : 0x5c ∉ n := by
  rcases hn with rfl | hname
  · exact List.not_mem_nil
  · exact (hw.name n hname).2.1

theorem turn_continued (hv : v.Documented) (hw : Writable v isspace isName root W) {names rest : List CString}
    {n : CString} {s : Creation σ} (htakes : Takes root names n rest s) (hW : W s.disk)
    (hnames : v.folderExists s.disk (root.path names) = true) (hn : n = [] ∨ isName n) :
    Continued v isName root W s (s.takePiece.provide v) ∧
      v.folderExists (s.takePiece.provide v).disk (root.path (names ++ [n])) = true ∧
      (s.takePiece.provide v).sFolder = root.path (names ++ [n]) ∧
      (rest ≠ [] → (s.takePiece.provide v).sRemaining = joined rest) ∧
      (s.takePiece.provide v).bDone = decide (rest = []) := by
  obtain ⟨hresult, hdisk, htried⟩ := htakes.others
  have hgoing : s.bResult = true := by
    have hboth := htakes.going
    unfold Creation.going at hboth
    rw [Bool.and_eq_true] at hboth
    exact hboth.2
  obtain ⟨hcontinued, hexists, hfolder, hremaining, hdone⟩ := provide_continued hv hw (s := s.takePiece)
    (by rw [hdisk]; exact hW) (by rw [hresult]; exact hgoing) (by rw [hdisk]; exact hnames) hn htakes.sFolder
  refine ⟨⟨hcontinued.writable, hcontinued.bResult, fun t ht => ?_, fun t ht => ?_⟩, hexists, ?_, fun hrest => ?_, ?_⟩
  · apply hcontinued.kept
    rw [hdisk]
    exact ht
  · rw [← htried]
    exact hcontinued.tried t ht
  · rw [hfolder, htakes.sFolder]
  · rw [hremaining, htakes.sRemaining hrest]
  · rw [hdone, htakes.bDone]

theorem loop_creates (hv : v.Documented) (hw : Writable v isspace isName root W) (rest : List CString) :
    ∀ (names : List CString) (n : CString) (s : Creation σ), Takes root names n rest s → W s.disk →
      v.folderExists s.disk (root.path names) = true → (∀ m ∈ n :: rest, m = [] ∨ isName m) →
      ∃ s', (∀ fuel, rest.length < fuel → whileEnds Creation.going (fun s => s.takePiece.provide v) fuel s = some s') ∧
        Continued v isName root W s s' ∧
        ∀ ns, ns <+: n :: rest → v.folderExists s'.disk (root.path (names ++ ns)) = true := by
  induction rest with
  | nil =>
    intro names n s htakes hW hnames hall
    obtain ⟨hcontinued, hexists, -, -, hdone⟩ := turn_continued hv hw htakes hW hnames (hall n List.mem_cons_self)
    refine ⟨s.takePiece.provide v, fun fuel hfuel => ?_, hcontinued, fun ns hns => ?_⟩
    · obtain ⟨k, rfl⟩ : ∃ k, fuel = k + 1 := ⟨fuel - 1, by omega⟩
      rw [whileEnds_succ htakes.going]
      refine whileEnds_done ?_ k
      unfold Creation.going
      rw [hdone]
      rfl
    · rcases List.prefix_cons_iff.1 hns with rfl | ⟨t, rfl, ht⟩
      · rw [List.append_nil]
        exact hcontinued.kept _ hnames
      · rw [List.prefix_nil.1 ht]
        exact hexists
  | cons m rest ih =>
    intro names n s htakes hW hnames hall
    obtain ⟨hcontinued, hexists, hfolder, hremaining, hdone⟩ :=
      turn_continued hv hw htakes hW hnames (hall n List.mem_cons_self)
    have hrest : ∀ k ∈ m :: rest, k = [] ∨ isName k := fun k hk => hall k (List.mem_cons_of_mem n hk)
    have hgoing : (s.takePiece.provide v).going = true := by
      unfold Creation.going
      rw [hdone, hcontinued.bResult]
      rfl
    have hnext : Takes root (names ++ [n]) m rest (s.takePiece.provide v) := by
      refine takes_joined _ hgoing (hw.no_slash (hrest m List.mem_cons_self)) (hremaining (List.cons_ne_nil m rest)) ?_
      rw [hfolder, path_concat, joined_append, List.append_assoc]
      simp [joined]
    obtain ⟨s', hrun, hcontinued', hall'⟩ := ih (names ++ [n]) m _ hnext hcontinued.writable hexists hrest
    refine ⟨s', fun fuel hfuel => ?_, hcontinued.trans hcontinued', fun ns hns => ?_⟩
    · obtain ⟨k, rfl⟩ : ∃ k, fuel = k + 1 := ⟨fuel - 1, by omega⟩
      rw [whileEnds_succ htakes.going]
      exact hrun k (by rw [List.length_cons] at hfuel; omega)
    · rcases List.prefix_cons_iff.1 hns with rfl | ⟨t, rfl, ht⟩
      · rw [List.append_nil]
        exact hcontinued'.kept _ (hcontinued.kept _ hnames)
      · rw [List.append_cons]
        exact hall' t ht

end Loop

/-! ## The beginning and the end of a path -/

section Ends
variable {isspace : TCHAR → Bool} {s t : CString} {c d : TCHAR}

theorem reverseFind_lt {n : ℕ} (h : reverseFind c s = some n) : n < s.length := by
  induction s generalizing n with
  | nil => exact absurd h (by simp [reverseFind])
  | cons d s ih =>
    unfold reverseFind at h
    cases hs : reverseFind c s with
    | some k =>
      rw [hs] at h
      rw [← Option.some.inj h, List.length_cons]
      exact Nat.succ_lt_succ (ih hs)
    | none =>
      rw [hs] at h
      have hn : (if d == c then some 0 else none) = some n := h
      split at hn
      · rw [← Option.some.inj hn]
        exact Nat.succ_pos s.length
      · exact absurd hn (by simp)

theorem reverseFind_concat (s : CString) (c d : TCHAR) :
    reverseFind c (s ++ [d]) = if d == c then some s.length else reverseFind c s := by
  induction s with
  | nil => rfl
  | cons x s ih =>
    rw [List.cons_append, reverseFind, ih]
    by_cases hd : (d == c) = true
    · rw [if_pos hd, if_pos hd]
      rfl
    · rw [if_neg hd, if_neg hd]
      rfl

theorem trimRight_concat (h : isspace d = false) : (s ++ [d]).rdropWhile isspace = s ++ [d] :=
  List.rdropWhile_concat_neg isspace s d (by rw [h]; exact Bool.false_ne_true)

theorem unterminate_slash (h : isspace 0x5c = false) (s : CString) : unterminatePath isspace (s ++ [0x5c]) = s := by
  unfold unterminatePath
  rw [trimRight_concat h]
  dsimp only
  rw [reverseFind_concat, if_pos (beq_self_eq_true _), List.length_append, List.length_singleton, if_pos]
  · rw [Nat.add_sub_cancel, List.take_left]
  · unfold position
    push_cast
    omega

theorem unterminate_other (h : isspace d = false) (hd : d ≠ 0x5c) (s : CString) :
    unterminatePath isspace (s ++ [d]) = s ++ [d] := by
  unfold unterminatePath
  rw [trimRight_concat h]
  dsimp only
  have hbeq : (d == 0x5c) = false := beq_eq_false_iff_ne.2 hd
  rw [reverseFind_concat, hbeq, if_neg Bool.false_ne_true, if_neg]
  rw [List.length_append, List.length_singleton]
  cases hfind : reverseFind 0x5c s with
  | none =>
    unfold position
    push_cast
    omega
  | some n =>
    have hlt := reverseFind_lt hfind
    unfold position
    push_cast
    omega

theorem find_none (h : c ∉ s) (sub : CString) : find (c :: sub) s = none := by
  induction s with
  | nil => rfl
  | cons x s ih =>
    rw [List.mem_cons, not_or] at h
    have hbeq : (c == x) = false := beq_eq_false_iff_ne.2 h.1
    unfold find
    rw [List.isPrefixOf, hbeq, Bool.false_and, if_neg Bool.false_ne_true, ih h.2]
    rfl

/-- Of a drive three letters are pulled off, of a share two. -/
theorem startLength_drive (letter : TCHAR) (s : CString) : startLength (letter :: colon :: 0x5c :: s) = 3 := by
  have hfind : find [0x3a, 0x5c] (letter :: colon :: 0x5c :: s) = some 1 := by
    have hfirst : [0x3a, 0x5c].isPrefixOf (letter :: colon :: 0x5c :: s) = false := by simp [colon, List.isPrefixOf]
    have hsecond : [0x3a, 0x5c].isPrefixOf (colon :: 0x5c :: s) = true := by simp [colon, List.isPrefixOf]
    rw [find, hfirst, if_neg Bool.false_ne_true, find, if_pos hsecond]
    rfl
  unfold startLength
  rw [hfind]

theorem startLength_share (h : colon ∉ s) : startLength (0x5c :: 0x5c :: s) = 2 := by
  have hnone : find [0x3a, 0x5c] (0x5c :: 0x5c :: s) = none := by
    apply find_none
    intro hmem
    rcases List.mem_cons.1 hmem with heq | hmem
    · exact absurd heq (by decide)
    · rcases List.mem_cons.1 hmem with heq | hmem
      · exact absurd heq (by decide)
      · exact h hmem
  have hfind : find [0x5c, 0x5c] (0x5c :: 0x5c :: s) = some 0 := by
    rw [find, if_pos (by simp [List.isPrefixOf])]
  unfold startLength
  rw [hnone, hfind]

theorem mem_joined {names : List CString} (h : c ∈ joined names) : c = 0x5c ∨ ∃ n ∈ names, c ∈ n := by
  induction names with
  | nil => exact absurd h List.not_mem_nil
  | cons n names ih =>
    have hsplit : c ∈ 0x5c :: (n ++ joined names) := h
    rcases List.mem_cons.1 hsplit with heq | hmem
    · exact Or.inl heq
    · rcases List.mem_append.1 hmem with hmem | hmem
      · exact Or.inr ⟨n, List.mem_cons_self, hmem⟩
      · exact (ih hmem).imp_right fun ⟨k, hk, hc⟩ => ⟨k, List.mem_cons_of_mem n hk, hc⟩

end Ends

/-- The names without one empty name at the end. -/
def unterminated (names : List CString) : List CString := if names.getLast? = some [] then names.dropLast else names

section Whole
variable {v : Volume σ} {isspace : TCHAR → Bool} {isName : CString → Prop} {root : RootFolder} {W : σ → Prop} {d : σ}
variable {names : List CString}

/-- The server and the share have proper names. -/
def RootFolder.Proper (isName : CString → Prop) : RootFolder → Prop
  | .drive _ => True
  | .share server name => isName server ∧ isName name

theorem unterminate_name (hw : Writable v isspace isName root W) (s : CString) {n : CString}
    (hn : isName n) : unterminatePath isspace (s ++ n) = s ++ n := by
  obtain ⟨hne, hno, -, hlast⟩ := hw.name n hn
  obtain ⟨m, c, rfl⟩ : ∃ m c, n = m ++ [c] := ⟨n.dropLast, n.getLast hne, (List.dropLast_append_getLast hne).symm⟩
  rw [← List.append_assoc]
  refine unterminate_other (hlast c List.getLast?_concat) (fun heq => hno ?_) (s ++ m)
  rw [← heq]
  exact List.mem_append_right m List.mem_cons_self

theorem unterminate_path (root : RootFolder) (hslash : isspace 0x5c = false) (hw : Writable v isspace isName root W)
    (hall : ∀ n ∈ names, n = [] ∨ isName n) (hproper : root.Proper isName)
    (hdrive : ∀ letter, root = .drive letter → names ≠ []) :
    unterminatePath isspace (root.base ++ joined names) = root.base ++ joined (unterminated names) := by
  unfold unterminated
  cases names using List.reverseRecOn with
  | nil =>
    cases root with
    | drive letter => exact absurd rfl (hdrive letter rfl)
    | share server name =>
      have hbase : (RootFolder.share server name).base ++ joined [] = (0x5c :: 0x5c :: server ++ [0x5c]) ++ name := by
        simp [RootFolder.base, joined]
      have hnone : ¬ ([] : List CString).getLast? = some [] := by simp
      rw [if_neg hnone, hbase]
      exact unterminate_name hw _ hproper.2
  | append_singleton ns n =>
    have hsplit : joined (ns ++ [n]) = joined ns ++ [0x5c] ++ n := by
      rw [joined_append]
      simp [joined]
    rw [hsplit, List.getLast?_concat]
    by_cases hn : n = []
    · subst hn
      rw [if_pos rfl, List.dropLast_concat, List.append_nil, ← List.append_assoc]
      exact unterminate_slash hslash _
    · have hname : isName n := (hall n (List.mem_append_right ns List.mem_cons_self)).resolve_left hn
      have hne : ¬ some n = some [] := fun heq => hn (Option.some.inj heq)
      rw [if_neg hne, hsplit, ← List.append_assoc]
      exact unterminate_name hw _ hname

theorem path_drive (letter : TCHAR) (h : names ≠ []) :
    (RootFolder.drive letter).path names = [letter, colon] ++ joined names := by
  cases names with
  | nil => exact absurd rfl h
  | cons n names => rfl

theorem ancestors_exist (hw : Writable v isspace isName root W) (hW : W d)
    (h : v.folderExists d (root.path names) = true) : ∀ ns, ns <+: names → v.folderExists d (root.path ns) = true := by
  induction names using List.reverseRecOn with
  | nil =>
    intro ns hns
    rw [List.prefix_nil.1 hns]
    exact h
  | append_singleton names n ih =>
    intro ns hns
    rcases List.prefix_concat_iff.1 hns with rfl | hns
    · exact h
    · exact ih (hw.parent d names n hW h) ns hns

/-- What exists for all names but an empty one at the end exists for all of them. -/
theorem unterminated_exist (hw : Writable v isspace isName root W) (hW : W d)
    (h : ∀ ns, ns <+: unterminated names → v.folderExists d (root.path ns) = true) :
    ∀ ns, ns <+: names → v.folderExists d (root.path ns) = true := by
  unfold unterminated at h
  by_cases hlast : names.getLast? = some []
  · obtain ⟨ns', rfl⟩ := List.getLast?_eq_some_iff.1 hlast
    rw [if_pos hlast, List.dropLast_concat] at h
    intro ns hns
    rcases List.prefix_concat_iff.1 hns with rfl | hns
    · exact hw.slash d ns' hW (h ns' (List.prefix_refl ns'))
    · exact h ns hns
  · rw [if_neg hlast] at h
    exact h

theorem path_length (root : RootFolder) (names : List CString) {n : CString} (hn : n ≠ []) :
    root.base.length + 2 ≤ (root.path (names ++ [n])).length := by
  have hpos := List.length_pos_iff.2 hn
  rw [path_concat, List.length_append, List.length_append, List.length_cons]
  omega

theorem not_fixed (hw : Writable v isspace isName root W) {n : CString} (hn : isName n) (ns : List CString) :
    root.path (ns ++ [n]) ∉ root.fixed := by
  have hlong := path_length root ns (hw.name n hn).1
  intro hmem
  cases root with
  | drive letter =>
    rcases List.mem_cons.1 hmem with heq | hmem
    · rw [heq] at hlong
      simp [RootFolder.base] at hlong
    · rw [List.mem_singleton.1 hmem] at hlong
      simp [RootFolder.base] at hlong
  | share server name =>
    rcases List.mem_cons.1 hmem with heq | hmem
    · rw [heq] at hlong
      simp [RootFolder.base, serverText] at hlong
      omega
    · rw [List.mem_singleton.1 hmem] at hlong
      omega

/-- A folder that exists is left as it is. -/
theorem creates_existing (hw : Writable v isspace isName root W) (hW : W d)
    (h : v.folderExists d (root.path names) = true) : Creates v isspace d root names := by
  refine ⟨d, [], ⟨0, fun fuel _ => ?_⟩, ancestors_exist hw hW h, fun s hs => absurd hs List.not_mem_nil⟩
  unfold createFolder
  rw [if_pos h]

/-- What the loop leaves makes the whole call right. -/
theorem creates_of_loop (hw : Writable v isspace isName root W) (hne : v.folderExists d (root.path names) = false)
    {s' : Creation σ} (turns : ℕ)
    (hrun : ∀ fuel, turns < fuel → whileEnds Creation.going (fun s => s.takePiece.provide v) fuel
      (Creation.start isspace d (root.path names)) = some s')
    (hcontinued : Continued v isName root W (Creation.start isspace d (root.path names)) s')
    (hall : ∀ ns, ns <+: unterminated names → v.folderExists s'.disk (root.path ns) = true) :
    Creates v isspace d root names := by
  refine ⟨s'.disk, s'.tried, ⟨turns + 1, fun fuel hfuel => ?_⟩, unterminated_exist hw hcontinued.writable hall,
    fun t ht => ?_⟩
  · unfold createFolder
    rw [hne, if_neg Bool.false_ne_true, hrun fuel (by omega), Option.map_some, hcontinued.bResult]
  · rcases hcontinued.tried t ht with ht | ⟨ns, n, hn, rfl⟩
    · exact absurd ht List.not_mem_nil
    · exact not_fixed hw hn ns

theorem mem_unterminated {n : CString} (h : n ∈ unterminated names) : n ∈ names := by
  unfold unterminated at h
  split at h
  · exact (List.dropLast_sublist names).subset h
  · exact h

/-- Below a drive root that exists there are names left. -/
theorem drive_names {letter : TCHAR} (hw : Writable v isspace isName (.drive letter) W) (hW : W d)
    (hne : v.folderExists d ((RootFolder.drive letter).path names) = false) :
    names ≠ [] ∧ ∃ n rest, unterminated names = n :: rest := by
  have hroot := hw.rooted d hW
  have hnames : names ≠ [] := by
    rintro rfl
    rw [hroot] at hne
    exact Bool.noConfusion hne
  refine ⟨hnames, List.exists_cons_of_ne_nil fun hnil => ?_⟩
  unfold unterminated at hnil
  split at hnil
  · rename_i hlast
    obtain ⟨ns, rfl⟩ := List.getLast?_eq_some_iff.1 hlast
    rw [List.dropLast_concat] at hnil
    rw [hnil, hw.slash d [] hW hroot] at hne
    exact Bool.noConfusion hne
  · exact hnames hnil

theorem start_drive {letter : TCHAR} (hw : Writable v isspace isName (.drive letter) W) (hslash : isspace 0x5c = false)
    (hall : ∀ n ∈ names, n = [] ∨ isName n) (hnames : names ≠ []) {n : CString} {rest : List CString}
    (hun : unterminated names = n :: rest) :
    Creation.start isspace d ((RootFolder.drive letter).path names) =
      ⟨[letter, colon, 0x5c], n ++ joined rest, false, true, d, []⟩ := by
  have htext := unterminate_path (.drive letter) hslash hw hall trivial fun _ _ => hnames
  have hletters : (RootFolder.drive letter).base ++ joined (n :: rest) =
      letter :: colon :: 0x5c :: (n ++ joined rest) := rfl
  rw [hun, hletters] at htext
  unfold Creation.start
  rw [path_drive letter hnames]
  have hbase : unterminatePath isspace ([letter, colon] ++ joined names) = _ := htext
  rw [hbase]
  dsimp only
  rw [startLength_drive]
  rfl

theorem creates_drive (hv : v.Documented) {letter : TCHAR} (hw : Writable v isspace isName (.drive letter) W)
    (hslash : isspace 0x5c = false) (hW : W d) (hall : ∀ n ∈ names, n = [] ∨ isName n)
    (hne : v.folderExists d ((RootFolder.drive letter).path names) = false) :
    Creates v isspace d (.drive letter) names := by
  have hroot := hw.rooted d hW
  obtain ⟨hnames, n, rest, hun⟩ := drive_names hw hW hne
  have hrest : ∀ m ∈ n :: rest, m = [] ∨ isName m := fun m hm => hall m (mem_unterminated (hun ▸ hm))
  have hstart := start_drive (d := d) hw hslash hall hnames hun
  have hgoing : (Creation.start isspace d ((RootFolder.drive letter).path names)).going = true := by
    rw [hstart]
    rfl
  cases n with
  | cons x m =>
    have htakes : Takes (.drive letter) [] (x :: m) rest
        (Creation.start isspace d ((RootFolder.drive letter).path names)) := by
      refine takes_of _ hgoing (m := m) (x := x) (fun hmem => ?_) (by rw [hstart]; rfl) ?_
      · exact hw.no_slash (hrest _ List.mem_cons_self) (List.mem_cons_of_mem x hmem)
      · rw [hstart]
        exact (List.append_nil _).symm
    obtain ⟨s', hrun, hcontinued, hexist⟩ := loop_creates hv hw rest [] (x :: m) _ htakes hW hroot hrest
    refine creates_of_loop hw hne rest.length hrun hcontinued ?_
    rw [hun]
    exact hexist
  | nil =>
    have hslashed := hw.slash d [] hW hroot
    cases rest with
    | nil =>
      -- only the root is left, which exists
      have hturn : (Creation.start isspace d ((RootFolder.drive letter).path names)).takePiece.provide v =
          ⟨[letter, colon, 0x5c], [], true, true, d, []⟩ := by
        rw [hstart]
        exact if_pos hroot
      have hrun : ∀ fuel, 0 < fuel → whileEnds Creation.going (fun s => s.takePiece.provide v) fuel
          (Creation.start isspace d ((RootFolder.drive letter).path names)) =
            some ⟨[letter, colon, 0x5c], [], true, true, d, []⟩ := by
        intro fuel hfuel
        obtain ⟨k, rfl⟩ : ∃ k, fuel = k + 1 := ⟨fuel - 1, by omega⟩
        rw [whileEnds_succ hgoing, hturn]
        exact whileEnds_done rfl k
      refine creates_of_loop hw hne 0 hrun ⟨hW, rfl, fun t ht => ht, fun t ht => Or.inl ht⟩ fun ns hns => ?_
      rw [hun] at hns
      rcases List.prefix_cons_iff.1 hns with rfl | ⟨t, rfl, ht⟩
      · exact hroot
      · rw [List.prefix_nil.1 ht]
        exact hslashed
    | cons m rest =>
      have htakes : Takes (.drive letter) [[]] m rest
          (Creation.start isspace d ((RootFolder.drive letter).path names)) := by
        refine takes_joined _ hgoing ?_ (by rw [hstart]; rfl) (by rw [hstart]; rfl)
        exact hw.no_slash (hrest m (List.mem_cons_of_mem _ List.mem_cons_self))
      obtain ⟨s', hrun, hcontinued, hexist⟩ :=
        loop_creates hv hw rest [[]] m _ htakes hW hslashed fun k hk => hrest k (List.mem_cons_of_mem _ hk)
      refine creates_of_loop hw hne rest.length hrun hcontinued fun ns hns => ?_
      rw [hun] at hns
      rcases List.prefix_cons_iff.1 hns with rfl | ⟨t, rfl, ht⟩
      · exact hcontinued.kept _ hroot
      · exact hexist t ht

end Whole

end StarLib.FileMisc
