import StarLib.FileMisc.Create

/-! # Folders on shares

The loop of `CreateFolder` comes to the server before it comes to the share. The server is no folder, so that it is tried
to create it.
-/

namespace StarLib.FileMisc
open Foundations
set_option autoImplicit false
set_option maxHeartbeats 250000
set_option maxRecDepth 120000

variable {σ : Type}

section Shares
variable {v : Volume σ} {isspace : TCHAR → Bool} {isName : CString → Prop} {root : RootFolder} {W : σ → Prop} {d : σ}
variable {names : List CString} {server name : CString}

theorem start_share (hw : Writable v isspace isName (.share server name) W) (hslash : isspace 0x5c = false)
    (hall : ∀ n ∈ names, n = [] ∨ isName n) (hproper : isName server ∧ isName name) :
    Creation.start isspace d ((RootFolder.share server name).path names) =
      ⟨[0x5c, 0x5c], server ++ joined (name :: unterminated names), false, true, d, []⟩ := by
  have htext := unterminate_path (.share server name) hslash hw hall hproper fun letter h => by cases h
  have hletters : (RootFolder.share server name).base ++ joined (unterminated names) =
      0x5c :: 0x5c :: (server ++ joined (name :: unterminated names)) := by
    simp [RootFolder.base, joined]
  have hcolon : colon ∉ server ++ joined (name :: unterminated names) := by
    intro hmem
    rcases List.mem_append.1 hmem with hmem | hmem
    · exact (hw.name server hproper.1).2.2.1 hmem
    · rcases mem_joined hmem with heq | ⟨n, hn, hletter⟩
      · exact absurd heq (by decide)
      · rcases List.mem_cons.1 hn with heq | hn
        · rw [heq] at hletter
          exact (hw.name name hproper.2).2.2.1 hletter
        · rcases hall n (mem_unterminated hn) with heq | hname
          · rw [heq] at hletter
            exact List.not_mem_nil hletter
          · exact (hw.name n hname).2.2.1 hletter
  have hpath : unterminatePath isspace ((RootFolder.share server name).path names) = _ := htext.trans hletters
  unfold Creation.start
  rw [hpath]
  dsimp only
  rw [startLength_share hcolon]
  rfl

/-- The first turn comes to the server. -/
theorem first_piece (hw : Writable v isspace isName (.share server name) W) (hserver : isName server)
    (rest : List CString) (d : σ) :
    Creation.takePiece ⟨[0x5c, 0x5c], server ++ joined (name :: rest), false, true, d, []⟩ =
      ⟨serverText server, joined (name :: rest), false, true, d, []⟩ := by
  obtain ⟨hne, hno, -, -⟩ := hw.name server hserver
  obtain ⟨x, m, rfl⟩ := List.exists_cons_of_ne_nil hne
  exact takePiece_next _ (fun hmem => hno (List.mem_cons_of_mem x hmem)) (List.cons_ne_nil name rest) rfl

/-- A server that passes for a folder lets the loop come to the share. -/
theorem creates_share (hv : v.Documented) (hw : Writable v isspace isName (.share server name) W)
    (hslash : isspace 0x5c = false) (hW : W d) (hall : ∀ n ∈ names, n = [] ∨ isName n)
    (hproper : isName server ∧ isName name) (hne : v.folderExists d ((RootFolder.share server name).path names) = false)
    (hserver : v.folderExists d (serverText server) = true) : Creates v isspace d (.share server name) names := by
  have hroot := hw.rooted d hW
  have hbase : serverText server ++ 0x5c :: name = (RootFolder.share server name).path [] := by
    simp [RootFolder.path, RootFolder.base, serverText, joined]
  have hno : 0x5c ∉ name := (hw.name name hproper.2).2.1
  have hfirst : (Creation.start isspace d ((RootFolder.share server name).path names)).takePiece.provide v =
      ⟨serverText server, joined (name :: unterminated names), false, true, d, []⟩ := by
    rw [start_share hw hslash hall hproper, first_piece hw hproper.1]
    exact if_pos hserver
  have hgoing : (Creation.start isspace d ((RootFolder.share server name).path names)).going = true := by
    rw [start_share hw hslash hall hproper]
    rfl
  cases hun : unterminated names with
  | nil =>
    rw [hun] at hfirst
    have hsecond : (Creation.takePiece (⟨serverText server, joined [name], false, true, d, []⟩ : Creation σ)).provide v =
        ⟨(RootFolder.share server name).path [], joined [name], true, true, d, []⟩ := by
      rw [takePiece_last _ hno (List.append_nil _), hbase]
      exact if_pos hroot
    have hrun : ∀ fuel, 1 < fuel → whileEnds Creation.going (fun s => s.takePiece.provide v) fuel
        (Creation.start isspace d ((RootFolder.share server name).path names)) =
          some ⟨(RootFolder.share server name).path [], joined [name], true, true, d, []⟩ := by
      intro fuel hfuel
      obtain ⟨k, rfl⟩ : ∃ k, fuel = k + 2 := ⟨fuel - 2, by omega⟩
      rw [whileEnds_succ hgoing, hfirst, whileEnds_succ rfl, hsecond]
      exact whileEnds_done rfl k
    refine creates_of_loop hw hne 1 hrun ⟨hW, rfl, fun t ht => ht, fun t ht => Or.inl ht⟩ fun ns hns => ?_
    rw [hun] at hns
    rw [List.prefix_nil.1 hns]
    exact hroot
  | cons n rest =>
    rw [hun] at hfirst
    have hrest : ∀ m ∈ n :: rest, m = [] ∨ isName m := fun m hm => hall m (mem_unterminated (hun ▸ hm))
    have hsecond : (Creation.takePiece
        (⟨serverText server, joined (name :: n :: rest), false, true, d, []⟩ : Creation σ)).provide v =
        ⟨(RootFolder.share server name).path [], joined (n :: rest), false, true, d, []⟩ := by
      rw [takePiece_next _ hno (List.cons_ne_nil n rest) rfl, hbase]
      exact if_pos hroot
    have htakes : Takes (.share server name) [] n rest
        (⟨(RootFolder.share server name).path [], joined (n :: rest), false, true, d, []⟩ : Creation σ) :=
      takes_joined _ rfl (hw.no_slash (hrest n List.mem_cons_self)) rfl rfl
    obtain ⟨s', hrun, hcontinued, hexist⟩ := loop_creates hv hw rest [] n _ htakes hW hroot hrest
    have hwhole : ∀ fuel, rest.length + 2 < fuel → whileEnds Creation.going (fun s => s.takePiece.provide v) fuel
        (Creation.start isspace d ((RootFolder.share server name).path names)) = some s' := by
      intro fuel hfuel
      obtain ⟨k, rfl⟩ : ∃ k, fuel = k + 2 := ⟨fuel - 2, by omega⟩
      rw [whileEnds_succ hgoing, hfirst, whileEnds_succ rfl, hsecond]
      exact hrun k (by omega)
    refine creates_of_loop hw hne (rest.length + 2) hwhole ?_ ?_
    · exact ⟨hcontinued.writable, hcontinued.bResult, hcontinued.kept, hcontinued.tried⟩
    · rw [hun]
      exact hexist

theorem tried_stays {t : CString} {s s' : Creation σ} {fuel : ℕ} (ht : t ∈ s.tried)
    (h : whileEnds Creation.going (fun s => s.takePiece.provide v) fuel s = some s') : t ∈ s'.tried := by
  have htake : ∀ s : Creation σ, s.takePiece.tried = s.tried := by
    intro s
    unfold Creation.takePiece
    split <;> rfl
  have hturn : ∀ s : Creation σ, t ∈ s.tried → s.going = true → t ∈ (s.takePiece.provide v).tried := by
    intro s hs _
    rw [← htake] at hs
    unfold Creation.provide
    split
    · exact hs
    · exact List.mem_append_left _ hs
  exact whileEnds_inv (fun s => t ∈ s.tried) hturn ht h

theorem server_tried (hw : Writable v isspace isName (.share server name) W) (hslash : isspace 0x5c = false)
    (hall : ∀ n ∈ names, n = [] ∨ isName n) (hproper : isName server ∧ isName name)
    (hne : v.folderExists d ((RootFolder.share server name).path names) = false)
    (hserver : v.folderExists d (serverText server) = false) : ¬ Creates v isspace d (.share server name) names := by
  rintro ⟨d', tried, ⟨turns, hturns⟩, -, hfixed⟩
  have hrun := hturns (turns + 1) (Nat.le_succ turns)
  have hgoing : (Creation.start isspace d ((RootFolder.share server name).path names)).going = true := by
    rw [start_share hw hslash hall hproper]
    rfl
  unfold createFolder at hrun
  rw [hne, if_neg Bool.false_ne_true, whileEnds_succ hgoing] at hrun
  obtain ⟨s', hend, hs'⟩ := Option.map_eq_some_iff.1 hrun
  rw [Prod.mk.injEq, Prod.mk.injEq] at hs'
  refine hfixed (serverText server) ?_ List.mem_cons_self
  rw [← hs'.2.2]
  refine tried_stays ?_ hend
  rw [start_share hw hslash hall hproper, first_piece hw hproper.1]
  unfold Creation.provide
  dsimp only
  rw [hserver, if_neg Bool.false_ne_true]
  exact List.mem_append_right _ List.mem_cons_self

end Shares

/-! ## A disk -/

/-- The pieces between the backslashes. -/
def splits : CString → List CString
  | [] => [[]]
  | c :: s =>
    if c == 0x5c then [] :: splits s
    else
      match splits s with
      | [] => [[c]]
      | p :: ps => (c :: p) :: ps

def pieces (s : CString) : Path := (splits s).filter fun p => !p.isEmpty

theorem splits_append (s t : CString) : splits (s ++ 0x5c :: t) = splits s ++ splits t := by
  have hne : ∀ s : CString, splits s ≠ [] := by
    intro s
    cases s with
    | nil => exact List.cons_ne_nil _ _
    | cons c s =>
      unfold splits
      split
      · exact List.cons_ne_nil _ _
      · split <;> exact List.cons_ne_nil _ _
  induction s with
  | nil => rfl
  | cons c s ih =>
    rw [List.cons_append, splits, ih, splits]
    split
    · rfl
    · obtain ⟨p, ps, hp⟩ := List.exists_cons_of_ne_nil (hne s)
      rw [hp]
      rfl

theorem pieces_append (s t : CString) : pieces (s ++ 0x5c :: t) = pieces s ++ pieces t := by
  unfold pieces
  rw [splits_append, List.filter_append]

theorem pieces_name {n : CString} (hne : n ≠ []) (h : 0x5c ∉ n) : pieces n = [n] := by
  have hsplits : splits n = [n] := by
    clear hne
    induction n with
    | nil => rfl
    | cons c n ih =>
      rw [List.mem_cons, not_or] at h
      have hbeq : (c == 0x5c) = false := beq_eq_false_iff_ne.2 (Ne.symm h.1)
      rw [splits, hbeq, if_neg Bool.false_ne_true, ih h.2]
  unfold pieces
  rw [hsplits]
  cases n with
  | nil => exact absurd rfl hne
  | cons c n => rfl

/-- A disk is the list of its folders; a folder can be created in one that exists. -/
def sampleVolume : Volume (List Path) :=
  ⟨fun d s => if pieces s ∈ d then 0x10 else 0xffffffff,
    fun d s => if pieces s ∉ d ∧ (pieces s).dropLast ∈ d then (true, pieces s :: d) else (false, d)⟩

/-- The names without separators and colons that do not end with a blank. -/
def IsPlainName (n : CString) : Prop := n ≠ [] ∧ 0x5c ∉ n ∧ colon ∉ n ∧ ∀ c ∈ n.getLast?, isBlank c = false

/-- The root is there, and above every folder below it what it is in. -/
def Rooted (root : RootFolder) (d : List Path) : Prop :=
  pieces root.base ∈ d ∧ ∀ p q, p ++ q ∈ d → pieces root.base <+: p → p ∈ d

theorem sample_exists {d : List Path} {s : CString} (hs : s ≠ []) :
    sampleVolume.folderExists d s = true ↔ pieces s ∈ d := by
  have hempty : s.isEmpty = false := by
    cases s with
    | nil => exact absurd rfl hs
    | cons c s => rfl
  unfold Volume.folderExists sampleVolume
  rw [hempty, Bool.false_or]
  dsimp only
  by_cases h : pieces s ∈ d
  · rw [if_pos h]
    exact iff_of_true (by decide) h
  · rw [if_neg h]
    exact iff_of_false (by decide) h

theorem pieces_path (root : RootFolder) (names : List CString) :
    pieces (root.path names) = pieces (root.base ++ joined names) := by
  have hroot : ∀ letter,
      pieces (RootFolder.drive letter).base = pieces ((RootFolder.drive letter).base ++ 0x5c :: []) := by
    intro letter
    rw [pieces_append]
    exact (List.append_nil _).symm
  cases root with
  | share server name => rfl
  | drive letter =>
    cases names with
    | nil => exact (hroot letter).symm
    | cons n names => rfl

theorem pieces_concat (root : RootFolder) (names : List CString) (n : CString) :
    pieces (root.path (names ++ [n])) = pieces (root.path names) ++ pieces n := by
  rw [path_concat, pieces_append, pieces_path]

theorem base_begins (root : RootFolder) (names : List CString) : pieces root.base <+: pieces (root.path names) := by
  induction names using List.reverseRecOn with
  | nil =>
    refine ⟨[], ?_⟩
    rw [pieces_path, joined, List.append_nil, List.append_nil]
  | append_singleton names n ih =>
    rw [pieces_concat]
    exact ih.trans (List.prefix_append _ _)

theorem path_ne_nil (root : RootFolder) (names : List CString) : root.path names ≠ [] := by
  cases root with
  | share server name => exact List.cons_ne_nil _ _
  | drive letter =>
    cases names with
    | nil => exact List.cons_ne_nil _ _
    | cons n names => exact List.cons_ne_nil _ _

theorem sampleVolume_documented : sampleVolume.Documented := by
  constructor
  · intro d s hcreated
    by_cases hs : s = []
    · rw [hs]
      rfl
    · rw [sample_exists hs]
      unfold sampleVolume at hcreated ⊢
      dsimp only at hcreated ⊢
      split at hcreated
      · rename_i hnew
        rw [if_pos hnew]
        exact List.mem_cons_self
      · exact Bool.noConfusion hcreated
  · intro d s t ht
    by_cases hne : t = []
    · rw [hne]
      rfl
    · rw [sample_exists hne] at ht ⊢
      unfold sampleVolume
      dsimp only
      split
      · exact List.mem_cons_of_mem _ ht
      · exact ht

theorem sampleVolume_writable (root : RootFolder) : Writable sampleVolume isBlank IsPlainName root (Rooted root) := by
  refine ⟨fun n hn => hn, fun d hd => ?_, fun d names n hd h => ?_, fun d names hd h => ?_,
    fun d names n hd h hn hnot => ?_, fun d s hd => ?_⟩
  · rw [sample_exists (path_ne_nil root []), pieces_path, joined, List.append_nil]
    exact hd.1
  · rw [sample_exists (path_ne_nil root _)] at h ⊢
    rw [pieces_concat] at h
    exact hd.2 _ _ h (base_begins root names)
  · rw [sample_exists (path_ne_nil root _)] at h ⊢
    rw [pieces_concat]
    exact (List.append_nil (pieces (root.path names))).symm ▸ h
  · have hnew : pieces (root.path (names ++ [n])) ∉ d := by
      rw [← sample_exists (path_ne_nil root _), hnot]
      exact Bool.false_ne_true
    have hparent : (pieces (root.path (names ++ [n]))).dropLast ∈ d := by
      rw [pieces_concat, pieces_name hn.1 hn.2.1, List.dropLast_concat, ← sample_exists (path_ne_nil root _)]
      exact h
    unfold sampleVolume
    dsimp only
    rw [if_pos ⟨hnew, hparent⟩]
  · unfold sampleVolume
    dsimp only
    split
    · rename_i hnew
      refine ⟨List.mem_cons_of_mem _ hd.1, fun p q hpq hp => ?_⟩
      rcases List.mem_cons.1 hpq with heq | hmem
      · cases q using List.reverseRecOn with
        | nil =>
          rw [List.append_nil] at heq
          rw [heq]
          exact List.mem_cons_self
        | append_singleton q n =>
          have hdrop := hnew.2
          rw [← heq, ← List.append_assoc, List.dropLast_concat] at hdrop
          exact List.mem_cons_of_mem _ (hd.2 p q hdrop hp)
      · exact List.mem_cons_of_mem _ (hd.2 p q hmem hp)
    · exact hd

/-- Only the root is there. -/
def bareDisk (root : RootFolder) : List Path := [pieces root.base]

theorem bareDisk_rooted (root : RootFolder) : Rooted root (bareDisk root) := by
  refine ⟨List.mem_cons_self, fun p q hpq hp => ?_⟩
  have heq : p ++ q = pieces root.base := List.mem_singleton.1 hpq
  have hlength := congrArg List.length heq
  have hle := hp.length_le
  rw [List.length_append] at hlength
  have hq : q = [] := List.length_eq_zero_iff.1 (by omega)
  rw [hq, List.append_nil] at heq
  rw [heq]
  exact List.mem_cons_self

theorem sampleNames_plain : ∀ n ∈ [[0x61], []], n = [] ∨ IsPlainName n := by
  have ha : IsPlainName [0x61] := ⟨by decide, by decide, by decide, by decide⟩
  intro n hn
  rcases List.mem_cons.1 hn with rfl | hn
  · exact Or.inr ha
  · exact Or.inl (List.mem_singleton.1 hn)

end StarLib.FileMisc
