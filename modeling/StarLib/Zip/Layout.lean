import StarLib.Zip.Writer

/-! # What an archive looks like

Records, a directory of them, and the end. Writing is a matter of what stands where as long as the block of memory has
room: then every call puts its bytes behind what has been written so far.
-/

namespace StarLib.Zip
open Foundations
set_option autoImplicit false
set_option maxHeartbeats 250000
set_option maxRecDepth 120000

/-! ## The format -/

def localBytes (z : TZipFileInfo) : List Byte :=
  leBytes 4 LOCSIG ++ (leBytes 2 z.ver ++ (leBytes 2 z.lflg ++ (leBytes 2 z.how ++ (leBytes 4 z.tim ++ (leBytes 4 z.crc ++
    (leBytes 4 z.siz ++ (leBytes 4 z.len ++ (leBytes 2 z.iname.length ++ (leBytes 2 z.extra.length ++
      (z.iname ++ z.extra))))))))))

def extendedBytes (z : TZipFileInfo) : List Byte :=
  leBytes 4 EXTLOCSIG ++ (leBytes 4 z.crc ++ (leBytes 4 z.siz ++ leBytes 4 z.len))

def centralBytes (z : TZipFileInfo) : List Byte :=
  leBytes 4 CENSIG ++ (leBytes 2 z.vem ++ (leBytes 2 z.ver ++ (leBytes 2 z.flg ++ (leBytes 2 z.how ++ (leBytes 4 z.tim ++
    (leBytes 4 z.crc ++ (leBytes 4 z.siz ++ (leBytes 4 z.len ++ (leBytes 2 z.iname.length ++
      (leBytes 2 z.cextra.length ++ (leBytes 2 0 ++ (leBytes 2 z.dsk ++ (leBytes 2 z.att ++ (leBytes 4 z.atx ++
        (leBytes 4 z.off ++ (z.iname ++ z.cextra))))))))))))))))

def endBytes (n s c : ℕ) : List Byte :=
  leBytes 4 ENDSIG ++ (leBytes 2 0 ++ (leBytes 2 0 ++ (leBytes 2 n ++ (leBytes 2 n ++ (leBytes 4 s ++ (leBytes 4 c ++
    leBytes 2 0))))))

theorem localBytes_length (z : TZipFileInfo) : (localBytes z).length = 4 + LOCHEAD + z.iname.length + z.extra.length := by
  simp only [localBytes, List.length_append, leBytes_length, LOCHEAD]
  omega

theorem extendedBytes_length (z : TZipFileInfo) : (extendedBytes z).length = 16 := by
  simp only [extendedBytes, List.length_append, leBytes_length]

theorem centralBytes_length (z : TZipFileInfo) :
    (centralBytes z).length = 4 + CENHEAD + z.iname.length + z.cextra.length := by
  simp only [centralBytes, List.length_append, leBytes_length, CENHEAD]
  omega

theorem endBytes_length (n s c : ℕ) : (endBytes n s c).length = 4 + ENDHEAD := by
  simp only [endBytes, List.length_append, leBytes_length, ENDHEAD]

/-- A file of the archive: its header, what follows the header, and what the directory says of it. -/
structure Entry where
  header : TZipFileInfo
  body : List Byte
  info : TZipFileInfo

def Entry.bytes (e : Entry) : List Byte := localBytes e.header ++ e.body

def records (entries : List Entry) : List Byte := entries.flatMap Entry.bytes

def directory (entries : List Entry) : List Byte := entries.flatMap fun e => centralBytes e.info

def archive (entries : List Entry) : List Byte :=
  records entries ++
    (directory entries ++ endBytes entries.length (directory entries).length (records entries).length)

/-- Every entry knows where its record is. -/
def Offsets : ℕ → List Entry → Prop
  | _, [] => True
  | n, e :: entries => e.info.off = n ∧ Offsets (n + e.bytes.length) entries

theorem records_concat (entries : List Entry) (e : Entry) : records (entries ++ [e]) = records entries ++ e.bytes := by
  simp only [records, List.flatMap_append, List.flatMap_cons, List.flatMap_nil, List.append_nil]

theorem Offsets.concat {n : ℕ} {entries : List Entry} {e : Entry} (h : Offsets n entries)
    (he : e.info.off = n + (records entries).length) : Offsets n (entries ++ [e]) := by
  induction entries generalizing n with
  | nil => exact ⟨he, trivial⟩
  | cons e' entries ih =>
    refine ⟨h.1, ih h.2 ?_⟩
    rw [he, records, List.flatMap_cons, List.length_append, Nat.add_assoc]
    rfl

/-! ## What a call puts into the memory -/

namespace Output

/-- The bytes, encrypted where that is asked for, behind the others. -/
def put (out : Output) (buf : List Byte) : Output :=
  { out with
    obuf := overwrite out.obuf out.opos (if out.encwriting then (zencodes out.keys buf).1 else buf)
    opos := out.opos + buf.length
    keys := if out.encwriting then (zencodes out.keys buf).2 else out.keys }

/-- The place is in the memory. -/
def Inside (out : Output) : Prop := out.opos < out.obuf.length

theorem put_nil (out : Output) : out.put [] = out := by
  have hobuf : overwrite out.obuf out.opos [] = out.obuf := by
    rw [overwrite, List.append_nil, List.length_nil, Nat.add_zero, List.take_append_drop]
  cases out with
  | mk obuf opos oerr encwriting keys =>
    cases encwriting with
    | false => simp only [put, Bool.false_eq_true, if_false, List.length_nil, Nat.add_zero, hobuf]
    | true => simp only [put, if_true, zencodes, chainList, List.length_nil, Nat.add_zero, hobuf]

theorem overwrite_overwrite {α : Type*} {l a : List α} {i : ℕ} (b : List α) (h : i + a.length ≤ l.length) :
    overwrite (overwrite l i a) (i + a.length) b = overwrite l i (a ++ b) := by
  have hlength : (l.take i ++ a).length = i + a.length := by
    rw [List.length_append, List.length_take]
    omega
  unfold overwrite
  rw [← hlength, List.take_left, hlength, ← List.drop_drop, ← hlength, List.drop_left, hlength, List.drop_drop,
    List.length_append, Nat.add_assoc, List.append_assoc (l.take i)]

theorem put_put {out : Output} {a : List Byte} (b : List Byte) (h : out.opos + a.length ≤ out.obuf.length) :
    (out.put a).put b = out.put (a ++ b) := by
  cases out with
  | mk obuf opos oerr encwriting keys =>
    cases encwriting with
    | false =>
      simp only [put, Bool.false_eq_true, if_false, List.length_append, Nat.add_assoc]
      rw [overwrite_overwrite b h]
    | true =>
      have hover := overwrite_overwrite (l := obuf) (a := (zencodes keys a).1) (i := opos)
        (zencodes (zencodes keys a).2 b).1 (by rw [zencodes_length]; exact h)
      rw [zencodes_length] at hover
      simp only [put, if_true, List.length_append, Nat.add_assoc, zencodes_append, hover]

theorem put_obuf_length {out : Output} {buf : List Byte} (h : out.opos + buf.length ≤ out.obuf.length) :
    (out.put buf).obuf.length = out.obuf.length := by
  unfold put
  split
  · exact overwrite_length (by rw [zencodes_length]; exact h)
  · exact overwrite_length h

/-- As long as there is no error, the call puts these bytes into the memory; it never leaves it. -/
structure Puts (f : Output → Output) (buf : List Byte) : Prop where
  inside : ∀ out, out.Inside → (f out).Inside
  puts : ∀ out, out.Inside → (f out).oerr = .ZR_OK →
    out.oerr = .ZR_OK ∧ out.opos + buf.length < out.obuf.length ∧ f out = out.put buf
  fits : ∀ out, out.Inside → out.oerr = .ZR_OK → out.opos + buf.length < out.obuf.length → (f out).oerr = .ZR_OK

theorem Puts.eq_put {f : Output → Output} {buf : List Byte} (h : Puts f buf) {out : Output} (hin : out.Inside)
    (hok : out.oerr = .ZR_OK) (hroom : out.opos + buf.length < out.obuf.length) : f out = out.put buf :=
  (h.puts out hin (h.fits out hin hok hroom)).2.2

theorem Puts.comp {f g : Output → Output} {a b : List Byte} (hf : Puts f a) (hg : Puts g b) :
    Puts (fun out => g (f out)) (a ++ b) where
  inside out hin := hg.inside _ (hf.inside out hin)
  puts out hin h := by
    obtain ⟨hfOk, hroom, hput⟩ := hg.puts _ (hf.inside out hin) h
    obtain ⟨hok, hroom', hput'⟩ := hf.puts out hin hfOk
    rw [hput', put_obuf_length hroom'.le] at hroom
    have hopos : (out.put a).opos = out.opos + a.length := rfl
    refine ⟨hok, ?_, ?_⟩
    · rw [List.length_append]
      omega
    · show g (f out) = _
      rw [hput, hput', put_put b hroom'.le]
  fits out hin hok hroom := by
    rw [List.length_append] at hroom
    have hroom' : out.opos + a.length < out.obuf.length := by omega
    refine hg.fits _ (hf.inside out hin) (hf.fits out hin hok hroom') ?_
    rw [hf.eq_put hin hok hroom', put_obuf_length hroom'.le]
    show out.opos + a.length + b.length < _
    omega

theorem Puts.nil : Puts (fun out => out) [] where
  inside _ hin := hin
  puts out hin h := ⟨h, hin, (put_nil out).symm⟩
  fits _ _ hok _ := hok

theorem write_cases (out : Output) (buf : List Byte) :
    (out.opos + buf.length < out.obuf.length ∧ out.write buf = (buf.length, out.put buf)) ∨
      (out.obuf.length ≤ out.opos + buf.length ∧ (out.write buf).2.oerr = .ZR_MEMSIZE ∧
        (out.Inside → (out.write buf).2.Inside)) := by
  unfold write
  simp only
  by_cases hroom : out.obuf.length ≤ out.opos + buf.length
  · rw [if_pos hroom]
    exact Or.inr ⟨hroom, rfl, fun hin => hin⟩
  · rw [if_neg hroom]
    exact Or.inl ⟨Nat.lt_of_not_le hroom, rfl⟩

theorem write_puts (buf : List Byte) : Puts (fun out => (out.write buf).2) buf where
  inside out hin := by
    rcases write_cases out buf with ⟨hroom, hput⟩ | ⟨-, -, hkept⟩
    · simp only [hput, Inside, put_obuf_length hroom.le]
      exact hroom
    · exact hkept hin
  puts out hin h := by
    rcases write_cases out buf with ⟨hroom, hput⟩ | ⟨-, herr, -⟩
    · simp only [hput] at h ⊢
      exact ⟨h, hroom, trivial⟩
    · rw [herr] at h
      exact absurd h (by decide)
  fits out hin hok hroom := by
    rcases write_cases out buf with ⟨-, hput⟩ | ⟨hfull, -, -⟩
    · simp only [hput]
      exact hok
    · omega

theorem write_count {out : Output} {buf : List Byte} (h : (out.write buf).2.oerr = .ZR_OK) :
    (out.write buf).1 = buf.length := by
  rcases write_cases out buf with ⟨-, hput⟩ | ⟨-, herr, -⟩
  · rw [hput]
  · rw [herr] at h
    exact absurd h (by decide)

theorem swrite_puts (buf : List Byte) : Puts (fun out => (out.swrite buf).2) buf := by
  unfold swrite
  by_cases hempty : buf.length = 0
  · rw [List.eq_nil_of_length_eq_zero hempty]
    exact Puts.nil
  · simp only [hempty, if_false]
    exact write_puts buf

theorem swrite_count {out : Output} {buf : List Byte} (h : (out.swrite buf).2.oerr = .ZR_OK) :
    (out.swrite buf).1 = buf.length := by
  unfold swrite at h ⊢
  split at h
  · next hempty => rw [if_pos hempty, hempty]
  · next hfull =>
    rw [if_neg hfull]
    exact write_count h

theorem PUTSH_puts (a : ℕ) : Puts (PUTSH a) (leBytes 2 a) :=
  (swrite_puts [BitVec.ofNat 8 a]).comp (swrite_puts [BitVec.ofNat 8 (a / 256)])

theorem leBytes_four (a : ℕ) : leBytes 2 (a % 65536) ++ leBytes 2 (a / 65536) = leBytes 4 a := by
  have h0 : BitVec.ofNat 8 (a % 65536) = BitVec.ofNat 8 a := by
    apply BitVec.eq_of_toNat_eq
    simp only [BitVec.toNat_ofNat]
    omega
  have h1 : BitVec.ofNat 8 (a % 65536 / 256) = BitVec.ofNat 8 (a / 256) := by
    apply BitVec.eq_of_toNat_eq
    simp only [BitVec.toNat_ofNat]
    omega
  have h2 : a / 256 / 256 = a / 65536 := Nat.div_div_eq_div_mul ..
  simp only [leBytes, List.cons_append, List.nil_append, h0, h1, h2]

theorem PUTLG_puts (a : ℕ) : Puts (PUTLG a) (leBytes 4 a) := by
  rw [← leBytes_four]
  exact (PUTSH_puts (a % 65536)).comp (PUTSH_puts (a / 65536))

theorem puttexts_puts (name extra : List Byte) : Puts (fun out => (puttexts name extra out).2) (name ++ extra) := by
  have hname := swrite_puts name
  have hall := hname.comp (swrite_puts extra)
  refine ⟨fun out hin => ?_, fun out hin h => ?_, fun out hin hok hroom => ?_⟩
  · unfold puttexts
    by_cases hcount : (out.swrite name).1 ≠ name.length
    · simp only [if_pos hcount]
      exact hname.inside out hin
    · simp only [if_neg hcount]
      exact hall.inside out hin
  · unfold puttexts at h ⊢
    by_cases hcount : (out.swrite name).1 ≠ name.length
    · simp only [if_pos hcount] at h
      exact absurd (swrite_count h) hcount
    · simp only [if_neg hcount] at h ⊢
      exact hall.puts out hin h
  · have hroom' : out.opos + name.length < out.obuf.length := by
      rw [List.length_append] at hroom
      omega
    have hcount : ¬ (out.swrite name).1 ≠ name.length := not_not.2 (swrite_count (hname.fits out hin hok hroom'))
    simp only [puttexts, if_neg hcount]
    exact hall.fits out hin hok hroom

theorem puttexts_ok {name extra : List Byte} {out : Output} (h : (puttexts name extra out).2.oerr = .ZR_OK) :
    (puttexts name extra out).1 = true := by
  unfold puttexts at h ⊢
  by_cases hcount : (out.swrite name).1 ≠ name.length
  · simp only [if_pos hcount] at h
    exact absurd (swrite_count h) hcount
  · simp only [if_neg hcount] at h ⊢
    rw [swrite_count h]
    exact beq_self_eq_true _

theorem putlocal_puts (z : TZipFileInfo) : Puts (fun out => (putlocal z out).2) (localBytes z) := by
  have hfields := (PUTLG_puts LOCSIG).comp <| (PUTSH_puts z.ver).comp <| (PUTSH_puts z.lflg).comp <|
    (PUTSH_puts z.how).comp <| (PUTLG_puts z.tim).comp <| (PUTLG_puts z.crc).comp <| (PUTLG_puts z.siz).comp <|
    (PUTLG_puts z.len).comp <| (PUTSH_puts z.iname.length).comp <| (PUTSH_puts z.extra.length).comp <|
    puttexts_puts z.iname z.extra
  exact hfields

theorem putextended_puts (z : TZipFileInfo) : Puts (putextended z) (extendedBytes z) := by
  have hfields := (PUTLG_puts EXTLOCSIG).comp <| (PUTLG_puts z.crc).comp <| (PUTLG_puts z.siz).comp <| PUTLG_puts z.len
  exact hfields

theorem putcentral_puts (z : TZipFileInfo) : Puts (fun out => (putcentral z out).2) (centralBytes z) := by
  have hfields := (PUTLG_puts CENSIG).comp <| (PUTSH_puts z.vem).comp <| (PUTSH_puts z.ver).comp <|
    (PUTSH_puts z.flg).comp <| (PUTSH_puts z.how).comp <| (PUTLG_puts z.tim).comp <| (PUTLG_puts z.crc).comp <|
    (PUTLG_puts z.siz).comp <| (PUTLG_puts z.len).comp <| (PUTSH_puts z.iname.length).comp <|
    (PUTSH_puts z.cextra.length).comp <| (PUTSH_puts 0).comp <| (PUTSH_puts z.dsk).comp <| (PUTSH_puts z.att).comp <|
    (PUTLG_puts z.atx).comp <| (PUTLG_puts z.off).comp <| puttexts_puts z.iname z.cextra
  exact hfields

theorem putcentral_ok {z : TZipFileInfo} {out : Output} (h : (putcentral z out).2.oerr = .ZR_OK) :
    (putcentral z out).1 = true := by
  unfold putcentral at h ⊢
  exact puttexts_ok h

theorem putend_puts (n s c : ℕ) : Puts (putend n s c) (endBytes n s c) := by
  have hfields := (PUTLG_puts ENDSIG).comp <| (PUTSH_puts 0).comp <| (PUTSH_puts 0).comp <| (PUTSH_puts n).comp <|
    (PUTSH_puts n).comp <| (PUTLG_puts s).comp <| (PUTLG_puts c).comp <| PUTSH_puts 0
  exact hfields

theorem flushes_puts (blocks : List (List Byte)) : Puts (fun out => flushes out blocks) blocks.flatten := by
  induction blocks with
  | nil => exact Puts.nil
  | cons block blocks ih => exact (swrite_puts block).comp ih

end Output

end StarLib.Zip
