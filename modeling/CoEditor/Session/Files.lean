-- SUMMARY: The file that buffer_save writes, and the document that buffer_from_file reads.
import CoEditor.Session.Observe

/-!
# Files of documents

Saving ends every line with a newline. Loading takes a newline as the end of a
line with another one after it, so what was saved comes back with an empty line
at its end.
-/

namespace CoEditor

variable {R : Type} [Rope R]

/-! ## Saving -/

/-- The file of a document: each line with a newline. -/
def stored (ts : List (List Char)) : Bytes := ts.flatMap fun t => Utf8.encode t ++ [10]

@[simp] theorem stored_nil : stored [] = [] := rfl

@[simp] theorem stored_cons (t : List Char) (ts : List (List Char)) :
    stored (t :: ts) = Utf8.encode t ++ 10 :: stored ts := by simp [stored]

theorem stored_append (ts us : List (List Char)) : stored (ts ++ us) = stored ts ++ stored us :=
  List.flatMap_append

/-- The line fits the scratch pad. -/
def FitsSp (t : List Char) : Prop := (Utf8.encode t).length + 1 ≤ spSize

instance (t : List Char) : Decidable (FitsSp t) := inferInstanceAs (Decidable (_ ≤ _))

theorem writeSp_eq_ok {r : R} {s : Bytes} :
    Buffer.writeSp r = .ok s ↔ FitsSp (Rope.chars r) ∧ s = Utf8.encode (Rope.chars r) := by
  simp only [Buffer.writeSp, Rope.writeCstr_eq, FitsSp]
  split
  · next hfits => simp [hfits, eq_comm]
  · next hfits => simp [hfits]

/-- The loop of `buffer_save` writes out the lines up to `last`. -/
theorem Rep.saveLines {b : Buffer R} {p : Page R} (h : Rep b p) : ∀ (d k fuel : Nat), k + d = p.last →
    d + 1 ≤ fuel → ∀ {s : Bytes}, CoEditor.saveLines b fuel p.ptrs[k]? = .ok s ↔
      (∀ t ∈ p.doc.texts.drop k, FitsSp t) ∧ s = stored (p.doc.texts.drop k) := by
  have hlast := h.last_lt
  have hdrop : ∀ {k : Nat} {r : Row R}, k ≤ p.last → p.rows[k]? = some r →
      p.doc.texts.drop k = Rope.chars r.str :: p.doc.texts.drop (k + 1) := by
    intro k r hk hr
    exact Doc.texts_drop (l := (r.id, r.str)) hk (by rw [Page.doc_getElem?, hr]; rfl)
  intro d
  induction d with
  | zero =>
      intro k fuel hk hfuel s
      obtain rfl : k = p.last := hk
      obtain ⟨n, rfl⟩ : ∃ n, fuel = n + 1 := ⟨fuel - 1, by omega⟩
      obtain ⟨r, hr⟩ := Page.exists_row hlast
      have hend : p.doc.texts.drop (p.last + 1) = [] := by
        rw [List.drop_eq_nil_iff, Doc.texts_length (by rw [Page.doc_length]; exact hlast)]
        exact Nat.le_refl _
      rw [Page.ptrs_of_row hr, hdrop (Nat.le_refl _) hr, hend]
      have hback : ¬ some r.ptr ≠ b.last := by
        rw [h.last, Page.ptrs_of_row hr]
        exact not_not.mpr rfl
      simp only [CoEditor.saveLines, h.line hr, Except.ok_bind_eq, if_neg hback]
      rw [Except.bind_eq_ok]
      simp only [Page.lineOf, writeSp_eq_ok, stored_cons, stored_nil, List.forall_mem_singleton]
      constructor
      · rintro ⟨t, ⟨hfits, rfl⟩, hs⟩
        exact ⟨hfits, (Except.ok.inj hs).symm⟩
      · rintro ⟨hfits, rfl⟩
        exact ⟨_, ⟨hfits, rfl⟩, rfl⟩
  | succ d ih =>
      intro k fuel hk hfuel s
      obtain ⟨n, rfl⟩ : ∃ n, fuel = n + 1 := ⟨fuel - 1, by omega⟩
      obtain ⟨r, hr⟩ := Page.exists_row (p := p) (i := k) (by omega)
      have hne : some r.ptr ≠ b.last := by
        rw [h.last, ← Page.ptrs_of_row hr, Ne, h.ptr_inj (by omega)]
        omega
      rw [Page.ptrs_of_row hr, hdrop (by omega) hr]
      simp only [CoEditor.saveLines, h.line hr, Except.ok_bind_eq, if_pos hne]
      rw [Except.bind_eq_ok]
      simp only [Page.lineOf, writeSp_eq_ok, stored_cons, List.forall_mem_cons]
      constructor
      · rintro ⟨t, ⟨hfits, rfl⟩, hs⟩
        obtain ⟨rest, hrest, hs⟩ := Except.bind_eq_ok.mp hs
        obtain ⟨hfits', rfl⟩ := (ih (k + 1) n (by omega) (by omega)).mp hrest
        exact ⟨⟨hfits, hfits'⟩, (Except.ok.inj hs).symm⟩
      · rintro ⟨⟨hfits, hfits'⟩, rfl⟩
        exact ⟨_, ⟨hfits, rfl⟩, by rw [(ih (k + 1) n (by omega) (by omega)).mpr ⟨hfits', rfl⟩]; rfl⟩

/-- Saving returns exactly if the lines fit the scratch pad, and writes out what the document shows. -/
theorem Holds.bufferSave {b : Buffer R} {d : Doc R} (h : Holds b d) {s : Bytes} :
    CoEditor.bufferSave b = .ok s ↔ (∀ t ∈ b.texts, FitsSp t) ∧ s = stored b.texts := by
  obtain ⟨p, hrep, -, rfl⟩ := h
  have hlen := hrep.loose.chained.length_le
  have hlt := hrep.last_lt
  have hrun := hrep.saveLines p.last 0 b.heap.cells.length (Nat.zero_add _) (by omega) (s := s)
  rw [hrep.first, List.drop_zero] at hrun
  rw [CoEditor.bufferSave, hrun, hrep.texts]

/-! ## Texts of documents -/

/-- The bytes are ASCII, without `NUL`. -/
def Ascii (s : Bytes) : Prop := ∀ c ∈ s, c ≠ 0 ∧ c.toNat < 128

instance (s : Bytes) : Decidable (Ascii s) := List.decidableBAll _ s

namespace Doc

variable {d : Doc R}

/-- The text of a line of a file. -/
def typedText (w : Int) (s : Bytes) : List Char := (s.take (sizeT (w - 1))).map fun c => Char.ofNat c.toNat

omit [Rope R] in
theorem typedText_concat (w : Int) (s : Bytes) (c : UInt8) :
    (if sizeT (w - 1) ≤ (typedText w s).length then typedText w s else typedText w s ++ [Char.ofNat c.toNat]) =
      typedText w (s ++ [c]) := by
  unfold typedText
  simp only [List.length_map, List.length_take]
  by_cases hle : sizeT (w - 1) ≤ s.length
  · rw [if_pos (Nat.le_min.mpr ⟨Nat.le_refl _, hle⟩), List.take_append_of_le_length hle]
  · rw [if_neg fun h => hle (Nat.le_min.mp h).2, List.take_of_length_le (by omega), List.take_of_length_le (by simp; omega),
      List.map_append]
    rfl

/-- Text `l` is being typed at the end of the document of width `w`, after the lines `ls`. -/
structure Typed (w : Int) (d : Doc R) (ls : List (List Char)) (l : List Char) : Prop where
  wf : d.Wf
  width : d.width = w
  mode : d.serverMode = false
  texts : d.texts = ls ++ [l]
  own : d.curs 0 = some ⟨ls.length, l.length⟩

namespace Typed

variable {w : Int} {ls : List (List Char)} {l : List Char}

theorem last (h : Typed w d ls l) : d.last = ls.length := by
  have hlen := texts_length (Nat.lt_of_succ_lt h.wf.last_lt)
  rw [h.texts, List.length_append, List.length_singleton] at hlen
  omega

theorem line (h : Typed w d ls l) : ∃ x, d.lines[ls.length]? = some x ∧ Rope.chars x.2 = l := by
  have hget := texts_getElem? (d := d) (k := ls.length) (Nat.le_of_eq h.last.symm)
  rw [h.texts, List.getElem?_append_right (Nat.le_refl _), Nat.sub_self] at hget
  obtain ⟨x, hx, hl⟩ := Option.map_eq_some_iff.mp hget.symm
  exact ⟨x, hx, hl⟩

theorem len (h : Typed w d ls l) : d.len ls.length = l.length := by
  obtain ⟨x, hx, hl⟩ := h.line
  rw [Doc.len, hx, Option.map_some, Option.getD_some, Rope.charCount_eq, hl]

/-- A byte below 128 is typed as the character it is, if the line has room for it. -/
theorem insert (h : Typed w d ls l) {c : UInt8} (hc : c ≠ 0) (hascii : c.toNat < 128) :
    Typed w (d.insert 0 c) ls (if sizeT (w - 1) ≤ l.length then l else l ++ [Char.ofNat c.toNat]) := by
  have hwf := h.wf.insert 0 c
  have hencode := Utf8.encode_ofNat hascii
  simp only [Doc.insert, h.own, h.len, h.width] at hwf ⊢
  by_cases hfull : sizeT (w - 1) ≤ l.length
  · rw [if_pos hfull, if_pos hfull]
    exact h
  · rw [if_neg hfull] at hwf ⊢
    rw [if_neg hfull]
    refine ⟨hwf, h.width, h.mode, ?_, ?_⟩
    · have htexts : (d.modifyStr ls.length (Rope.insert · (sizeT (l.length : Int)) (hstr c))).texts =
          d.texts.modify ls.length (· ++ [Char.ofNat c.toNat]) := by
        refine modifyStr_texts fun x hx => ?_
        obtain ⟨y, hy, rfl⟩ := h.line
        obtain rfl := Option.some.inj (hx.symm.trans hy)
        rw [sizeT_natCast, hstr, if_neg hc, ← hencode, Rope.chars_insert _ _ _ (Nat.le_refl _) (by simpa [hencode] using Ne.symm hc)]
        simp
      rw [h.texts] at htexts
      exact htexts.trans (List.modifyTailIdx_add (List.modifyHead (· ++ [Char.ofNat c.toNat])) 0 ls [l])
    · rw [shift, mapCurs_curs, modifyStr, h.own]
      simp

theorem insertLine (h : Typed w d ls l) : Typed w (d.insertLine 0) (ls ++ [l]) [] := by
  have hwf := h.wf.insertLine 0
  have hlt := h.wf.last_lt
  have hlast := h.last
  have hnew : ∀ k, k ≤ d.last + 1 → ({ (d.recount 1).newLine k with last := d.last + 1 } : Doc R).texts =
      (ls ++ [l]).insertIdx k [] := by
    intro k hk
    rw [← h.texts]
    exact newLine_texts (d := d.recount 1) hk (Nat.lt_of_succ_lt hlt)
  simp only [Doc.insertLine, h.own] at hwf ⊢
  by_cases hl : (l.length : Int) = 0
  · obtain rfl : l = [] := List.length_eq_zero_iff.mp (by omega)
    have hbump : bump ls.length d.last = d.last + 1 := by simp [bump, hlast]
    rw [if_pos hl] at hwf ⊢
    refine ⟨hwf, h.width, h.mode, ?_, ?_⟩
    · have htexts := hnew ls.length (by omega)
      rw [← hbump] at htexts
      rw [List.append_assoc]
      exact htexts.trans (List.modifyTailIdx_add (List.cons []) 0 ls [[]])
    · have hhome : ∀ e : Doc R, e.serverMode = false → e.homeUp.curs = e.curs := by
        intro e he
        funext i
        simp [homeUp, he]
      rw [hhome ((d.recount 1).newLine ls.length) h.mode]
      show ((d.curs 0).map _) = _
      rw [h.own]
      simp [bump]
  · rw [if_neg hl] at hwf ⊢
    have hend : ¬ sizeT (l.length : Int) ≠ (d.recount 1).len ls.length := by
      rw [sizeT_natCast]
      exact not_not.mpr h.len.symm
    have hbelow : (d.recount 1).newBelow ls.length = { (d.recount 1).newLine (ls.length + 1) with last := d.last + 1 } := by
      rw [newBelow, if_pos (show ls.length = (d.recount 1).last from hlast.symm), hlast]
    simp only [insertBelow, if_neg hend] at hwf ⊢
    rw [hbelow] at hwf ⊢
    refine ⟨hwf, h.width, h.mode, ?_, ?_⟩
    · have htexts := hnew (ls.length + 1) (by omega)
      exact htexts.trans (by
        have hself := List.insertIdx_length_self (l := ls ++ [l]) (x := ([] : List Char))
        rwa [List.length_append, List.length_singleton] at hself)
    · rw [mapCurs_curs]
      show ((d.curs 0).map _).map _ = _
      rw [h.own]
      simp

/-- Line by line, the replay of a file types the texts of its lines. -/
theorem loadBytes {data : Bytes} (hdata : Ascii data) : ∀ {d : Doc R} {ls : List (List Char)}
    {s : Bytes}, (10 : UInt8) ∉ s → Typed w d ls (typedText w s) →
      (d.loadBytes data).texts = ls ++ ((s ++ data).splitOn 10).map (typedText w) := by
  induction data with
  | nil =>
      intro d ls s hs h
      rw [List.append_nil, List.splitOn_eq_singleton hs]
      exact h.texts
  | cons c data ih =>
      intro d ls s hs h
      obtain ⟨⟨hc, hascii⟩, hrest⟩ := List.forall_mem_cons.mp hdata
      rw [Doc.loadBytes, List.foldl_cons, loadByte]
      by_cases hnl : c = 10
      · subst hnl
        rw [if_pos rfl, List.splitOn_append_cons_self_of_not_mem hs, List.map_cons, List.append_cons]
        exact ih hrest (s := []) List.not_mem_nil (by simpa [typedText] using h.insertLine)
      · rw [if_neg hnl, List.append_cons]
        refine ih hrest (by simpa using ⟨hs, Ne.symm hnl⟩) ?_
        rw [← typedText_concat]
        exact h.insert hc hascii

end Typed

theorem rewind_texts (d : Doc R) (n : Nat) : (d.rewind n).texts = d.texts := by
  induction n with
  | zero => rfl
  | succ n ih =>
      rw [rewind, List.range_succ, List.foldl_append]
      exact ih

theorem empty_typed (w : Int) {n : Nat} (hn : 2 ≤ n) : Typed w (empty (R := R) w n) [] (typedText w []) where
  wf := by
    obtain ⟨hgood, hdoc⟩ := Page.empty_good (R := R) 0 w hn
    exact hdoc ▸ hgood.doc
  width := rfl
  mode := rfl
  texts := by
    obtain ⟨m, rfl⟩ : ∃ m, n = m + 1 := ⟨n - 1, by omega⟩
    rw [Doc.texts, empty, List.range_succ_eq_map]
    simp [typedText]
  own := by simp [empty, typedText]

/-- A loaded document has the lines of the file, each cut to the width. -/
theorem load_texts {data : Bytes} (hdata : Ascii data) (w : Int) {n : Nat} (hn : 2 ≤ n) (ui : Bool) :
    (load (R := R) data w n ui).texts = (data.splitOn 10).map (typedText w) := by
  have hserve : ∀ d : Doc R, (d.serve ui).texts = d.texts := by
    intro d
    cases ui <;> rfl
  rw [load, hserve]
  exact (rewind_texts _ _).trans ((Typed.loadBytes hdata List.not_mem_nil (empty_typed w hn)).trans (List.nil_append _))

end Doc

/-! ## Loading -/

theorem Ascii.encode_map {s : Bytes} (h : Ascii s) : Utf8.encode (s.map fun c => Char.ofNat c.toNat) = s := by
  induction s with
  | nil => rfl
  | cons c s ih =>
      obtain ⟨hc, hs⟩ := List.forall_mem_cons.mp h
      have hone := Utf8.encode_ofNat hc.2
      rw [Utf8.encode_cons, Utf8.encode_nil, List.append_nil] at hone
      rw [List.map_cons, Utf8.encode_cons, hone, ih hs]
      rfl

theorem Ascii.encode_typedText {s : Bytes} (h : Ascii s) {w : Int} (hw : 1 ≤ w) :
    Utf8.encode (Doc.typedText w s) = s.take (w - 1).toNat := by
  rw [Doc.typedText, sizeT_of_nonneg (by omega)]
  exact Ascii.encode_map fun c hc => h c (List.mem_of_mem_take hc)

/-- What is in a line is in the text. -/
theorem mem_of_mem_splitOn {s l : Bytes} {c : UInt8} (hl : l ∈ s.splitOn 10) (hc : c ∈ l) : c ∈ s := by
  induction s generalizing l with
  | nil =>
      rw [List.splitOn_nil, List.mem_singleton] at hl
      exact absurd (hl ▸ hc) List.not_mem_nil
  | cons d s ih =>
      rw [List.splitOn_cons_eq_if_modifyHead] at hl
      obtain ⟨m, ms, hms⟩ := List.exists_cons_of_ne_nil (List.splitOn_ne_nil 10 s)
      rw [hms] at hl ih
      split at hl
      · rcases List.mem_cons.mp hl with rfl | hl
        · cases hc
        · exact List.mem_cons_of_mem d (ih hl hc)
      · rw [List.modifyHead_cons] at hl
        rcases List.mem_cons.mp hl with rfl | hl
        · rcases List.mem_cons.mp hc with rfl | hc
          · exact List.mem_cons_self
          · exact List.mem_cons_of_mem d (ih List.mem_cons_self hc)
        · exact List.mem_cons_of_mem d (ih (List.mem_cons_of_mem m hl) hc)

/-- The lines of an ASCII file are read, each cut to the width, and the own cursor is at the start. -/
theorem load_lines (data : Bytes) (id : Int) {height width : Int} (hh : 2 ≤ height) (hw : 2 ≤ width) (ui : Bool) :
    ∃ b : Buffer R, bufferFromFile data id height width ui = .ok b ∧ b.ownCurs = some ⟨0, b.first, 0⟩ ∧
      (Ascii data → b.texts.map Utf8.encode = (data.splitOn 10).map (·.take (width - 1).toNat) ∧
        ((∀ l ∈ data.splitOn 10, l.length ≤ (width - 1).toNat) → [10].intercalate (b.texts.map Utf8.encode) = data)) := by
  obtain ⟨n, rfl⟩ : ∃ n : Nat, height = n := ⟨height.toNat, by omega⟩
  obtain ⟨b, hrun, hexact⟩ := bufferFromFile_exact (R := R) data id width (n := n) (by omega) ui
  refine ⟨b, hrun, ?_, fun hascii => ?_⟩
  · obtain ⟨p, hrep, hp, hdoc⟩ := hexact
    have hown : p.doc.curs 0 = some p.own.place := by
      rw [← hp.toGood.own_id]
      exact Page.doc_curs hp.toGood.distinct p.curs_own
    rw [hdoc, (Doc.load_curs ..).1] at hown
    obtain ⟨hrow, hpos⟩ := Place.mk.inj (Option.some.inj hown)
    obtain ⟨f, hf, hfirst⟩ := hrep.first_row
    rw [hrep.own, Page.cursor_of_row (r := f) (by rw [← hrow]; exact hf), hp.toGood.own_id, ← hpos, hfirst]
  · have hsplit : ∀ l ∈ data.splitOn 10, Ascii l := by
      intro l hl c hc
      exact hascii c (mem_of_mem_splitOn hl hc)
    have htexts : b.texts.map Utf8.encode = (data.splitOn 10).map (·.take (width - 1).toNat) := by
      rw [hexact.sound.holds.texts, Doc.load_texts hascii width (by omega) ui, List.map_map]
      exact List.map_congr_left fun l hl => (hsplit l hl).encode_typedText (by omega)
    refine ⟨htexts, fun hshort => ?_⟩
    have hwhole : (data.splitOn 10).map (·.take (width - 1).toNat) = data.splitOn 10 :=
      (List.map_congr_left fun l hl => List.take_of_length_le (hshort l hl)).trans (List.map_id _)
    rw [htexts, hwhole, List.intercalate_splitOn]

theorem load_lines_ab : ∃ b : Buffer ListRope, bufferFromFile (bytes "ab\nc") 1 3 6 false = .ok b ∧
    b.ownCurs = some ⟨0, b.first, 0⟩ ∧
      (Ascii (bytes "ab\nc") → b.texts.map Utf8.encode = ((bytes "ab\nc").splitOn 10).map (·.take ((6 : Int) - 1).toNat) ∧
        ((∀ l ∈ (bytes "ab\nc").splitOn 10, l.length ≤ ((6 : Int) - 1).toNat) →
          [10].intercalate (b.texts.map Utf8.encode) = bytes "ab\nc")) :=
  load_lines (bytes "ab\nc") 1 (by decide) (by decide) false

/-- Of a line as long as the width the last character is lost. -/
theorem load_cuts_line : (∀ c ∈ bytes "abc", c ≠ 0) ∧ ∃ b : Buffer ListRope, bufferFromFile (bytes "abc") 1 2 3 false = .ok b ∧
    [10].intercalate (b.texts.map Utf8.encode) = bytes "ab" ∧ bytes "ab" ≠ bytes "abc" := by
  have htest : returns (bufferFromFile (R := ListRope) (bytes "abc") 1 2 3 false)
      (fun b => decide ([10].intercalate (b.texts.map Utf8.encode) = bytes "ab")) = true := by decide +kernel
  obtain ⟨b, hb, hP⟩ := exists_of_returns htest
  exact ⟨fun c hc h => absurd (h ▸ hc) (by decide), b, hb, of_decide_eq_true hP, by decide⟩

/-! ## Saving and loading again -/

/-- What is saved of lines without newlines is read as these lines and an empty one. -/
theorem splitOn_stored {ts : List (List Char)} (h : ∀ t ∈ ts, (10 : UInt8) ∉ Utf8.encode t) :
    (stored ts).splitOn 10 = ts.map Utf8.encode ++ [[]] := by
  induction ts with
  | nil => rfl
  | cons t ts ih =>
      obtain ⟨ht, hts⟩ := List.forall_mem_cons.mp h
      rw [stored_cons, List.splitOn_append_cons_self_of_not_mem ht, ih hts]
      rfl

/-- The line is printable ASCII. -/
def Printable (t : List Char) : Prop := ∀ c ∈ t, 32 ≤ c.toNat ∧ c.toNat < 127

instance (t : List Char) : Decidable (Printable t) := List.decidableBAll _ t

namespace Printable

variable {t : List Char}

theorem mem_encode (h : Printable t) {c : UInt8} (hc : c ∈ Utf8.encode t) : 32 ≤ c.toNat ∧ c.toNat < 127 := by
  rw [Utf8.encode_ascii fun d hd => Nat.lt_trans (h d hd).2 (by decide)] at hc
  obtain ⟨d, hd, rfl⟩ := List.mem_map.mp hc
  have hrange := h d hd
  rw [UInt8.toNat_ofNat']
  omega

theorem ascii (h : Printable t) : Ascii (Utf8.encode t) := by
  intro c hc
  have hrange := h.mem_encode hc
  refine ⟨?_, by omega⟩
  rintro rfl
  exact absurd hrange.1 (by decide)

theorem newline_notMem (h : Printable t) : (10 : UInt8) ∉ Utf8.encode t := fun hc =>
  absurd (h.mem_encode hc).1 (by decide)

/-- A line that is not longer than the width is read as it is. -/
theorem typedText (h : Printable t) {w : Int} (hw : (t.length : Int) ≤ w - 1) : Doc.typedText w (Utf8.encode t) = t := by
  apply Utf8.encode_injective
  rw [h.ascii.encode_typedText (by omega), List.take_of_length_le]
  rw [Utf8.encode_ascii fun d hd => Nat.lt_trans (h d hd).2 (by decide), List.length_map]
  omega

end Printable

theorem stored_ascii {ts : List (List Char)} (h : ∀ t ∈ ts, Printable t) : Ascii (stored ts) := by
  induction ts with
  | nil => exact fun c hc => absurd hc List.not_mem_nil
  | cons t ts ih =>
      obtain ⟨ht, hts⟩ := List.forall_mem_cons.mp h
      intro c hc
      rw [stored_cons, List.mem_append, List.mem_cons] at hc
      rcases hc with hc | rfl | hc
      · exact ht.ascii c hc
      · decide
      · exact ih hts c hc

/-- A worker starts with the file, and shuts down. -/
def restart (R : Type) [Rope R] (id height width : Int) (s : Bytes) : Except Fault Bytes := do
  let b : Buffer R ← bufferFromFile s id height width false
  bufferSave b

/-- What was saved of a document is loaded with one line more. -/
theorem load_stored {ts : List (List Char)} {width height : Int} (hh : 2 ≤ height)
    (hplain : ∀ t ∈ ts, Printable t ∧ (t.length : Int) ≤ width - 1) (id : Int) (ui : Bool) :
    ∃ b : Buffer R, bufferFromFile (stored ts) id height width ui = .ok b ∧ b.texts = ts ++ [[]] ∧
      ∀ {s : Bytes}, bufferSave b = .ok s ↔ (∀ t ∈ ts, FitsSp t) ∧ s = stored ts ++ [10] := by
  obtain ⟨n, rfl⟩ : ∃ n : Nat, height = n := ⟨height.toNat, by omega⟩
  obtain ⟨b, hrun, hexact⟩ := bufferFromFile_exact (R := R) (stored ts) id width (n := n) (by omega) ui
  have htexts : b.texts = ts ++ [[]] := by
    rw [hexact.sound.holds.texts, Doc.load_texts (stored_ascii fun t ht => (hplain t ht).1) width (by omega) ui,
      splitOn_stored fun t ht => (hplain t ht).1.newline_notMem, List.map_append, List.map_map]
    have hself : ts.map (Doc.typedText width ∘ Utf8.encode) = ts :=
      (List.map_congr_left fun t ht => (hplain t ht).1.typedText (hplain t ht).2).trans (List.map_id _)
    rw [hself, List.map_singleton, Doc.typedText, List.take_nil]
    rfl
  refine ⟨b, hrun, htexts, fun {s} => ?_⟩
  rw [hexact.sound.holds.bufferSave, htexts, stored_append, List.forall_mem_append]
  simp [show FitsSp [] by decide]

theorem restart_stored {ts : List (List Char)} {width height : Int} (hh : 2 ≤ height) (hw : 1 ≤ width)
    (hplain : ∀ t ∈ ts, Printable t ∧ (t.length : Int) ≤ width - 1) (hfits : ∀ t ∈ ts, FitsSp t) (id : Int) (n : Nat) :
    (List.range n).foldlM (fun s _ => restart R id height width s) (stored ts) = .ok (stored ts ++ List.replicate n 10) := by
  have hblank : ∀ n, stored (ts ++ List.replicate n []) = stored ts ++ List.replicate n 10 := by
    intro n
    rw [stored_append]
    induction n with
    | zero => rfl
    | succ n ih => rw [List.replicate_succ', stored_append, ← List.append_assoc, ih, List.replicate_succ', ← List.append_assoc]; rfl
  have hlines : ∀ {P : List Char → Prop}, (∀ t ∈ ts, P t) → P [] → ∀ n, ∀ t ∈ ts ++ List.replicate n [], P t := by
    intro P hts hnil n
    rw [List.forall_mem_append]
    exact ⟨hts, fun t ht => (List.eq_of_mem_replicate ht) ▸ hnil⟩
  have hempty : Printable [] ∧ (([] : List Char).length : Int) ≤ width - 1 := ⟨by decide, by simp; omega⟩
  induction n with
  | zero => exact congrArg Except.ok (List.append_nil _).symm
  | succ n ih =>
      obtain ⟨b, hrun, -, hsave⟩ := load_stored (R := R) hh (hlines hplain hempty n) id false
      rw [List.range_succ, List.foldlM_append, ih, Except.ok_bind_eq, ← hblank n]
      have hstep : restart R id height width (stored (ts ++ List.replicate n [])) = .ok (stored ts ++ List.replicate (n + 1) 10) := by
        rw [restart, hrun, Except.ok_bind_eq, hsave.mpr ⟨hlines hfits (by decide) n, rfl⟩, hblank, List.append_assoc,
          ← List.replicate_succ']
      rw [List.foldlM_cons, hstep]
      rfl

/-- A document that is saved and loaded again has one line more, and with every restart its file has one newline
    more. -/
theorem restart_adds_line {b : Buffer R} (hb : Reachable b)
    (hplain : ∀ t ∈ b.texts, Printable t ∧ (t.length : Int) ≤ b.width - 1) (id : Int) (ui : Bool) :
    (¬ ∃ s, ∃ b' : Buffer R, bufferSave b = .ok s ∧ bufferFromFile s id b.height b.width ui = .ok b' ∧ b'.texts = b.texts) ∧
    ((∀ t ∈ b.texts, FitsSp t) → ∃ s, bufferSave b = .ok s) ∧
    ∀ s, bufferSave b = .ok s →
      (∃ b' : Buffer R, bufferFromFile s id b.height b.width ui = .ok b' ∧ b'.texts = b.texts ++ [[]]) ∧
      ∀ n, (List.range n).foldlM (fun s _ => restart R id b.height b.width s) s = .ok (s ++ List.replicate n 10) := by
  obtain ⟨d, hsound⟩ := hb.sound
  obtain ⟨p, hrep, hgood, hdoc⟩ := hsound.holds
  have hh : 2 ≤ b.height := by
    rw [hrep.height]
    exact hgood.doc.height
  have hw : 1 ≤ b.width := by
    have hne : b.texts ≠ [] := by
      rw [hrep.texts]
      exact List.ne_nil_of_length_eq_add_one (Doc.texts_length (Nat.lt_of_succ_lt hgood.doc.last_lt))
    obtain ⟨t, ht⟩ := List.exists_mem_of_ne_nil _ hne
    have := (hplain t ht).2
    omega
  obtain ⟨b', hrun, htexts, -⟩ := load_stored (R := R) hh hplain id ui
  refine ⟨?_, fun hfits => ⟨_, hsound.holds.bufferSave.mpr ⟨hfits, rfl⟩⟩, fun s hs => ?_⟩
  · rintro ⟨s, b'', hs, hrun', hsame⟩
    obtain ⟨-, rfl⟩ := hsound.holds.bufferSave.mp hs
    obtain rfl := Except.ok.inj (hrun.symm.trans hrun')
    have hlen := congrArg List.length (htexts.symm.trans hsame)
    simp at hlen
  · obtain ⟨hfits, rfl⟩ := hsound.holds.bufferSave.mp hs
    exact ⟨⟨b', hrun, htexts⟩, restart_stored hh hw hplain hfits id⟩

/-- The document `ab` after one and after two restarts. -/
theorem restart_adds_line_ab : ∃ b : Buffer ListRope, Reachable b ∧ b.texts = ["ab".toList] ∧
    (∀ t ∈ b.texts, Printable t ∧ (t.length : Int) ≤ b.width - 1) ∧ bufferSave b = .ok (bytes "ab\n") ∧
    (¬ ∃ s, ∃ b' : Buffer ListRope, bufferSave b = .ok s ∧ bufferFromFile s 1 b.height b.width false = .ok b' ∧
      b'.texts = b.texts) ∧
    restart ListRope 1 b.height b.width (bytes "ab\n") = .ok (bytes "ab\n\n") := by
  have htest : returns (bufferFromFile (R := ListRope) (bytes "ab") 1 3 6 false) (fun b => decide
      (b.texts = ["ab".toList] ∧ (∀ t ∈ b.texts, Printable t ∧ (t.length : Int) ≤ b.width - 1)) &&
      returns (bufferSave b) fun s => decide (s = bytes "ab\n")) = true := by decide +kernel
  obtain ⟨b, hb, htest⟩ := exists_of_returns htest
  obtain ⟨hP, hsave⟩ := (Bool.and_eq_true _ _).mp htest
  obtain ⟨htexts, hplain⟩ := of_decide_eq_true hP
  obtain ⟨s, hs, hsame⟩ := exists_of_returns hsave
  obtain rfl := of_decide_eq_true hsame
  have hreach : Reachable b := .load (by decide) hb
  obtain ⟨hno, -, hgrow⟩ := restart_adds_line hreach hplain 1 false
  have htwice := (hgrow _ hs).2 1
  rw [List.range_one, List.foldlM_cons] at htwice
  change (restart ListRope 1 b.height b.width (bytes "ab\n") >>= pure) = _ at htwice
  rw [bind_pure] at htwice
  exact ⟨b, hreach, htexts, hplain, hs, hno, htwice⟩

/-- The document `ab` comes back with an empty line after it. -/
theorem reload_differs : ∃ b : Buffer ListRope, Reachable b ∧ b.texts = ["ab".toList] ∧ b.width = 6 ∧
    ∃ s, ∃ b' : Buffer ListRope, bufferSave b = .ok s ∧ bufferFromFile s 1 b.height b.width false = .ok b' ∧
      b'.texts = ["ab".toList, []] := by
  have htest : returns (bufferFromFile (R := ListRope) (bytes "ab") 1 3 6 false) (fun b =>
      decide (b.texts = ["ab".toList] ∧ b.width = 6) && returns (bufferSave b) fun s =>
        returns (bufferFromFile (R := ListRope) s 1 b.height b.width false) fun b' =>
          decide (b'.texts = ["ab".toList, []])) = true := by decide +kernel
  obtain ⟨b, hb, htest⟩ := exists_of_returns htest
  obtain ⟨hP, hsave⟩ := (Bool.and_eq_true _ _).mp htest
  obtain ⟨htexts, hwidth⟩ := of_decide_eq_true hP
  obtain ⟨s, hs, hload⟩ := exists_of_returns hsave
  obtain ⟨b', hb', hP'⟩ := exists_of_returns hload
  exact ⟨b, .load (by decide) hb, htexts, hwidth, s, b', hs, hb', of_decide_eq_true hP'⟩

end CoEditor
