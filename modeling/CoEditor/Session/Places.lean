-- SUMMARY: The places of the cursors of a buffer, and which sessions keep them at columns of their lines.
import CoEditor.Doc.Offsets
import CoEditor.Session.Observe

/-!
# Places of cursors

A cursor points to its line. Its place is the number of that line in the chain,
and with the lengths of the lines before it this is an offset in the text.
-/

namespace CoEditor

variable {R : Type}

namespace Buffer

/-- The number of the line behind a pointer, counted from `first`. -/
def rowOf (b : Buffer R) (q : Ptr) : Nat := (b.chain.map Prod.fst).idxOf q

/-- The place of cursor `id`. -/
def place (b : Buffer R) (id : Int) : Option Place :=
  match bcursorFind b id with
  | .ok (some ref) => (b.curs ref).toOption.map fun c => ⟨b.rowOf c.ownLine, c.pos⟩
  | _ => none

variable [Rope R]

/-- Every cursor is at a column of its line. -/
def InRange (b : Buffer R) : Prop :=
  ∀ ref c, b.curs ref = .ok c → ∃ l, b.line c.ownLine = .ok l ∧ 0 ≤ c.pos ∧ c.pos ≤ Rope.charCount l.str

/-- The number of characters of line `k`. -/
def lineLen (b : Buffer R) (k : Nat) : Nat := (b.content[k]?.map fun l => l.2.length).getD 0

/-- The text of the document: the lines from `first` to `last`, with newlines between them. -/
def text (b : Buffer R) : List Char := joined '\n' b.texts

/-- The offset of cursor `id` in the text. -/
def offsetOf (b : Buffer R) (id : Int) : Option Int := (b.place id).map fun x => offset b.texts x.row x.pos

end Buffer

variable {b : Buffer R} {p : Page R}

theorem Rep.rowOf (h : Rep b p) {k : Nat} {r : Row R} (hr : p.rows[k]? = some r) : b.rowOf r.ptr = k := by
  have hptrs : b.chain.map Prod.fst = p.ptrs := by
    rw [h.chain]
    apply List.ext_getElem?
    intro i
    simp only [List.getElem?_map, List.getElem?_mapIdx, Page.ptrs_getElem?, Option.map_map]
    rfl
  have hget := Page.ptrs_of_row hr
  obtain ⟨hlt, hq⟩ := List.getElem?_eq_some_iff.mp hget
  rw [Buffer.rowOf, hptrs, ← hq, h.nodup.idxOf_getElem k hlt]

theorem Rep.place (h : Rep b p) (hD : p.Distinct) (id : Int) : b.place id = p.doc.curs id := by
  rw [Buffer.place, h.bcursorFind]
  cases hfind : p.find id with
  | none => exact (Page.doc_curs_eq_none.mpr (Page.find_eq_none.mp hfind)).symm
  | some ref =>
      obtain ⟨c, hc, rfl⟩ := Page.curs_of_find hfind
      obtain ⟨c', hc', hcursor⟩ := h.curs_ok hc
      obtain ⟨r, hr, rfl⟩ := Layout.cursor_row hcursor
      simp only [hc', Except.toOption, Option.map_some, h.rowOf hr]
      exact (Page.doc_curs hD hc).symm

variable [Rope R] {d : Doc R}

theorem Page.len_of_row {k : Nat} {r : Row R} (hr : p.rows[k]? = some r) : p.doc.len k = Rope.charCount r.str := by
  have hline : p.doc.lines[k]? = some (r.id, r.str) := by rw [Page.doc_getElem?, hr]; rfl
  rw [Doc.len, hline]
  rfl

namespace Holds

theorem width (h : Holds b d) : b.width = d.width := by
  obtain ⟨p, hrep, -, rfl⟩ := h
  exact hrep.width

theorem serverMode (h : Holds b d) : b.serverMode = d.serverMode := by
  obtain ⟨p, hrep, -, rfl⟩ := h
  exact hrep.serverMode

theorem place (h : Holds b d) (id : Int) : b.place id = d.curs id := by
  obtain ⟨p, hrep, hgood, rfl⟩ := h
  exact hrep.place hgood.distinct id

theorem text (h : Holds b d) : b.text = d.text := by rw [Buffer.text, h.texts, Doc.text]

theorem offsetOf (h : Holds b d) (id : Int) : b.offsetOf id = d.offsetOf id := by
  rw [Buffer.offsetOf, h.place, h.texts]
  rfl

theorem lineLen (h : Holds b d) (k : Nat) : b.lineLen k = d.len k := by rw [Buffer.lineLen, h.content, Doc.len_eq]

theorem inRange_iff (h : Holds b d) : b.InRange ↔ d.InRange := by
  obtain ⟨p, hrep, hgood, rfl⟩ := h
  constructor
  · intro hb i x hx
    obtain ⟨ref, c, hc, hid, rfl⟩ := Page.curs_of_doc hx
    obtain ⟨c', hc', hcursor⟩ := hrep.curs_ok hc
    obtain ⟨r, hr, rfl⟩ := Layout.cursor_row hcursor
    obtain ⟨l, hl, hpos⟩ := hb ref _ hc'
    obtain rfl := Except.ok.inj ((hrep.line hr).symm.trans hl)
    rwa [PageCursor.place, Page.len_of_row hr]
  · intro hd ref c hc
    have hsim := hrep.curs ref
    rw [hc] at hsim
    obtain ⟨c', hc', hcursor⟩ := hsim.of_ok_left
    obtain ⟨r, hr, rfl⟩ := Layout.cursor_row hcursor
    refine ⟨_, hrep.line hr, ?_⟩
    have hrange := hd _ _ (Page.doc_curs hgood.distinct hc')
    rwa [PageCursor.place, Page.len_of_row hr] at hrange

end Holds

/-! ## Sessions that keep the range -/

/-- The call keeps cursors in range: a new cursor is put at a column of its line, and what is typed is an ASCII
    character, or else moves no cursor that is at the end of its line. -/
def Op.KeepsRange (b : Buffer R) : Op → Prop
  | .new _ lid pos => ∀ t, (lid, t) ∈ b.content → 0 ≤ pos ∧ pos ≤ t.length
  | .insert id chr => chr ≠ 0 ∧ chr.toNat < 128 ∨ ∀ x, b.place id = some x → sizeT (b.width - 1) ≤ b.lineLen x.row ∨
      x.pos < b.lineLen x.row ∧
        ∀ i y, i ≠ id → b.place i = some y → y.row = x.row → x.pos + 1 < y.pos → y.pos < b.lineLen x.row
  | _ => True

namespace Doc

theorem load_inRange (data : Bytes) (width : Int) (n : Nat) (ui : Bool) : InRange (load (R := R) data width n ui) := by
  obtain ⟨hown, hothers⟩ := load_curs (R := R) data width n ui
  intro i x hx
  by_cases hi : i = 0
  · rw [hi, hown] at hx
    obtain rfl := Option.some.inj hx
    exact ⟨Int.le_refl 0, Int.natCast_nonneg _⟩
  · rw [hothers i hi] at hx
    cases hx

theorem InRange.restore (h : InRange d) (u : Bool) : InRange (d.restore u) := by
  have hlen : ∀ k, (d.restore u).len k = d.len k := by
    intro k
    simp only [Doc.len, Doc.restore, List.getElem?_map, Option.map_map, Function.comp_def, Rope.charCount_eq,
      Rope.chars_reread]
  intro i x hx
  rw [hlen]
  simp only [Doc.restore] at hx
  split at hx
  · exact h i x hx
  · cases hx

end Doc

theorem Holds.effect_inRange (h : Holds b d) (hd : d.InRange) {op : Op} (hop : op.KeepsRange b) {res : Bres} {e : Doc R}
    (heffect : op.Effect d res e) : e.InRange := by
  cases heffect with
  | newFull | copyOwnFull | freeOwn | insertNone => exact hd
  | new hline =>
      obtain ⟨-, hid⟩ := hline
      obtain ⟨⟨lid, r⟩, hl, rfl⟩ := Option.map_eq_some_iff.mp hid
      have hpos := hop (Rope.chars r) (by
        rw [h.content, Doc.content]
        exact List.mem_map_of_mem (List.mem_of_getElem? hl))
      refine hd.put _ hpos.1 ?_
      rw [Doc.len, hl, Option.map_some, Option.getD_some, Rope.charCount_eq]
      exact hpos.2
  | copyOwn hown => exact hd.put _ (hd 0 _ hown).1 (hd 0 _ hown).2
  | free => exact hd.drop _
  | move => exact hd.move _ _
  | insertLine => exact hd.insertLine h.wf _
  | del => exact hd.del h.wf _
  | insert hcur =>
      rename_i id chr
      obtain ⟨cur, hcur⟩ := Option.ne_none_iff_exists'.mp hcur
      by_cases hascii : chr ≠ 0 ∧ chr.toNat < 128
      · exact hd.insert h.wf id hascii.1 hascii.2
      · have hkeep := hop.resolve_left hascii cur (by rw [h.place, hcur])
        by_cases hfull : sizeT (d.width - 1) ≤ d.len cur.row
        · rw [Doc.insert_full hcur hfull]
          exact hd
        · have hinvalid : chr = 0 ∨ 128 ≤ chr.toNat := by
            by_cases h0 : chr = 0
            · exact .inl h0
            · exact .inr (Nat.le_of_not_lt fun hlt => hascii ⟨h0, hlt⟩)
          simp only [h.lineLen, h.place, h.width] at hkeep
          exact (hd.insert_invalid h.wf hcur hfull hinvalid).mpr (hkeep.resolve_left hfull)

theorem Reached.inRange {b : Buffer R} (hb : Reached (fun b op => op.KeepsRange b) b) :
    ∃ d, HoldsSound b d ∧ d.InRange :=
  hb.induct Doc.InRange (fun data width n ui _ => Doc.load_inRange data width n ui) (fun _ u _ h => h.restore u)
    fun hsound hd hop heffect => hsound.holds.effect_inRange hd hop heffect

/-- In a session of calls that keep the range every cursor is at a column of its line. -/
theorem cursors_in_range {b : Buffer R} (hb : Reached (fun b op => op.KeepsRange b) b) : b.InRange := by
  obtain ⟨d, hsound, hd⟩ := hb.inRange
  exact hsound.holds.inRange_iff.mpr hd

theorem cursors_in_range_ab : ∃ b : Buffer ListRope, Reached (fun b op => op.KeepsRange b) b ∧
    b.texts = ["ab".toList] ∧ b.place 0 = some ⟨0, 1⟩ ∧ b.InRange := by
  have htest : returns (bufferFromFile (R := ListRope) (bytes "b") 1 3 6 true) (fun b =>
      returns (Op.run b (.insert 0 97)) fun x => decide (x.1.texts = ["ab".toList] ∧ x.1.place 0 = some ⟨0, 1⟩)) = true := by
    decide +kernel
  obtain ⟨b, hb, htest⟩ := exists_of_returns htest
  obtain ⟨⟨b', res⟩, hrun, hP⟩ := exists_of_returns htest
  obtain ⟨htexts, hplace⟩ := of_decide_eq_true hP
  have hlegal : (Op.insert 0 97).Legal (HasCurs b) := trivial
  have hkeeps : (Op.insert 0 97).KeepsRange b := .inl (by decide)
  have hreach : Reached (fun b op => op.KeepsRange b) b' := .step (.load (by decide) hb) hlegal hkeeps hrun
  exact ⟨b', hreach, htexts, hplace, cursors_in_range hreach⟩

/-- A byte that begins no character is typed into an empty line: the cursor moves, the line stays empty. -/
theorem cursor_leaves_range : ∃ b : Buffer ListRope, Reachable b ∧ ¬ b.InRange ∧ ∃ c l, b.curs .own = .ok c ∧
    b.line c.ownLine = .ok l ∧ Rope.charCount l.str = 0 ∧ c.pos = 1 := by
  have htest : returns (bufferFromFile (R := ListRope) [] 1 3 6 true) (fun b =>
      returns (Op.run b (.insert 0 195)) fun x => returns (x.1.curs .own) fun c => returns (x.1.line c.ownLine) fun l =>
        decide (Rope.charCount l.str = 0 ∧ c.pos = 1)) = true := by
    decide +kernel
  obtain ⟨b, hb, htest⟩ := exists_of_returns htest
  obtain ⟨⟨b', res⟩, hrun, htest⟩ := exists_of_returns htest
  obtain ⟨c, hc, htest⟩ := exists_of_returns htest
  obtain ⟨l, hl, hP⟩ := exists_of_returns htest
  obtain ⟨hempty, hpos⟩ := of_decide_eq_true hP
  have hlegal : (Op.insert 0 195).Legal (HasCurs b) := trivial
  refine ⟨b', .step (.load (by decide) hb) hlegal trivial hrun, fun hrange => ?_, c, l, hc, hl, hempty, hpos⟩
  obtain ⟨l', hl', -, hle⟩ := hrange .own c hc
  obtain rfl := Except.ok.inj (hl.symm.trans hl')
  omega

end CoEditor
