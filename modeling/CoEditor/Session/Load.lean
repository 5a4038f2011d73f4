-- SUMMARY: buffer_from_file always returns, with a good page and the document obtained by replaying the file.
import CoEditor.Page.Build
import CoEditor.Session.Window

/-!
# Loading

The document counterpart of `buffer_from_file`: the bytes of the file are
replayed as edits of cursor `0` on an empty document, which then goes back up
and to column `0`.
-/

namespace CoEditor

variable {R : Type} [Rope R]

namespace Doc

/-- The empty document of height `n`. -/
def empty (width : Int) (n : Nat) : Doc R where
  numLines := n
  lineIdCnt := n
  height := n
  width
  serverMode := false
  lines := (List.range n).map fun (i : Nat) => ((i : Int), Rope.new)
  last := 0
  curs := fun i => if i = 0 then some ⟨0, 0⟩ else none

def loadByte (d : Doc R) (c : UInt8) : Doc R := if c = 10 then d.insertLine 0 else d.insert 0 c

/-- The document after the replay of a file. -/
def loadBytes (d : Doc R) (data : Bytes) : Doc R := data.foldl loadByte d

/-- Cursor `0` goes `n` lines up. -/
def rewind (d : Doc R) (n : Nat) : Doc R := (List.range n).foldl (fun d _ => d.move 0 .up) d

/-- Cursor `0` goes to the start of its line. -/
def home (d : Doc R) : Doc R := d.mapCurs fun i x => if i = 0 then { x with pos := 0 } else x

/-- Only a buffer without user interface is in server mode. -/
def serve (d : Doc R) (ui : Bool) : Doc R := if ui then d else { d with serverMode := true }

/-- The document of a loaded file. -/
def load (data : Bytes) (width : Int) (n : Nat) (ui : Bool) : Doc R :=
  (((empty width n).loadBytes data).rewind (data.count 10)).home.serve ui

end Doc

/-! ## Pages -/

theorem Page.empty_good (id width : Int) {n : Nat} (hn : 2 ≤ n) :
    (Page.empty (R := R) id width n).Good ∧ (Page.empty (R := R) id width n).doc = Doc.empty width n := by
  have hpeer : ∀ i c, (Page.empty (R := R) id width n).curs (.peer i) ≠ .ok c := by
    intro i c hc
    rw [curs_peer] at hc
    simp [Page.empty, List.getElem?_replicate] at hc
  have hD : (Page.empty (R := R) id width n).Distinct := by
    intro ref ref' c c' hc hc' _
    cases ref with
    | peer i => exact absurd hc (hpeer i c)
    | own =>
        cases ref' with
        | peer i => exact absurd hc' (hpeer i c')
        | own => rfl
  have hdoc : (Page.empty (R := R) id width n).doc = Doc.empty width n := by
    have hcurs : (Page.empty (R := R) id width n).doc.curs = (Doc.empty (R := R) width n).curs := by
      funext i
      simp only [Doc.empty]
      split
      · next hi =>
          subst hi
          exact Page.doc_curs hD (Page.curs_own _)
      · next hi =>
          rw [Page.doc_curs_eq_none]
          intro ref c hc
          cases ref with
          | own =>
              rw [← Except.ok.inj hc]
              exact fun e => hi e.symm
          | peer j => exact absurd hc (hpeer j c)
    ext1
    · rfl
    · rfl
    · rfl
    · rfl
    · rfl
    · simp [Page.doc, Page.empty, Page.emptyRows, Page.emptyRow, Doc.empty, Function.comp_def]
    · rfl
    · exact hcurs
  have hwf : (Doc.empty (R := R) width n).Wf :=
    { height := by simp only [Doc.empty]; omega
      numLines := by simp [Doc.empty]
      last := by simp [Doc.empty]
      nodup := by
        simp only [Doc.empty, List.map_map]
        exact List.nodup_range.map fun i j hij => Int.ofNat.inj hij
      ids := by
        intro l hl
        obtain ⟨i, hi, rfl⟩ := List.mem_map.mp hl
        have := List.mem_range.mp hi
        simp only [Doc.empty]
        omega
      blank := by
        intro k l _ hl
        obtain ⟨i, -, rfl⟩ := List.mem_map.mp (List.mem_of_getElem? hl)
        exact Rope.chars_new
      curs_le := by
        intro i x hx
        simp only [Doc.empty] at hx
        split at hx
        · cases hx
          exact Nat.le_refl 0
        · cases hx }
  refine ⟨⟨hD, by simp [Page.empty], rfl, ?_, hdoc ▸ hwf⟩, hdoc⟩
  simp only [Page.empty]
  omega

theorem Page.empty_exact (id width : Int) {n : Nat} (hn : 2 ≤ n) :
    (Page.empty (R := R) id width n).Exact := by
  refine { (Page.empty_good id width hn).1 with framed := fun _ => ⟨n, rfl, ⟨⟨?_, Nat.le_refl 0, ?_⟩, ?_, ?_⟩⟩ }
  · simp only [Page.empty]
    omega
  · simp only [Page.empty]
    omega
  · intro k hk
    exact absurd hk (Nat.not_lt_zero k)
  · simp only [Page.flagAt, Page.empty]
    rw [Page.emptyRows_getElem? (by omega)]
    rfl

/-! ## Loading -/

theorem bufferEmpty_exact (id width : Int) {n : Nat} (hn : 2 ≤ n) :
    ∃ b : Buffer R, bufferEmpty id n width = .ok b ∧ HoldsExact b (Doc.empty width n) := by
  obtain ⟨b, hrun, hrep⟩ := bufferEmpty_ok (R := R) id width hn
  exact ⟨b, hrun, _, hrep, Page.empty_exact id width hn, (Page.empty_good id width hn).2⟩

theorem loadByte_exact {b : Buffer R} {d : Doc R} (h : HoldsExact b d) (c : UInt8) :
    ∃ b', loadByte b c = .ok b' ∧ HoldsExact b' (d.loadByte c) := by
  obtain ⟨x, hx⟩ := h.sound.holds.own
  obtain ⟨-, hinsert, hline⟩ := h.sound.holds.returns 0 (by simp [hx])
  unfold loadByte Doc.loadByte
  split
  · obtain ⟨⟨b', res⟩, hrun⟩ := hline
    obtain ⟨e, he, heffect⟩ := h.run (.insertLine 0) trivial id hrun
    cases heffect
    exact ⟨b', by rw [hrun]; rfl, he⟩
  · obtain ⟨⟨b', res⟩, hrun⟩ := hinsert c
    obtain ⟨e, he, heffect⟩ := h.run (.insert 0 c) trivial id hrun
    refine ⟨b', by rw [hrun]; rfl, ?_⟩
    cases heffect with
    | insert => exact he
    | insertNone hnone => simp [hx] at hnone

theorem loadBytes_exact (data : Bytes) :
    ∀ {b : Buffer R} {d : Doc R}, HoldsExact b d →
      ∃ b', data.foldlM loadByte b = .ok b' ∧ HoldsExact b' (d.loadBytes data) := by
  induction data with
  | nil => exact fun h => ⟨_, rfl, h⟩
  | cons c data ih =>
      intro b d h
      obtain ⟨b₁, hrun, h₁⟩ := loadByte_exact h c
      obtain ⟨b', hrun', h'⟩ := ih h₁
      exact ⟨b', by rw [List.foldlM_cons, hrun]; exact hrun', h'⟩

theorem rewind_exact (n : Nat) :
    ∀ {b : Buffer R} {d : Doc R}, HoldsExact b d →
      ∃ b', (List.range n).foldlM (fun b _ => Prod.fst <$> bcursorMove b 0 .up) b = .ok b' ∧
        HoldsExact b' (d.rewind n) := by
  induction n with
  | zero => exact fun h => ⟨_, rfl, h⟩
  | succ n ih =>
      intro b d h
      obtain ⟨b₁, hrun, h₁⟩ := ih h
      obtain ⟨x, hx⟩ := h₁.sound.holds.own
      obtain ⟨⟨b', res⟩, hrun'⟩ := (h₁.sound.holds.returns 0 (by simp [hx])).1 .up
      obtain ⟨e, he, heffect⟩ := h₁.run (.move 0 .up) trivial id hrun'
      cases heffect
      refine ⟨b', ?_, ?_⟩
      · rw [List.range_succ, List.foldlM_append, hrun, Except.ok_bind_eq]
        simp [hrun', Functor.map, Except.map]
      · rw [Doc.rewind, List.range_succ, List.foldl_append]
        exact he

/-- Every file loads, and the buffer holds its document. -/
theorem bufferFromFile_exact (data : Bytes) (id width : Int) {n : Nat} (hn : 2 ≤ n) (ui : Bool) :
    ∃ b : Buffer R, bufferFromFile data id n width ui = .ok b ∧ HoldsExact b (Doc.load data width n ui) := by
  obtain ⟨b₀, hrun₀, h₀⟩ := bufferEmpty_exact (R := R) id width hn
  obtain ⟨b₁, hrun₁, h₁⟩ := loadBytes_exact data h₀
  obtain ⟨b₂, hrun₂, h₂⟩ := rewind_exact (data.count 10) h₁
  obtain ⟨p, hrep, hexact, hdoc⟩ := h₂
  have hgood := hexact.toGood
  have hfind : p.findCurs 0 = .ok .own := by
    rw [← hgood.own_id]
    exact Page.findCurs_of_curs hgood.distinct p.curs_own
  obtain ⟨cur, hcur, hcursor⟩ := hrep.curs_ok p.curs_own
  obtain ⟨r, hr, rfl⟩ := Layout.cursor_row hcursor
  have hrow : p.own.row ≤ p.last := hgood.curs_le p.curs_own
  have hrep' := hrep.setCurs (Page.cursor_of_row (c := ⟨p.own.id, p.own.row, 0⟩) hr) .own
  obtain ⟨hgood', hdoc'⟩ := hgood.setCurs ⟨p.own.id, p.own.row, 0⟩ .own hrow rfl (by simpa using hgood.own_id)
    (fun ref d hd hid => (hgood.own_iff hd).mpr (hid.trans hgood.own_id)) (fun d hd => by
      rw [← Except.ok.inj hd])
  have hown : p.doc.curs 0 = some p.own.place := by
    rw [← hgood.own_id]
    exact Page.doc_curs hgood.distinct p.curs_own
  have hrun : bufferFromFile data id n width ui = .ok (
      if ui then { b₂.setCurs ⟨p.own.id, r.ptr, 0⟩ .own with u := .ui }
      else { b₂.setCurs ⟨p.own.id, r.ptr, 0⟩ .own with u := .null, serverMode := true }) := by
    have hderef : (bcursorFind b₂ 0 >>= derefCurs) = .ok .own := by
      rw [hrep.bcursorFind 0, Except.ok_bind_eq]
      exact hfind
    unfold bufferFromFile
    rw [hrun₀, Except.ok_bind_eq, hrun₁, Except.ok_bind_eq, hrun₂, Except.ok_bind_eq, ← bind_assoc, hderef,
      Except.ok_bind_eq, hcur]
    rfl
  have hdoc₃ : (p.setCurs ⟨p.own.id, p.own.row, 0⟩ .own).doc = p.doc.home := by
    rw [hdoc', hgood.own_id, Doc.put_eq_mapCurs hown, Doc.home]
    refine Doc.mapCurs_congr fun i x hx => ?_
    split
    · next hi =>
        subst hi
        obtain rfl := Option.some.inj (hown.symm.trans hx)
        rfl
    · rfl
  refine ⟨_, hrun, ?_⟩
  rw [Doc.load, ← hdoc, ← hdoc₃]
  have hexact' : (p.setCurs ⟨p.own.id, p.own.row, 0⟩ .own).Exact :=
    { hgood' with
      framed := fun h3 => by
        obtain ⟨m, hm, hframed⟩ := hexact.framed h3
        exact ⟨m, hm, hframed.view.setOwn rfl, hframed.flagged.setCurs p.curs_own rfl⟩ }
  cases ui with
  | true => exact ⟨_, { hrep' with }, hexact', rfl⟩
  | false =>
      refine ⟨{ p.setCurs ⟨p.own.id, p.own.row, 0⟩ .own with serverMode := true }, ?_, ?_, rfl⟩
      · exact { hrep' with serverMode := rfl }
      · exact
          { hgood' with
            doc := { hgood'.doc with }
            framed := fun h3 => by
              obtain ⟨m, hm, hview, hflagged⟩ := hexact'.framed h3
              exact ⟨m, hm, { hview with }, { hflagged with }⟩ }

/-! ## The own cursor -/

namespace Doc

/-- Cursor `0` is on line `r`, and there is no other cursor. -/
structure Alone (r : Nat) (d : Doc R) : Prop where
  serverMode : d.serverMode = false
  own : ∃ pos, 0 ≤ pos ∧ d.curs 0 = some ⟨r, pos⟩
  others : ∀ i, i ≠ 0 → d.curs i = none

namespace Alone

variable {d : Doc R} {r : Nat}

omit [Rope R] in
theorem mapCurs (h : Alone r d) {f : Int → Place → Place} {r' : Nat}
    (hf : ∀ pos, 0 ≤ pos → d.curs 0 = some ⟨r, pos⟩ → (f 0 ⟨r, pos⟩).row = r' ∧ 0 ≤ (f 0 ⟨r, pos⟩).pos) :
    Alone r' (d.mapCurs f) := by
  obtain ⟨pos, hpos, hown⟩ := h.own
  obtain ⟨hrow, hpos'⟩ := hf pos hpos hown
  refine ⟨h.serverMode, ⟨(f 0 ⟨r, pos⟩).pos, hpos', ?_⟩, fun i hi => ?_⟩
  · rw [mapCurs_curs, hown, Option.map_some, ← hrow]
  · rw [mapCurs_curs, h.others i hi, Option.map_none]

omit [Rope R] in
theorem of_eq (h : Alone r d) {e : Doc R} (hmode : e.serverMode = d.serverMode) (hcurs : e.curs = d.curs) : Alone r e :=
  ⟨hmode.trans h.serverMode, hcurs ▸ h.own, hcurs ▸ h.others⟩

theorem insert (h : Alone r d) (c : UInt8) : Alone r (d.insert 0 c) := by
  obtain ⟨pos, hpos, hown⟩ := h.own
  simp only [Doc.insert, hown]
  split
  · exact h
  · have hmod : Alone r (d.modifyStr r (Rope.insert · (sizeT pos) (hstr c))) := h.of_eq rfl rfl
    refine hmod.mapCurs fun _ _ _ => ?_
    rw [if_pos rfl]
    exact ⟨rfl, by simp only; omega⟩

/-- A line break takes the cursor to the next line. -/
theorem insertLine (h : Alone r d) : Alone (r + 1) (d.insertLine 0) := by
  obtain ⟨pos, hpos, hown⟩ := h.own
  simp only [Doc.insertLine, hown]
  split
  · have hnew : Alone (r + 1) ((d.recount 1).newLine r) := by
      have hmap : Alone (r + 1) (d.mapCurs fun _ x => { x with row := bump r x.row }) :=
        h.mapCurs fun pos hpos _ => ⟨by simp [bump], hpos⟩
      exact hmap.of_eq rfl rfl
    refine hnew.mapCurs fun pos hpos _ => ?_
    have hmode : ((d.recount 1).newLine r).serverMode = false := h.serverMode
    simp only [hmode, Bool.false_eq_true, false_and, and_false, if_false, true_and]
    exact hpos
  · have hbelow : ∀ e : Doc R, e.serverMode = false → (∃ x, e.curs 0 = some x) → (∀ i, i ≠ 0 → e.curs i = none) →
        Alone (r + 1) (e.mapCurs fun i x => if i = 0 then ⟨r + 1, 0⟩ else x) := by
      rintro e hmode ⟨x, hx⟩ hnone
      refine ⟨hmode, ⟨0, Int.le_refl 0, ?_⟩, fun i hi => ?_⟩
      · rw [mapCurs_curs, hx]
        rfl
      · rw [mapCurs_curs, hnone i hi, Option.map_none]
    have hcurs : ∀ i, ((d.recount 1).newBelow r).curs i = (d.curs i).map fun x => { x with row := bump (r + 1) x.row } := by
      intro i
      unfold newBelow
      split <;> rfl
    have hmode : ((d.recount 1).newBelow r).serverMode = false := by
      unfold newBelow
      split <;> exact h.serverMode
    unfold insertBelow
    split
    · refine hbelow _ hmode ?_ fun i hi => ?_
      · show ∃ x, (((d.recount 1).newBelow r).curs 0).map _ = some x
        rw [hcurs, hown]
        exact ⟨_, rfl⟩
      · show ((((d.recount 1).newBelow r).curs i).map _) = none
        rw [hcurs, h.others i hi]
        rfl
    · exact hbelow _ hmode ⟨_, by rw [hcurs, hown]; rfl⟩ fun i hi => by rw [hcurs, h.others i hi]; rfl

theorem loadBytes (data : Bytes) : ∀ {d : Doc R} {r : Nat}, Alone r d → Alone (r + data.count 10) (d.loadBytes data) := by
  induction data with
  | nil => exact fun h => h
  | cons c data ih =>
      intro d r h
      rw [Doc.loadBytes, List.foldl_cons, loadByte]
      by_cases hc : c = 10
      · rw [if_pos hc, hc, List.count_cons_self, Nat.add_comm (data.count 10), ← Nat.add_assoc]
        exact ih h.insertLine
      · rw [if_neg hc, List.count_cons_of_ne hc]
        exact ih (h.insert c)

theorem rewind (h : Alone r d) (n : Nat) : Alone (r - n) (d.rewind n) := by
  induction n with
  | zero => exact h
  | succ n ih =>
      rw [Doc.rewind, List.range_succ, List.foldl_append]
      refine ih.mapCurs fun pos hpos _ => ?_
      simp only [if_true, step]
      split
      · refine ⟨by simp only; omega, ?_⟩
        simp only [cut]
        split
        · exact Int.natCast_nonneg _
        · exact hpos
      · next h0 => exact ⟨by simp only at h0 ⊢; omega, hpos⟩

end Alone

/-- The only cursor of a loaded document is the own one, at its start. -/
theorem load_curs (data : Bytes) (width : Int) (n : Nat) (ui : Bool) :
    (load (R := R) data width n ui).curs 0 = some ⟨0, 0⟩ ∧ ∀ i, i ≠ 0 → (load (R := R) data width n ui).curs i = none := by
  have hempty : Alone 0 (empty (R := R) width n) := ⟨rfl, ⟨0, Int.le_refl 0, rfl⟩, fun i hi => if_neg hi⟩
  have hrewound := (Alone.loadBytes data hempty).rewind (data.count 10)
  have hrow : 0 + data.count 10 - data.count 10 = 0 := by omega
  rw [hrow] at hrewound
  obtain ⟨pos, -, hown⟩ := hrewound.own
  have hserve : ∀ d : Doc R, (d.serve ui).curs = d.curs := by
    intro d
    cases ui <;> rfl
  rw [load, hserve, home]
  refine ⟨?_, fun i hi => ?_⟩
  · rw [mapCurs_curs, hown]
    rfl
  · rw [mapCurs_curs, hrewound.others i hi, Option.map_none]

theorem load_height (data : Bytes) (width : Int) (n : Nat) (ui : Bool) :
    (load (R := R) data width n ui).height = n := by
  have hbytes : ∀ (data : Bytes) (d : Doc R), (d.loadBytes data).height = d.height := by
    intro data
    induction data with
    | nil => exact fun d => rfl
    | cons c data ih =>
        intro d
        rw [loadBytes, List.foldl_cons]
        refine (ih _).trans ?_
        unfold loadByte
        split
        · exact insertLine_height d 0
        · exact insert_height d 0 c
  have hrewind : ∀ (d : Doc R) (k : Nat), (d.rewind k).height = d.height := by
    intro d k
    induction k with
    | zero => rfl
    | succ k ih =>
        rw [rewind, List.range_succ, List.foldl_append]
        exact ih
  have hserve : ∀ d : Doc R, (d.serve ui).height = d.height := by
    intro d
    cases ui <;> rfl
  rw [load, hserve]
  exact (hrewind _ _).trans (hbytes data _)

end Doc

end CoEditor
