-- SUMMARY: The document a page holds, and that every page operation does to it what the document operation does.
import CoEditor.Doc.Wf
import CoEditor.Page.Edits

/-!
# Pages refine documents

`Page.doc` forgets the window and the slots. Each theorem takes an operation
that returns on a good page to the operation of the same name on its document.
-/

namespace CoEditor

variable {R : Type}

def PageCursor.place (c : PageCursor) : Place := ⟨c.row, c.pos⟩

@[simp] theorem PageCursor.place_row (c : PageCursor) : c.place.row = c.row := rfl
@[simp] theorem PageCursor.place_pos (c : PageCursor) : c.place.pos = c.pos := rfl

namespace Page

/-- The document a page holds. -/
def doc (p : Page R) : Doc R where
  numLines := p.numLines
  lineIdCnt := p.lineIdCnt
  height := p.height
  width := p.width
  serverMode := p.serverMode
  lines := p.rows.map fun r => (r.id, r.str)
  last := p.last
  curs := fun id => (p.find id).bind fun ref => (p.curs ref).toOption.map PageCursor.place

/-! ## Cursors -/

theorem doc_curs {p : Page R} (hD : p.Distinct) {ref : CursRef} {c : PageCursor}
    (hc : p.curs ref = .ok c) : p.doc.curs c.id = some c.place := by
  simp [doc, find_of_curs hD hc, hc, Except.toOption]

theorem curs_of_doc {p : Page R} {id : Int} {x : Place} (hx : p.doc.curs id = some x) :
    ∃ ref c, p.curs ref = .ok c ∧ c.id = id ∧ c.place = x := by
  obtain ⟨ref, href, hx⟩ := Option.bind_eq_some_iff.mp hx
  obtain ⟨c, hc, hid⟩ := curs_of_find href
  rw [hc] at hx
  exact ⟨ref, c, hc, hid, Option.some.inj hx⟩

theorem doc_curs_eq_none {p : Page R} {id : Int} :
    p.doc.curs id = none ↔ ∀ ref c, p.curs ref = .ok c → c.id ≠ id := by
  rw [← find_eq_none]
  constructor
  · intro hnone
    cases hf : p.find id with
    | none => rfl
    | some ref =>
        obtain ⟨c, hc, -⟩ := curs_of_find hf
        simp [doc, hf, hc, Except.toOption] at hnone
  · intro hf
    simp [doc, hf]

/-- `q` has the cursors of `p` under the same ids, each moved by `g`. -/
structure CursMap (p q : Page R) (g : Int → Place → Place) : Prop where
  ids : ∀ ref, PageCursor.id <$> q.curs ref = PageCursor.id <$> p.curs ref
  leads : ∀ ref c, p.curs ref = .ok c → ∃ e, q.curs ref = .ok e ∧ e.place = g c.id c.place

namespace CursMap

variable {p q : Page R} {g : Int → Place → Place}

theorem back (hm : CursMap p q g) {ref : CursRef} {e : PageCursor} (he : q.curs ref = .ok e) :
    ∃ c, p.curs ref = .ok c ∧ c.id = e.id ∧ e.place = g c.id c.place := by
  have hid := hm.ids ref
  rw [he] at hid
  obtain ⟨c, hc, hce⟩ := Except.map_eq_ok.mp hid.symm
  obtain ⟨e', he', hplace⟩ := hm.leads ref c hc
  obtain rfl : e' = e := Except.ok.inj (he'.symm.trans he)
  exact ⟨c, hc, hce, hplace⟩

theorem distinct (hm : CursMap p q g) (hD : p.Distinct) : q.Distinct := by
  intro ref ref' e e' he he' hid
  obtain ⟨c, hc, hce, -⟩ := hm.back he
  obtain ⟨c', hc', hce', -⟩ := hm.back he'
  exact hD ref ref' c c' hc hc' (by rw [hce, hce', hid])

theorem doc_curs (hm : CursMap p q g) (hD : p.Distinct) (i : Int) :
    q.doc.curs i = (p.doc.curs i).map (g i) := by
  cases hp : p.doc.curs i with
  | none =>
      rw [doc_curs_eq_none] at hp
      simp only [Option.map_none, doc_curs_eq_none]
      intro ref e he
      obtain ⟨c, hc, hce, -⟩ := hm.back he
      rw [← hce]
      exact hp ref c hc
  | some x =>
      obtain ⟨ref, c, hc, rfl, rfl⟩ := curs_of_doc hp
      obtain ⟨e, he, hplace⟩ := hm.leads ref c hc
      have hid := hm.ids ref
      rw [he, hc] at hid
      have hid : e.id = c.id := Except.ok.inj hid
      rw [← hid, Page.doc_curs (hm.distinct hD) he, hplace, hid]
      rfl

end CursMap

/-- A page that keeps the rows of `p` holds the document of `p` with the cursors moved. -/
theorem Kept.doc {p q : Page R} (hk : Kept p q) (hD : p.Distinct) {g : Int → Place → Place}
    (hg : ∀ ref c, p.curs ref = .ok c → ∃ e, q.curs ref = .ok e ∧ e.place = g c.id c.place) :
    q.doc = p.doc.mapCurs g := by
  have hrows : q.rows.map (fun r => (r.id, r.str)) = p.rows.map fun r => (r.id, r.str) := by
    have hbody := congrArg (List.map Prod.snd) hk.rows
    simpa [Function.comp_def, Row.body] using hbody
  have hcurs : q.doc.curs = (p.doc.mapCurs g).curs :=
    funext fun i => CursMap.doc_curs ⟨hk.ids, hg⟩ hD i
  ext1
  · exact hk.numLines
  · exact hk.lineIdCnt
  · exact hk.height
  · exact hk.width
  · exact hk.serverMode
  · exact hrows
  · exact hk.last
  · exact hcurs

/-! ## Rows -/

/-- Changing the text of a row changes the text of that line. -/
theorem modifyRow_doc (p : Page R) (k : Nat) {f : Row R → Row R} {g : R → R}
    (hf : ∀ r, ((f r).id, (f r).str) = (r.id, g r.str)) : (p.modifyRow k f).doc = p.doc.modifyStr k g := by
  have hlines : (p.rows.modify k f).map (fun r => (r.id, r.str)) =
      (p.rows.map fun r => (r.id, r.str)).modify k fun l => (l.1, g l.2) := by
    apply List.ext_getElem?
    intro i
    simp only [List.getElem?_map, List.getElem?_modify]
    cases p.rows[i]? with
    | none => rfl
    | some r => by_cases hk : k = i <;> simp [hk, hf]
  have hfind : (p.modifyRow k f).find = p.find := rfl
  ext1
  · rfl
  · rfl
  · rfl
  · rfl
  · rfl
  · exact hlines
  · rfl
  · funext i
    simp only [doc, hfind, Doc.modifyStr]
    congr 1

theorem doc_getElem? (p : Page R) (i : Nat) : p.doc.lines[i]? = p.rows[i]?.map fun r => (r.id, r.str) := by
  simp [doc]

theorem doc_length (p : Page R) : p.doc.lines.length = p.rows.length := by simp [doc]

variable [Rope R]

theorem doc_len (p : Page R) (i : Nat) : p.doc.len i = p.len i := by
  simp only [Doc.len, Page.len, doc_getElem?, Option.map_map]
  rfl

theorem doc_strAt (p : Page R) (i : Nat) : p.doc.strAt i = p.strAt i := by
  simp only [Doc.strAt, Page.strAt, doc_getElem?, Option.map_map]
  rfl

theorem doc_step (p : Page R) (c : PageCursor) (dir : CmoveDir) :
    (p.cursorMove c dir).1.place = p.doc.step c.place dir := by
  have hlast : p.doc.last = p.last := rfl
  cases dir <;> simp only [cursorMove, Doc.step, Page.cut, Doc.cut, doc_len, doc_length, hlast,
    PageCursor.place_row, PageCursor.place_pos] <;> grind [PageCursor.place]

theorem newRow_cursMap (p : Page R) (k : Nat) (ptr : Ptr) :
    CursMap p (p.newRow k ptr) fun _ x => { x with row := bump k x.row } where
  ids ref := by
    rw [newRow_curs]
    cases p.curs ref <;> rfl
  leads ref c hc := ⟨c.mapRow (bump k), by rw [newRow_curs, hc]; rfl, rfl⟩

theorem newRow_doc {p : Page R} (hD : p.Distinct) (k : Nat) (ptr : Ptr) :
    (p.newRow k ptr).doc = p.doc.newLine k := by
  have hlines : (p.newRow k ptr).rows.map (fun r => (r.id, r.str)) =
      (p.rows.map fun r => (r.id, r.str)).insertIdx k (p.lineIdCnt, Rope.new) := by
    rw [newRow_rows, List.map_insertIdx]
  have hcurs : (p.newRow k ptr).doc.curs = (p.doc.newLine k).curs :=
    funext fun i => (p.newRow_cursMap k ptr).doc_curs hD i
  ext1
  · rfl
  · rfl
  · rfl
  · rfl
  · rfl
  · exact hlines
  · rfl
  · exact hcurs

theorem newBelow_doc {p : Page R} (hD : p.Distinct) (row : Nat) (ptr : Ptr) :
    (p.newBelow row ptr).doc = p.doc.newBelow row := by
  have hnew := newRow_doc hD (row + 1) ptr
  have hlast : p.doc.last = p.last := rfl
  unfold newBelow Doc.newBelow
  rw [hlast]
  split
  · rw [← hnew]
    rfl
  · exact hnew

theorem splitText_doc (p : Page R) (k : Nat) (pos : Int) :
    (p.splitText k pos).doc = p.doc.splitText k pos := by
  have hcopy : ((p.doc.lines[k]?.map fun l => Rope.copy l.2).getD Rope.new : R) =
      (p.rows[k]?.map fun r => Rope.copy r.str).getD Rope.new := by
    rw [doc_getElem?, Option.map_map]
    rfl
  simp only [splitText, Doc.splitText, hcopy]
  rw [modifyRow_doc, modifyRow_doc]
  · exact fun _ => rfl
  · exact fun _ => rfl

theorem rowsBelow_doc {p : Page R} (hD : p.Distinct) (row : Nat) (pos : Int) (ptr : Ptr) :
    (p.rowsBelow row pos ptr).doc =
      if sizeT pos ≠ p.doc.len row then (p.doc.newBelow row).splitText row pos else p.doc.newBelow row := by
  unfold rowsBelow
  rw [doc_len]
  split
  · rw [splitText_doc, newBelow_doc hD]
  · exact newBelow_doc hD row ptr

omit [Rope R] in
theorem eraseRow_doc {p : Page R} (hD : p.Distinct) (k : Nat) :
    CursMap p (p.eraseRow k) (fun _ x => { x with row := unbump k x.row }) ∧
      (p.eraseRow k).doc = p.doc.eraseLine k := by
  have hmap : CursMap p (p.eraseRow k) fun _ x => { x with row := unbump k x.row } :=
    { ids := by
        intro ref
        rw [eraseRow_curs]
        cases p.curs ref <;> rfl
      leads := fun ref c hc => ⟨c.mapRow (unbump k), by rw [eraseRow_curs, hc]; rfl, rfl⟩ }
  have hlines : (p.eraseRow k).rows.map (fun r => (r.id, r.str)) =
      (p.rows.map fun r => (r.id, r.str)).eraseIdx k := by
    apply List.ext_getElem?
    intro i
    simp only [eraseRow, List.getElem?_map, List.getElem?_eraseIdx]
    split <;> rfl
  have hcurs : (p.eraseRow k).doc.curs = (p.doc.eraseLine k).curs := funext fun i => hmap.doc_curs hD i
  refine ⟨hmap, ?_⟩
  ext1
  · rfl
  · rfl
  · rfl
  · rfl
  · rfl
  · exact hlines
  · rfl
  · exact hcurs

omit [Rope R] in
theorem leaveMarks_doc {p : Page R} {k : Nat} (hlast : p.last ≠ k) : (p.leaveMarks k).doc = p.doc := by
  have hlast' : (p.leaveMarks k).last = p.last := if_neg hlast
  rw [doc, hlast']
  rfl

omit [Rope R] in
/-- Emptying a slot takes its cursor away. -/
theorem curs_freeSlot (p : Page R) (i : Nat) (ref : CursRef) (c : PageCursor) :
    ({ p with peers := p.peers.set i none } : Page R).curs ref = .ok c ↔ ref ≠ .peer i ∧ p.curs ref = .ok c := by
  cases ref with
  | own => exact ⟨fun h => ⟨nofun, h⟩, fun h => h.2⟩
  | peer j =>
      rw [curs_peer, curs_peer]
      simp only [List.getElem?_set]
      grind

/-- Every slot for a peer cursor is taken. -/
def Full (p : Page R) : Prop := p.peers.findIdx? (·.isNone) = none

theorem bcursorInsert_returns (p : Page R) (id : Int) (chr : UInt8) :
    ∃ x, p.bcursorInsert id chr = .ok x := by
  unfold Page.bcursorInsert
  cases hf : p.find id with
  | none => exact ⟨_, rfl⟩
  | some ref =>
      obtain ⟨c, hc, -⟩ := curs_of_find hf
      simp only [hc, Except.ok_bind_eq]
      split <;> exact ⟨_, rfl⟩

/-! ## Good pages -/

/-- Pages with the same cursor ids in the same slots. -/
structure SameSlots (p q : Page R) : Prop where
  ids : ∀ ref, PageCursor.id <$> q.curs ref = PageCursor.id <$> p.curs ref
  slots : q.peers.length = p.peers.length

omit [Rope R] in
theorem SameSlots.refl (p : Page R) : SameSlots p p := ⟨fun _ => rfl, rfl⟩

/-- A page as the operations keep it. -/
structure Good (p : Page R) : Prop where
  distinct : p.Distinct
  slots : p.peers.length = maxCursorNum
  own_id : p.own.id = 0
  window : p.top < p.bottom
  doc : p.doc.Wf

namespace Good

variable {p q : Page R}

theorem curs_le (hp : p.Good) {ref : CursRef} {c : PageCursor} (hc : p.curs ref = .ok c) :
    c.row ≤ p.last := hp.doc.curs_le c.id c.place (doc_curs hp.distinct hc)

theorem last_lt (hp : p.Good) : p.last + 1 < p.rows.length := by
  have h := hp.doc.last_lt
  rwa [doc_length] at h

/-- Only the own cursor has id `0`. -/
theorem own_iff (hp : p.Good) {ref : CursRef} {c : PageCursor} (hc : p.curs ref = .ok c) :
    ref = .own ↔ c.id = 0 := by
  constructor
  · rintro rfl
    rw [← Except.ok.inj hc]
    exact hp.own_id
  · intro h0
    exact hp.distinct ref .own c p.own hc rfl (h0.trans hp.own_id.symm)

theorem of_sameSlots (hp : p.Good) (h : SameSlots p q) (hw : q.top < q.bottom) (hdoc : q.doc.Wf) : q.Good where
  distinct := by
    intro ref ref' e e' he he' hid
    obtain ⟨c, hc, hce⟩ := Except.map_eq_ok.mp ((h.ids ref).symm.trans (by rw [he]; rfl))
    obtain ⟨c', hc', hce'⟩ := Except.map_eq_ok.mp ((h.ids ref').symm.trans (by rw [he']; rfl))
    exact hp.distinct ref ref' c c' hc hc' (by rw [hce, hce', hid])
  slots := h.slots.trans hp.slots
  own_id := (Except.ok.inj (h.ids .own)).trans hp.own_id
  window := hw
  doc := hdoc

/-! ## Moving -/

theorem moveCurs (hp : p.Good) {ref : CursRef} {c : PageCursor} (hc : p.curs ref = .ok c) (dir : CmoveDir) :
    SameSlots p (p.moveCurs ref c dir) ∧ (p.moveCurs ref c dir).Good ∧
      (p.moveCurs ref c dir).doc = p.doc.move c.id dir := by
  obtain ⟨hmoved, hto, hrest⟩ := moveCurs_spec hc dir
  have hdoc : (p.moveCurs ref c dir).doc = p.doc.move c.id dir := by
    refine hmoved.toKept.doc hp.distinct fun ref' d hd => ?_
    by_cases hid : d.id = c.id
    · obtain rfl := hp.distinct ref' ref d c hd hc hid
      obtain rfl : d = c := Except.ok.inj (hd.symm.trans hc)
      exact ⟨_, hto, by rw [if_pos rfl, doc_step]⟩
    · have hne : ref' ≠ ref := by
        rintro rfl
        exact hid (by rw [Except.ok.inj (hd.symm.trans hc)])
      exact ⟨d, (hrest ref' hne).trans hd, by rw [if_neg hid]⟩
  have hslots : SameSlots p (p.moveCurs ref c dir) := ⟨hmoved.ids, hmoved.slots⟩
  refine ⟨hslots, hp.of_sameSlots hslots ?_ (hdoc ▸ hp.doc.move c.id dir), hdoc⟩
  have := hmoved.window
  have := hp.window
  omega

theorem bcursorMove (hp : p.Good) {id : Int} {dir : CmoveDir} (h : p.bcursorMove id dir = .ok q) :
    SameSlots p q ∧ q.Good ∧ q.doc = p.doc.move id dir ∧ p.doc.curs id ≠ none := by
  obtain ⟨ref, href, hrun⟩ := Except.bind_eq_ok.mp h
  obtain ⟨c, hc, rfl⟩ := curs_of_findCurs href
  obtain ⟨c', hc', hrun⟩ := Except.bind_eq_ok.mp hrun
  obtain rfl : c = c' := Except.ok.inj (hc.symm.trans hc')
  obtain rfl := Except.ok.inj hrun
  obtain ⟨hslots, hgood, hdoc⟩ := hp.moveCurs hc dir
  exact ⟨hslots, hgood, hdoc, by rw [doc_curs hp.distinct hc]; simp⟩

/-! ## Characters -/

/-- The text of a cursor's row changes, and the cursor and those after it move by `n` columns. -/
theorem shift (hp : p.Good) {ref : CursRef} {c : PageCursor} (hc : p.curs ref = .ok c) (f : R → R) (n : Int) :
    SameSlots p (((p.modifyRow c.row fun r => { r with str := f r.str }).setCurs { c with pos := c.pos + n } ref).nudgeOthers
        ref { c with pos := c.pos + n } n) ∧
      (((p.modifyRow c.row fun r => { r with str := f r.str }).setCurs { c with pos := c.pos + n } ref).nudgeOthers
        ref { c with pos := c.pos + n } n).Good ∧
      (((p.modifyRow c.row fun r => { r with str := f r.str }).setCurs { c with pos := c.pos + n } ref).nudgeOthers
        ref { c with pos := c.pos + n } n).doc = (p.doc.modifyStr c.row f).shift c.id c.place n := by
  generalize hp₁ : (p.modifyRow c.row fun r => { r with str := f r.str }) = p₁
  have hcurs₁ : ∀ ref, p₁.curs ref = p.curs ref := fun ref => by rw [← hp₁]; exact curs_congr rfl rfl ref
  have hdoc₁ : p₁.doc = p.doc.modifyStr c.row f := by rw [← hp₁]; exact p.modifyRow_doc c.row fun _ => rfl
  have hD₁ : p₁.Distinct := distinct_congr hcurs₁ hp.distinct
  have hc₁ : p₁.curs ref = .ok c := (hcurs₁ ref).trans hc
  obtain ⟨hkept, hcurs⟩ := shift_spec hc₁ n
  have hdoc : ((p₁.setCurs { c with pos := c.pos + n } ref).nudgeOthers ref { c with pos := c.pos + n } n).doc =
      (p.doc.modifyStr c.row f).shift c.id c.place n := by
    rw [← hdoc₁]
    refine hkept.doc hD₁ fun ref' d hd => ⟨_, hcurs ref' d hd, ?_⟩
    have href : ref' = ref ↔ d.id = c.id :=
      ⟨fun e => by subst e; rw [Except.ok.inj (hd.symm.trans hc₁)], fun e => hD₁ ref' ref d c hd hc₁ e⟩
    by_cases hid : d.id = c.id
    · rw [shiftCursor, if_pos (href.mpr hid), if_pos hid]
      rfl
    · have hne : ref' ≠ ref := mt href.mp hid
      have hne' : ref ≠ ref' := fun e => hne e.symm
      rw [shiftCursor, if_neg hne, if_neg hid]
      simp only [nudge, after, hne', ne_eq, not_false_eq_true, true_and, decide_eq_true_eq]
      have hiff : (c.place.row = d.place.row ∧ c.place.pos + n < d.place.pos) ↔
          (c.row = d.row ∧ c.pos + n < d.pos) := Iff.rfl
      by_cases hafter : c.row = d.row ∧ c.pos + n < d.pos
      · rw [if_pos hafter, if_pos (hiff.mpr hafter)]
        rfl
      · rw [if_neg hafter, if_neg (mt hiff.mp hafter)]
  have hslots : SameSlots p ((p₁.setCurs { c with pos := c.pos + n } ref).nudgeOthers
      ref { c with pos := c.pos + n } n) := by
    refine ⟨fun ref => (hkept.ids ref).trans (by rw [hcurs₁]), ?_⟩
    rw [hkept.slots, ← hp₁]
    rfl
  refine ⟨hslots, hp.of_sameSlots hslots ?_ ?_, hdoc⟩
  · have hw := hp.window
    subst hp₁
    cases ref <;> exact hw
  · rw [hdoc]
    exact (hp.doc.modifyStr (hp.curs_le hc) f).shift c.id (hp.curs_le hc) n

theorem bcursorInsert (hp : p.Good) {id : Int} {chr : UInt8} {res : Bres}
    (h : p.bcursorInsert id chr = .ok (q, res)) :
    SameSlots p q ∧ q.Good ∧ q.doc = p.doc.insert id chr ∧
      (p.doc.curs id = none ∧ res = .failed ∧ q = p ∨ p.doc.curs id ≠ none ∧ res = .update) := by
  unfold Page.bcursorInsert at h
  unfold Doc.insert
  split at h
  · next hfind =>
      obtain ⟨rfl, rfl⟩ := Prod.mk.inj (Except.ok.inj h)
      have hnone : p.doc.curs id = none := by simp [Page.doc, hfind]
      simp [hnone, hp, SameSlots.refl]
  · next ref hfind =>
      obtain ⟨c, hc, rfl⟩ := curs_of_find hfind
      have hcur := doc_curs hp.distinct hc
      simp only [hc, Except.ok_bind_eq] at h
      simp only [hcur, doc_len, PageCursor.place_row]
      have hwidth : p.doc.width = p.width := rfl
      rw [hwidth]
      split at h
      · next hfull =>
          obtain ⟨rfl, rfl⟩ := Prod.mk.inj (Except.ok.inj h)
          simp [hfull, hp, SameSlots.refl]
      · next hfull =>
          obtain ⟨rfl, rfl⟩ := Prod.mk.inj (Except.ok.inj h)
          obtain ⟨hslots, hgood, hdoc⟩ := hp.shift hc (fun str => Rope.insert str (sizeT c.pos) (hstr chr)) 1
          simp only [hfull, if_false]
          exact ⟨hslots, hgood, hdoc, by simp⟩

/-! ## A new line -/

omit [Rope R] in
theorem recount {p p₁ : Page R} {n : Int} (h : { p with numLines := p.numLines + n } = p₁) (hD : p.Distinct) :
    p₁.doc = p.doc.recount n ∧ p₁.Distinct ∧ ∀ ref, p₁.curs ref = p.curs ref := by
  subst h
  have hcurs : ∀ ref, ({ p with numLines := p.numLines + n } : Page R).curs ref = p.curs ref :=
    fun ref => curs_congr rfl rfl ref
  exact ⟨rfl, distinct_congr hcurs hD, hcurs⟩

/-- An empty line above a cursor at the start of its row. -/
theorem insertAbove (hp : p.Good) {ref : CursRef} {c : PageCursor} (hc : p.curs ref = .ok c) (ptr : Ptr)
    (h : { p with numLines := p.numLines + 1 }.insertAbove ref c.row ptr = .ok q) :
    SameSlots p q ∧ q.Good ∧ q.doc = ((p.doc.recount 1).newLine c.row).homeUp := by
  generalize hp₁ : ({ p with numLines := p.numLines + 1 } : Page R) = p₁ at h
  obtain ⟨hdoc₁, hD₁, hcurs₁⟩ := recount hp₁ hp.distinct
  obtain ⟨q', hrun, hkept, hcurs, hwindow⟩ := insertAbove_spec hD₁ ref c.row ptr (by
    subst hp₁
    exact Nat.le_of_lt hp.window)
  obtain rfl : q' = q := Except.ok.inj (hrun.symm.trans h)
  have hmap := newRow_cursMap p₁ c.row ptr
  have hdoc : q'.doc = ((p.doc.recount 1).newLine c.row).homeUp := by
    rw [← hdoc₁, ← newRow_doc hD₁ c.row ptr]
    refine hkept.doc (newRow_distinct hD₁ c.row ptr) fun ref' o ho => ⟨_, hcurs ref' o ho, ?_⟩
    have hown : ref' = .own ↔ o.id = 0 := by
      obtain ⟨d, hd, hid, -⟩ := hmap.back ho
      rw [← hid]
      exact hp.own_iff ((hcurs₁ ref').symm.trans hd)
    have hiff : (ref' = .own ∧ (p₁.newRow c.row ptr).serverMode ∧ o.row ≠ 0) ↔
        (o.id = 0 ∧ (p₁.newRow c.row ptr).doc.serverMode ∧ o.place.row ≠ 0) := and_congr hown Iff.rfl
    by_cases hhome : ref' = .own ∧ (p₁.newRow c.row ptr).serverMode ∧ o.row ≠ 0
    · rw [homeCursor, if_pos hhome, doc_step]
      exact (if_pos (hiff.mp hhome)).symm
    · rw [homeCursor, if_neg hhome]
      exact (if_neg (mt hiff.mpr hhome)).symm
  have hslots : SameSlots p q' := by
    refine ⟨fun ref' => by rw [hkept.ids, hmap.ids, hcurs₁], ?_⟩
    rw [hkept.slots, ← hp₁]
    simp [newRow, insertRow, mapMarks]
  refine ⟨hslots, hp.of_sameSlots hslots ?_ ?_, hdoc⟩
  · have := hp.window
    subst hp₁
    simp only at hwindow
    omega
  · rw [hdoc]
    exact (hp.doc.newAbove (hp.curs_le hc)).homeUp

omit [Rope R] in
/-- A cursor that stands in one line with `c`, right of it, as the document sees it. -/
theorem after_iff {r : Page R} (hD : r.Distinct) {ref ref' : CursRef} {c o : PageCursor}
    (hc : r.curs ref = .ok c) (ho : r.curs ref' = .ok o) :
    after ref c ref' o = true ↔ o.id ≠ c.id ∧ c.place.row = o.place.row ∧ c.place.pos < o.place.pos := by
  have hne : ref ≠ ref' ↔ o.id ≠ c.id := by
    refine not_congr ⟨?_, fun hid => (hD ref' ref o c ho hc hid).symm⟩
    rintro rfl
    rw [Except.ok.inj (hc.symm.trans ho)]
  simp only [after, decide_eq_true_eq, hne, PageCursor.place_row, PageCursor.place_pos]

theorem splitCursor_place {r : Page R} (hD : r.Distinct) {ref ref' : CursRef} {c o : PageCursor}
    (hc : r.curs ref = .ok c) (ho : r.curs ref' = .ok o) :
    (r.splitCursor ref c ref' o).place =
      if o.id ≠ c.id ∧ c.place.row = o.place.row ∧ c.place.pos < o.place.pos then
        r.doc.step { o.place with pos := o.place.pos - c.place.pos } .down
      else o.place := by
  have hiff := after_iff hD hc ho
  unfold splitCursor
  by_cases hafter : after ref c ref' o = true
  · rw [if_pos hafter, if_pos (hiff.mp hafter), doc_step]
    rfl
  · rw [if_neg hafter, if_neg (mt hiff.mpr hafter)]

theorem insertBelow (hp : p.Good) {ref : CursRef} {c : PageCursor} (hc : p.curs ref = .ok c) (ptr : Ptr)
    (h : { p with numLines := p.numLines + 1 }.insertBelow c.id ref c.row c.pos ptr = .ok q) :
    SameSlots p q ∧ q.Good ∧ q.doc = (p.doc.recount 1).insertBelow c.id c.place := by
  generalize hp₁ : ({ p with numLines := p.numLines + 1 } : Page R) = p₁ at h
  obtain ⟨hdoc₁, hD₁, hcurs₁⟩ := recount hp₁ hp.distinct
  have hc₁ : p₁.curs ref = .ok c := (hcurs₁ ref).trans hc
  obtain ⟨q', hrun, hkept, hself, hcurs, hwindow⟩ := insertBelow_spec hD₁ (by subst hp₁; exact hp.slots) hc₁ ptr
    (by subst hp₁; exact hp.window) (by subst hp₁; exact hp.curs_le hc)
    (by subst hp₁; exact Nat.lt_of_succ_lt hp.last_lt)
  obtain rfl : q' = q := Except.ok.inj (hrun.symm.trans h)
  have hnew := p₁.newBelow_curs c.row ptr
  have hrows := p₁.rowsBelow_curs c.row c.pos ptr
  have hD₂ := rowsBelow_distinct hD₁ c.row c.pos ptr
  have hc₂ : (p₁.rowsBelow c.row c.pos ptr).curs ref = .ok c := by
    rw [hrows, hc₁]
    exact congrArg Except.ok c.mapRow_bump_self
  have hdoc : q'.doc = (p.doc.recount 1).insertBelow c.id c.place := by
    have hto := hkept.doc hD₂ (g := fun i x =>
      if i = c.id then ⟨c.row + 1, 0⟩
      else if sizeT c.pos ≠ p₁.len c.row then
        if i ≠ c.id ∧ c.place.row = x.row ∧ c.place.pos < x.pos then
          (p₁.rowsBelow c.row c.pos ptr).doc.step { x with pos := x.pos - c.place.pos } .down
        else x
      else x) fun ref' o ho => by
        by_cases href : ref' = ref
        · subst href
          rw [Except.ok.inj (ho.symm.trans hc₂)]
          exact ⟨_, hself, (if_pos rfl).symm⟩
        · have hid : o.id ≠ c.id := fun e => href (hD₂ ref' ref o c ho hc₂ e)
          have ho' : (p₁.newBelow c.row ptr).curs ref' = .ok o := by rw [hnew, ← hrows, ho]
          refine ⟨_, hcurs ref' href o ho', ?_⟩
          rw [if_neg hid, belowCursor]
          split
          · exact splitCursor_place hD₂ hc₂ ho
          · rfl
    rw [hto, rowsBelow_doc hD₁, ← hdoc₁, doc_len]
    unfold Doc.insertBelow
    by_cases hsplit : sizeT c.pos ≠ p₁.len c.row
    · have hsplit' : sizeT c.place.pos ≠ p₁.doc.len c.place.row := by rw [doc_len]; exact hsplit
      simp only [if_pos hsplit, if_pos hsplit', Doc.splitCurs, Doc.mapCurs_mapCurs]
      rfl
    · have hsplit' : ¬ sizeT c.place.pos ≠ p₁.doc.len c.place.row := by rw [doc_len]; exact hsplit
      simp only [if_neg hsplit, if_neg hsplit']
      rfl
  have hslots : SameSlots p q' := by
    refine ⟨fun ref' => ?_, by rw [hkept.slots, rowsBelow_slots, ← hp₁]⟩
    rw [hkept.ids, hrows, ← hcurs₁]
    cases p₁.curs ref' <;> rfl
  refine ⟨hslots, hp.of_sameSlots hslots hwindow ?_, hdoc⟩
  · rw [hdoc]
    exact hp.doc.insertBelow c.id (hp.curs_le hc)

theorem bcursorInsertLine (hp : p.Good) {id : Int} {ptr : Ptr} (h : p.bcursorInsertLine id ptr = .ok q) :
    SameSlots p q ∧ q.Good ∧ q.doc = p.doc.insertLine id ∧ p.doc.curs id ≠ none := by
  unfold Page.bcursorInsertLine at h
  obtain ⟨ref, href, hrun⟩ := Except.bind_eq_ok.mp h
  obtain ⟨c, hc, rfl⟩ := curs_of_findCurs href
  obtain ⟨c', hc', hrun⟩ := Except.bind_eq_ok.mp hrun
  obtain rfl : c = c' := Except.ok.inj (hc.symm.trans hc')
  have hc₀ : p.curs ref = .ok c := (curs_congr rfl rfl ref).trans hc
  have hcur := doc_curs hp.distinct hc₀
  simp only [Doc.insertLine, hcur]
  by_cases hpos : c.pos = 0
  · rw [if_pos hpos] at hrun
    obtain ⟨hslots, hgood, hdoc⟩ := hp.insertAbove hc₀ ptr hrun
    exact ⟨hslots, hgood, by rw [if_pos (show c.place.pos = 0 from hpos)]; exact hdoc, by simp⟩
  · rw [if_neg hpos] at hrun
    obtain ⟨hslots, hgood, hdoc⟩ := hp.insertBelow hc₀ ptr hrun
    exact ⟨hslots, hgood, by rw [if_neg (show ¬ c.place.pos = 0 from hpos)]; exact hdoc, by simp⟩

/-! ## Deleting -/

theorem joinRows_doc (p : Page R) (k : Nat) : (p.joinRows k).doc = (p.doc.raiseLast k).joinText k := by
  have hraise : (p.raiseLast k).doc = p.doc.raiseLast k := by
    have hlast : p.doc.last = p.last := rfl
    unfold Page.raiseLast Doc.raiseLast
    rw [hlast]
    split <;> rfl
  unfold Page.joinRows Page.joinText Doc.joinText
  rw [← hraise, doc_strAt]
  dsimp only
  split
  · exact modifyRow_doc _ _ fun _ => rfl
  · rfl

/-- A cursor on the row below row `k`, as the document sees it. -/
theorem joinCursor_place {r : Page R} (hD : r.Distinct) {ref ref' : CursRef} {c o : PageCursor}
    (hc : r.curs ref = .ok c) (ho : r.curs ref' = .ok o) {n : Nat} (hn : c.pos = n) :
    (r.joinCursor ref c ref' o).place =
      if o.id ≠ c.id ∧ c.row + 1 = o.place.row then
        { r.doc.step o.place .up with pos := (r.doc.step o.place .up).pos + n }
      else o.place := by
  have hne : ref ≠ ref' ↔ o.id ≠ c.id := by
    refine not_congr ⟨?_, fun hid => (hD ref' ref o c ho hc hid).symm⟩
    rintro rfl
    rw [Except.ok.inj (hc.symm.trans ho)]
  have hiff : (ref ≠ ref' ∧ c.row + 1 = o.row) ↔ (o.id ≠ c.id ∧ c.row + 1 = o.place.row) :=
    and_congr hne Iff.rfl
  unfold joinCursor
  by_cases hbelow : ref ≠ ref' ∧ c.row + 1 = o.row
  · rw [if_pos hbelow, if_pos (hiff.mp hbelow), ← doc_step, hn]
    rfl
  · rw [if_neg hbelow, if_neg (mt hiff.mpr hbelow)]

/-- The deletion of a row that no cursor is on. -/
theorem deletel_doc {x : Page R} (hD : x.Distinct) {k : Nat}
    (hnone : ∀ ref c, x.curs ref = .ok c → c.row ≠ k) (hlast : x.last ≠ k) (h0 : 0 < k) (hw : x.top < x.bottom)
    (h : x.deletel k = .ok q) :
    q.doc = x.doc.eraseLine k ∧ (∀ ref, PageCursor.id <$> q.curs ref = PageCursor.id <$> x.curs ref) ∧
      q.peers.length = x.peers.length ∧ q.top < q.bottom := by
  obtain ⟨y, -, hkept, hcurs, hwindow, rfl⟩ := deletel_ok hnone h
  have hcurs' : ∀ ref, (y.leaveMarks k).curs ref = x.curs ref := fun ref => by rw [leaveMarks_curs, hcurs]
  obtain ⟨hmap, hdoc⟩ := eraseRow_doc (distinct_congr hcurs' hD) k
  refine ⟨?_, fun ref => by rw [hmap.ids, hcurs'], ?_, leaveErase_window y h0 (hwindow hw)⟩
  · have hy : y.doc = x.doc := by
      have hto := hkept.doc hD (g := fun _ z => z) fun ref c hc => ⟨c, by rw [hcurs, hc], rfl⟩
      simpa [Doc.mapCurs] using hto
    rw [hdoc, leaveMarks_doc (by rw [hkept.last]; exact hlast), hy]
  · rw [← hkept.slots]
    simp [eraseRow, leaveMarks, mapMarks]

/-- A deletion at the start of a row joins it to the row above. -/
theorem join (hp : p.Good) {ref : CursRef} {c : PageCursor} (hc : p.curs ref = .ok c) (hpos : ¬ 0 < c.pos)
    (h0 : c.row ≠ 0) {x : Page R}
    (h : (({ p with numLines := p.numLines - 1 } : Page R).moveCurs ref c .left).joinLines ref = .ok x)
    {cur : PageCursor} (hcur : x.curs ref = .ok cur) (hq : x.deletel (cur.row + 1) = .ok q) :
    SameSlots p q ∧ q.Good ∧ q.doc = p.doc.join c.id (c.row - 1) := by
  rw [Int.sub_eq_add_neg] at h
  generalize hp₁ : ({ p with numLines := p.numLines + -1 } : Page R) = p₁ at h
  obtain ⟨hdoc₁, hD₁, hcurs₁⟩ := recount hp₁ hp.distinct
  have hc₁ : p₁.curs ref = .ok c := (hcurs₁ ref).trans hc
  have hslots₁ : p₁.peers.length = maxCursorNum := by subst hp₁; exact hp.slots
  have hlen₁ : p₁.len (c.row - 1) = p.doc.len (c.row - 1) := by rw [doc_len, ← hp₁]; rfl
  obtain ⟨-, hmoved₂, hself₂, hrest₂⟩ := bcursorMove_left hD₁ hc₁ hpos h0
  generalize p₁.moveCurs ref c .left = p₂ at h hmoved₂ hself₂ hrest₂
  have hD₂ := hmoved₂.distinct hD₁
  have hdoc₂ : p₂.doc = (p.doc.recount (-1)).put c.id ⟨c.row - 1, p.doc.len (c.row - 1)⟩ := by
    rw [← hdoc₁, Doc.put_eq_mapCurs (doc_curs hD₁ hc₁)]
    refine hmoved₂.toKept.doc hD₁ fun ref' o ho => ?_
    by_cases href : ref' = ref
    · subst href
      rw [Except.ok.inj (ho.symm.trans hc₁)]
      exact ⟨_, hself₂, by rw [if_pos rfl, ← hlen₁]; rfl⟩
    · have hid : o.id ≠ c.id := fun e => href (hD₁ ref' ref o c ho hc₁ e)
      exact ⟨o, (hrest₂ ref' href).trans ho, (if_neg hid).symm⟩
  obtain ⟨hmoved, hself, hcurs, hnone⟩ := joinLines_ok hD₂ (hmoved₂.slots.trans hslots₁) hself₂ h
  simp only at hmoved hself hcurs hnone
  obtain rfl := Except.ok.inj (hself.symm.trans hcur)
  have hjoin := p₂.joinRows_curs (c.row - 1)
  have hD₃ := distinct_congr hjoin hD₂
  have hdoc₃ : x.doc =
      ((p₂.doc.raiseLast (c.row - 1)).joinText (c.row - 1)).joinCurs c.id (c.row - 1) (p.doc.len (c.row - 1)) := by
    rw [← joinRows_doc]
    refine hmoved.toKept.doc hD₃ fun ref' o ho => ⟨_, hcurs ref' o ((hjoin ref').symm.trans ho), ?_⟩
    exact joinCursor_place hD₃ ((hjoin ref).trans hself₂) ho (congrArg Nat.cast hlen₁)
  have hlast : x.last ≠ c.row - 1 + 1 := by
    rw [hmoved.last, joinRows_last]
    split <;> omega
  have hw : x.top < x.bottom := by
    obtain ⟨htop, hbottom⟩ := p₂.joinRows_window (c.row - 1)
    have hw₁ : p₁.top < p₁.bottom := by subst hp₁; exact hp.window
    have := hmoved₂.window
    have := hmoved.window
    omega
  obtain ⟨hdoc, hids, hlength, hwindow⟩ := deletel_doc (hmoved.distinct hD₃) hnone hlast (by omega) hw hq
  have hto : q.doc = p.doc.join c.id (c.row - 1) := by
    rw [hdoc, hdoc₃, hdoc₂]
    rfl
  have hslots : SameSlots p q := by
    refine ⟨fun ref' => by rw [hids, hmoved.ids, hjoin, hmoved₂.ids, hcurs₁], ?_⟩
    rw [hlength, hmoved.slots, joinRows_peers, hmoved₂.slots, ← hp₁]
  refine ⟨hslots, hp.of_sameSlots hslots hwindow ?_, hto⟩
  · rw [hto]
    have hle : c.row ≤ p.doc.last := hp.curs_le hc
    exact hp.doc.join c.id (by omega)

theorem bcursorDel (hp : p.Good) {id : Int} {res : Bres} (h : p.bcursorDel id = .ok (q, res)) :
    SameSlots p q ∧ q.Good ∧ q.doc = p.doc.del id ∧ ∃ cur, p.doc.curs id = some cur ∧
      res = if ¬ 0 < cur.pos ∧ cur.row = 0 then .failed else .update := by
  unfold Page.bcursorDel at h
  obtain ⟨ref, href, hrun⟩ := Except.bind_eq_ok.mp h
  obtain ⟨c, hc, rfl⟩ := curs_of_findCurs href
  obtain ⟨c', hc', hrun⟩ := Except.bind_eq_ok.mp hrun
  obtain rfl : c = c' := Except.ok.inj (hc.symm.trans hc')
  have hcur := doc_curs hp.distinct hc
  have hdel : p.doc.del c.id = if 0 < c.pos then p.doc.delChar c.id c.place
      else if c.row = 0 then p.doc else p.doc.join c.id (c.row - 1) := by
    simp only [Doc.del, hcur]
    rfl
  rw [hdel, hcur]
  split at hrun
  · next hpos =>
      obtain ⟨rfl, rfl⟩ := Prod.mk.inj (Except.ok.inj hrun)
      rw [if_pos hpos]
      obtain ⟨hslots, hgood, hdoc⟩ := hp.shift hc (fun str => Rope.del str (sizeT (c.pos - 1)) 1) (-1)
      exact ⟨hslots, hgood, hdoc, c.place, rfl, (if_neg fun h => h.1 hpos).symm⟩
  · next hpos =>
      rw [if_neg hpos]
      split at hrun
      · next h0 =>
          obtain ⟨rfl, rfl⟩ := Prod.mk.inj (Except.ok.inj hrun)
          rw [if_pos h0]
          exact ⟨.refl p, hp, rfl, c.place, rfl, (if_pos ⟨hpos, h0⟩).symm⟩
      · next h0 =>
          rw [if_neg h0]
          have hcurs₁ : ∀ ref, ({ p with numLines := p.numLines - 1 } : Page R).curs ref = p.curs ref :=
            fun ref => curs_congr rfl rfl ref
          have hD₁ : ({ p with numLines := p.numLines - 1 } : Page R).Distinct := distinct_congr hcurs₁ hp.distinct
          obtain ⟨hleft, -⟩ := bcursorMove_left hD₁ ((hcurs₁ ref).trans hc) hpos h0
          rw [hleft, Except.ok_bind_eq] at hrun
          obtain ⟨x, hx, hrun⟩ := Except.bind_eq_ok.mp hrun
          obtain ⟨cur, hcur', hrun⟩ := Except.bind_eq_ok.mp hrun
          obtain ⟨y, hy, hrun⟩ := Except.bind_eq_ok.mp hrun
          obtain ⟨rfl, rfl⟩ := Prod.mk.inj (Except.ok.inj hrun)
          obtain ⟨hslots, hgood, hdoc⟩ := hp.join hc hpos h0 hx hcur' hy
          exact ⟨hslots, hgood, hdoc, c.place, rfl, (if_neg fun h => h0 h.2).symm⟩

/-! ## Adding and removing cursors -/

omit [Rope R] in
theorem curs_setCurs_free {i : Nat} (hi : i < p.peers.length) (c : PageCursor) :
    (p.setCurs c (.peer i)).curs (.peer i) = .ok c := curs_peer.mpr (by simp [setCurs, hi])

/-- Putting a cursor into its place puts it into the document. -/
theorem setCurs (hp : p.Good) (c : PageCursor) (ref : CursRef) (hrow : c.row ≤ p.last)
    (hself : (p.setCurs c ref).curs ref = .ok c) (hid : ref = .own ↔ c.id = 0)
    (hfresh : ∀ ref' d, p.curs ref' = .ok d → d.id = c.id → ref' = ref)
    (hold : ∀ d, p.curs ref = .ok d → d.id = c.id) :
    (p.setCurs c ref).Good ∧ (p.setCurs c ref).doc = p.doc.put c.id c.place := by
  have hD : (p.setCurs c ref).Distinct := by
    intro ref₁ ref₂ c₁ c₂ h₁ h₂ heq
    by_cases hr₁ : ref₁ = ref
    · subst hr₁
      obtain rfl := Except.ok.inj (h₁.symm.trans hself)
      by_cases hr₂ : ref₂ = ref₁
      · exact hr₂.symm
      · rw [curs_setCurs_ne hr₂] at h₂
        exact (hfresh ref₂ c₂ h₂ heq.symm).symm
    · rw [curs_setCurs_ne hr₁] at h₁
      by_cases hr₂ : ref₂ = ref
      · subst hr₂
        obtain rfl := Except.ok.inj (h₂.symm.trans hself)
        exact hfresh ref₁ c₁ h₁ heq
      · rw [curs_setCurs_ne hr₂] at h₂
        exact hp.distinct ref₁ ref₂ c₁ c₂ h₁ h₂ heq
  have hdoc : (p.setCurs c ref).doc = p.doc.put c.id c.place := by
    have hcurs : (p.setCurs c ref).doc.curs = (p.doc.put c.id c.place).curs := by
      funext i
      by_cases hi : i = c.id
      · subst hi
        rw [doc_curs hD hself]
        simp [Doc.put]
      · simp only [Doc.put, if_neg hi]
        cases hcase : p.doc.curs i with
        | none =>
            rw [doc_curs_eq_none] at hcase ⊢
            intro ref' d hd
            rcases setCurs_curs hd with rfl | hd
            · exact fun e => hi e.symm
            · exact hcase ref' d hd
        | some x =>
            obtain ⟨ref', d, hd, rfl, rfl⟩ := curs_of_doc hcase
            have hne : ref' ≠ ref := by
              rintro rfl
              exact hi (hold d hd)
            exact doc_curs hD ((curs_setCurs_ne hne c).trans hd)
    ext1
    · cases ref <;> rfl
    · cases ref <;> rfl
    · cases ref <;> rfl
    · cases ref <;> rfl
    · cases ref <;> rfl
    · cases ref <;> rfl
    · cases ref <;> rfl
    · exact hcurs
  refine ⟨⟨hD, ?_, ?_, ?_, ?_⟩, hdoc⟩
  · rw [← hp.slots]
    cases ref <;> simp [Page.setCurs]
  · cases ref with
    | own => exact hid.mp rfl
    | peer i => exact hp.own_id
  · cases ref <;> exact hp.window
  · rw [hdoc]
    exact hp.doc.put c.id hrow

theorem bcursorNew (hp : p.Good) {id lid pos : Int} {res : Bres} (hfresh : id ≠ 0 → p.doc.curs id = none)
    (h : p.bcursorNew id lid pos = .ok (q, res)) :
    q.Good ∧ (id ≠ 0 ∧ p.Full ∧ res = .failed ∧ q = p ∨
      res = .update ∧ ∃ row, p.doc.HasLine lid row ∧ q.doc = p.doc.put id ⟨row, pos⟩) := by
  unfold Page.bcursorNew at h
  split at h
  · cases h
  · next row hfind =>
      obtain ⟨hle, hlid⟩ := blineFindFrom_some hfind
      have hline : p.doc.HasLine lid row := by
        refine ⟨hle, ?_⟩
        rw [doc_getElem?, Option.map_map]
        exact hlid
      have h := Except.ok.inj h
      unfold addCurs at h
      split at h
      · next h0 =>
          obtain ⟨rfl, rfl⟩ := Prod.mk.inj h
          obtain ⟨hgood, hdoc⟩ := hp.setCurs ⟨id, row, pos⟩ .own hle rfl (by simpa using h0)
            (fun ref d hd hid => (hp.own_iff hd).mpr (hid.trans h0)) (fun d hd => by
              rw [← Except.ok.inj hd, hp.own_id]
              exact h0.symm)
          exact ⟨hgood, .inr ⟨rfl, row, hline, hdoc⟩⟩
      · next h0 =>
          split at h
          · next hfull =>
              obtain ⟨rfl, rfl⟩ := Prod.mk.inj h
              exact ⟨hp, .inl ⟨h0, hfull, rfl, rfl⟩⟩
          · next i hi =>
              obtain ⟨rfl, rfl⟩ := Prod.mk.inj h
              obtain ⟨hlt, hnone, -⟩ := List.findIdx?_eq_some_iff_getElem.mp hi
              have hnone : p.peers[i] = none := by simpa using hnone
              obtain ⟨hgood, hdoc⟩ := hp.setCurs ⟨id, row, pos⟩ (.peer i) hle
                (curs_setCurs_free hlt _) (by simpa using h0)
                (fun ref d hd hid => absurd hid (doc_curs_eq_none.mp (hfresh h0) ref d hd)) (fun d hd => by
                  rw [curs_peer, List.getElem?_eq_getElem hlt, hnone] at hd
                  simp at hd)
              exact ⟨hgood, .inr ⟨rfl, row, hline, hdoc⟩⟩

theorem bcursorCopyOwn (hp : p.Good) {id : Int} {res : Bres} (hfresh : id ≠ 0 → p.doc.curs id = none)
    (h : p.bcursorCopyOwn id = .ok (q, res)) :
    q.Good ∧ (id ≠ 0 ∧ p.Full ∧ res = .failed ∧ q = p ∨ res = .update ∧ q.doc = p.doc.put id p.own.place) := by
  unfold Page.bcursorCopyOwn at h
  split at h
  · cases h
  · next lid hlid =>
      obtain ⟨hgood, hres⟩ := hp.bcursorNew hfresh h
      refine ⟨hgood, hres.imp_right ?_⟩
      rintro ⟨hres, row, hrow, hdoc⟩
      have hown : p.doc.HasLine lid p.own.row := by
        refine ⟨hp.curs_le p.curs_own, ?_⟩
        rw [doc_getElem?, Option.map_map]
        exact hlid
      obtain rfl := hp.doc.hasLine_inj hrow hown
      exact ⟨hres, hdoc⟩

theorem bcursorFree (hp : p.Good) {id : Int} {res : Bres} (h : p.bcursorFree id = .ok (q, res)) :
    q.Good ∧ p.doc.curs id ≠ none ∧
      (id = 0 ∧ res = .failed ∧ q = p ∨ id ≠ 0 ∧ res = .update ∧ q.doc = p.doc.drop id) := by
  unfold Page.bcursorFree at h
  split at h
  · cases h
  · next hfind =>
      obtain ⟨rfl, rfl⟩ := Prod.mk.inj (Except.ok.inj h)
      obtain ⟨c, hc, rfl⟩ := curs_of_find hfind
      rw [doc_curs hp.distinct hc]
      exact ⟨hp, by simp, .inl ⟨(hp.own_iff hc).mp rfl, rfl, rfl⟩⟩
  · next i hfind =>
      obtain ⟨rfl, rfl⟩ := Prod.mk.inj (Except.ok.inj h)
      obtain ⟨c, hc, rfl⟩ := curs_of_find hfind
      have hfree := p.curs_freeSlot i
      have hD : ({ p with peers := p.peers.set i none } : Page R).Distinct := by
        intro ref ref' d d' hd hd' hid
        exact hp.distinct ref ref' d d' ((hfree ref d).mp hd).2 ((hfree ref' d').mp hd').2 hid
      have hdoc : ({ p with peers := p.peers.set i none } : Page R).doc = p.doc.drop c.id := by
        have hcurs : ({ p with peers := p.peers.set i none } : Page R).doc.curs = (p.doc.drop c.id).curs := by
          funext j
          simp only [Doc.drop]
          split
          · next hj =>
              rw [doc_curs_eq_none]
              intro ref d hd hid
              obtain ⟨hne, hd⟩ := (hfree ref d).mp hd
              exact hne (hp.distinct ref (.peer i) d c hd hc (hid.trans hj))
          · next hj =>
              cases hcase : p.doc.curs j with
              | none =>
                  rw [doc_curs_eq_none] at hcase ⊢
                  exact fun ref d hd => hcase ref d ((hfree ref d).mp hd).2
              | some x =>
                  obtain ⟨ref, d, hd, rfl, rfl⟩ := curs_of_doc hcase
                  refine doc_curs hD ((hfree ref d).mpr ⟨?_, hd⟩)
                  rintro rfl
                  exact hj (by rw [Except.ok.inj (hd.symm.trans hc)])
        ext1
        · rfl
        · rfl
        · rfl
        · rfl
        · rfl
        · rfl
        · rfl
        · exact hcurs
      rw [doc_curs hp.distinct hc]
      refine ⟨⟨hD, ?_, hp.own_id, hp.window, ?_⟩, by simp, .inr ⟨?_, rfl, hdoc⟩⟩
      · rw [← hp.slots]
        simp
      · rw [hdoc]
        exact hp.doc.drop c.id
      · intro h0
        cases (hp.own_iff hc).mpr h0

/-! ## Calls that return -/

/-- An existing cursor is found. -/
theorem findCurs_ok (hp : p.Good) {id : Int} (hid : p.doc.curs id ≠ none) :
    ∃ ref c, p.findCurs id = .ok ref ∧ p.curs ref = .ok c ∧ c.id = id := by
  cases hcur : p.doc.curs id with
  | none => exact absurd hcur hid
  | some x =>
      obtain ⟨ref, c, hc, rfl, -⟩ := curs_of_doc hcur
      exact ⟨ref, c, findCurs_of_curs hp.distinct hc, hc, rfl⟩

theorem bcursorMove_returns (hp : p.Good) {id : Int} (hid : p.doc.curs id ≠ none) (dir : CmoveDir) :
    ∃ q, p.bcursorMove id dir = .ok q := by
  obtain ⟨ref, c, -, hc, rfl⟩ := hp.findCurs_ok hid
  exact ⟨_, bcursorMove_of_curs hp.distinct hc dir⟩

theorem bcursorInsertLine_returns (hp : p.Good) {id : Int} (hid : p.doc.curs id ≠ none) (ptr : Ptr) :
    ∃ q, p.bcursorInsertLine id ptr = .ok q := by
  obtain ⟨ref, c, href, hc, rfl⟩ := hp.findCurs_ok hid
  generalize hp₁ : ({ p with numLines := p.numLines + 1 } : Page R) = p₁
  obtain ⟨-, hD₁, hcurs₁⟩ := recount hp₁ hp.distinct
  have hc₁ : p₁.curs ref = .ok c := (hcurs₁ ref).trans hc
  have href₁ : p₁.findCurs c.id = .ok ref := findCurs_of_curs hD₁ hc₁
  have hw : p₁.top < p₁.bottom := by subst hp₁; exact hp.window
  simp only [Page.bcursorInsertLine, hp₁, href₁, hc₁, Except.ok_bind_eq]
  split
  · obtain ⟨q, hrun, -⟩ := insertAbove_spec hD₁ ref c.row ptr (Nat.le_of_lt hw)
    exact ⟨q, hrun⟩
  · obtain ⟨q, hrun, -⟩ := insertBelow_spec hD₁ (by subst hp₁; exact hp.slots) hc₁ ptr hw
      (by subst hp₁; exact hp.curs_le hc) (by subst hp₁; exact Nat.lt_of_succ_lt hp.last_lt)
    exact ⟨q, hrun⟩

end Good

end Page

end CoEditor
