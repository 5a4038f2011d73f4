-- SUMMARY: The calls of an editing session as data, on buffers, pages and documents, and how the three agree.
import CoEditor.Buffer.Frame
import CoEditor.Doc.Refine
import CoEditor.Page.Build

/-!
# Calls

Whatever a client or a worker does to a buffer is one of the calls below. A
call on a buffer is simulated by the call on its page, which has a known effect
on the document.
-/

namespace CoEditor

variable {R : Type} [Rope R]

inductive Op where
  | new (id lid pos : Int)
  | copyOwn (id : Int)
  | free (id : Int)
  | move (id : Int) (dir : CmoveDir)
  | insert (id : Int) (chr : UInt8)
  | insertLine (id : Int)
  | del (id : Int)
deriving DecidableEq, Repr

namespace Op

/-- Make the call on a buffer. -/
def run (b : Buffer R) : Op → Except Fault (Buffer R × Bres)
  | .new id lid pos => bcursorNew b id lid pos
  | .copyOwn id => bcursorCopyOwn b id
  | .free id => bcursorFree b id
  | .move id dir => bcursorMove b id dir
  | .insert id chr => bcursorInsert b id chr
  | .insertLine id => bcursorInsertLine b id
  | .del id => bcursorDel b id

/-- Make the call on a page; a new line goes into the cell `ptr`. -/
def runPage (p : Page R) (ptr : Ptr) : Op → Except Fault (Page R × Bres)
  | .new id lid pos => p.bcursorNew id lid pos
  | .copyOwn id => p.bcursorCopyOwn id
  | .free id => p.bcursorFree id
  | .move id dir => (·, .update) <$> p.bcursorMove id dir
  | .insert id chr => p.bcursorInsert id chr
  | .insertLine id => (·, .update) <$> p.bcursorInsertLine id ptr
  | .del id => p.bcursorDel id

/-- The calls that edit or move at a cursor. -/
def EditsAt (id : Int) : Op → Prop
  | .move i _ | .insert i _ | .insertLine i | .del i => i = id
  | _ => False

/-- A call does not put a second cursor under an id in use. Id `0` is the own cursor, which is
    replaced. -/
def Fresh (used : Int → Prop) : Op → Prop
  | .new id _ _ | .copyOwn id => id ≠ 0 → ¬ used id
  | _ => True

/-- What a call that returns `res` does to the document. -/
inductive Effect (d : Doc R) : Op → Bres → Doc R → Prop where
  | new {id lid pos : Int} {row : Nat} : d.HasLine lid row →
      Effect d (.new id lid pos) .update (d.put id ⟨row, pos⟩)
  | newFull {id lid pos : Int} : id ≠ 0 → Effect d (.new id lid pos) .failed d
  | copyOwn {id : Int} {x : Place} : d.curs 0 = some x → Effect d (.copyOwn id) .update (d.put id x)
  | copyOwnFull {id : Int} : id ≠ 0 → Effect d (.copyOwn id) .failed d
  | freeOwn : Effect d (.free 0) .failed d
  | free {id : Int} : id ≠ 0 → d.curs id ≠ none → Effect d (.free id) .update (d.drop id)
  | move {id : Int} {dir : CmoveDir} : d.curs id ≠ none →
      Effect d (.move id dir) .update (d.move id dir)
  | insert {id : Int} {chr : UInt8} : d.curs id ≠ none →
      Effect d (.insert id chr) .update (d.insert id chr)
  | insertNone {id : Int} {chr : UInt8} : d.curs id = none → Effect d (.insert id chr) .failed d
  | insertLine {id : Int} : d.curs id ≠ none →
      Effect d (.insertLine id) .update (d.insertLine id)
  | del {id : Int} {cur : Place} : d.curs id = some cur →
      Effect d (.del id) (if ¬ 0 < cur.pos ∧ cur.row = 0 then .failed else .update) (d.del id)

/-- No call changes the height of the document. -/
theorem Effect.height {d e : Doc R} {op : Op} {res : Bres} (h : op.Effect d res e) : e.height = d.height := by
  cases h with
  | new | newFull | copyOwn | copyOwnFull | freeOwn | free | move | insertNone => rfl
  | insert => exact Doc.insert_height ..
  | insertLine => exact Doc.insertLine_height ..
  | del => exact Doc.del_height ..

end Op

/-- A call keeps the fixed fields of a buffer and the number of its stray lines. -/
theorem Op.run_keeps (b : Buffer R) (op : Op) : KeepsFst b.ledger (op.run b) := by
  cases op with
  | new id lid pos => exact bcursorNew_keeps b id lid pos
  | copyOwn id => exact bcursorCopyOwn_keeps b id
  | free id => exact bcursorFree_keeps b id
  | move id dir => exact bcursorMove_keeps b id dir
  | insert id chr => exact bcursorInsert_keeps b id chr
  | insertLine id => exact bcursorInsertLine_keeps b id
  | del id => exact bcursorDel_keeps b id

/-! ## From buffers to pages -/

/-- A call on a buffer and on its page end alike. -/
theorem Rep.run {b : Buffer R} {p : Page R} (h : Rep b p) (hp : p.Good) (op : Op) :
    Sim (fun x y => Rep x.1 y.1 ∧ x.2 = y.2) (op.run b) (op.runPage p b.heap.cells.length) := by
  have hpair : ∀ {x : Except Fault (Buffer R × Bres)} {y : Except Fault (Page R)},
      Sim (fun x q => Rep x.1 q ∧ x.2 = .update) x y →
        Sim (fun x y => Rep x.1 y.1 ∧ x.2 = y.2) x ((·, Bres.update) <$> y) := by
    intro x y hxy
    cases hxy with
    | ok hab => exact .ok hab
    | error => exact .error
  cases op with
  | new id lid pos => exact h.bcursorNew id lid pos
  | copyOwn id => exact h.bcursorCopyOwn id
  | free id => exact h.bcursorFree id
  | move id dir => exact hpair (h.bcursorMove id dir)
  | insert id chr => exact h.bcursorInsert id chr
  | insertLine id => exact hpair (h.bcursorInsertLine hp.distinct hp.slots hp.window id)
  | del id =>
      refine h.bcursorDel hp.distinct hp.slots (fun ref c hc => ?_) id
      have := hp.curs_le hc
      have := hp.last_lt
      omega

/-- A call on a buffer that returns is a call on its page that returns. -/
theorem Rep.run_ok {b b' : Buffer R} {p : Page R} (h : Rep b p) (hp : p.Good) {op : Op} {res : Bres}
    (hrun : op.run b = .ok (b', res)) :
    ∃ q, Rep b' q ∧ op.runPage p b.heap.cells.length = .ok (q, res) := by
  have hsim := h.run hp op
  rw [hrun] at hsim
  obtain ⟨⟨q, res'⟩, hq, hrep, rfl⟩ := hsim.of_ok_left
  exact ⟨q, hrep, hq⟩

/-! ## From pages to documents -/

/-- A call that returns keeps a page good and has its effect on the document. -/
theorem Page.Good.run {p q : Page R} (hp : p.Good) {op : Op} {ptr : Ptr} {res : Bres}
    (hfresh : op.Fresh fun id => p.doc.curs id ≠ none) (h : op.runPage p ptr = .ok (q, res)) :
    q.Good ∧ op.Effect p.doc res q.doc := by
  have hfresh' : ∀ {id : Int}, (id ≠ 0 → ¬ p.doc.curs id ≠ none) → id ≠ 0 → p.doc.curs id = none :=
    fun hf h0 => not_not.mp (hf h0)
  have hown : p.doc.curs 0 = some p.own.place := by
    rw [← hp.own_id]
    exact Page.doc_curs hp.distinct p.curs_own
  cases op with
  | new id lid pos =>
      obtain ⟨hq, ⟨h0, -, rfl, rfl⟩ | ⟨rfl, row, hrow, hdoc⟩⟩ := hp.bcursorNew (hfresh' hfresh) h
      · exact ⟨hq, .newFull h0⟩
      · exact ⟨hq, hdoc ▸ .new hrow⟩
  | copyOwn id =>
      obtain ⟨hq, ⟨h0, -, rfl, rfl⟩ | ⟨rfl, hdoc⟩⟩ := hp.bcursorCopyOwn (hfresh' hfresh) h
      · exact ⟨hq, .copyOwnFull h0⟩
      · exact ⟨hq, hdoc ▸ .copyOwn hown⟩
  | free id =>
      obtain ⟨hq, hcur, ⟨rfl, rfl, rfl⟩ | ⟨h0, rfl, hdoc⟩⟩ := hp.bcursorFree h
      · exact ⟨hq, .freeOwn⟩
      · exact ⟨hq, hdoc ▸ .free h0 hcur⟩
  | move id dir =>
      obtain ⟨q', hrun, hq'⟩ := Except.map_eq_ok.mp h
      obtain ⟨rfl, rfl⟩ := Prod.mk.inj hq'
      obtain ⟨-, hq, hdoc, hcur⟩ := hp.bcursorMove hrun
      exact ⟨hq, hdoc ▸ .move hcur⟩
  | insert id chr =>
      obtain ⟨-, hq, hdoc, ⟨hcur, rfl, rfl⟩ | ⟨hcur, rfl⟩⟩ := hp.bcursorInsert h
      · exact ⟨hq, .insertNone hcur⟩
      · exact ⟨hq, hdoc ▸ .insert hcur⟩
  | insertLine id =>
      obtain ⟨q', hrun, hq'⟩ := Except.map_eq_ok.mp h
      obtain ⟨rfl, rfl⟩ := Prod.mk.inj hq'
      obtain ⟨-, hq, hdoc, hcur⟩ := hp.bcursorInsertLine hrun
      exact ⟨hq, hdoc ▸ .insertLine hcur⟩
  | del id =>
      obtain ⟨-, hq, hdoc, cur, hcur, rfl⟩ := hp.bcursorDel h
      exact ⟨hq, hdoc ▸ .del hcur⟩

/-! ## From buffers to documents -/

/-- Buffer `b` holds document `d`. -/
def Holds (b : Buffer R) (d : Doc R) : Prop := ∃ p, Rep b p ∧ p.Good ∧ p.doc = d

namespace Holds

variable {b b' : Buffer R} {d : Doc R}

theorem wf (h : Holds b d) : d.Wf := by
  obtain ⟨p, -, hgood, rfl⟩ := h
  exact hgood.doc

theorem own (h : Holds b d) : ∃ x, d.curs 0 = some x := by
  obtain ⟨p, -, hgood, rfl⟩ := h
  exact ⟨p.own.place, by rw [← hgood.own_id]; exact Page.doc_curs hgood.distinct p.curs_own⟩

/-- The version is no part of the document. -/
theorem setVer (h : Holds b d) (n : Int) : Holds { b with ver := n } d := by
  obtain ⟨p, hrep, hgood, rfl⟩ := h
  refine ⟨{ p with ver := n }, { hrep with ver := rfl }, ⟨hgood.distinct, hgood.slots, hgood.own_id, hgood.window, ?_⟩, rfl⟩
  exact hgood.doc

/-- A call that returns has its effect on the document. -/
theorem run (h : Holds b d) (op : Op) {res : Bres} (hfresh : op.Fresh fun id => d.curs id ≠ none)
    (hrun : op.run b = .ok (b', res)) : ∃ e, Holds b' e ∧ op.Effect d res e := by
  obtain ⟨p, hrep, hgood, rfl⟩ := h
  obtain ⟨q, hrep', hq⟩ := hrep.run_ok hgood hrun
  obtain ⟨hgood', heffect⟩ := hgood.run hfresh hq
  exact ⟨q.doc, ⟨q, hrep', hgood', rfl⟩, heffect⟩

/-- Moving, typing and breaking lines at an existing cursor always return. -/
theorem returns (h : Holds b d) (id : Int) (hid : d.curs id ≠ none) :
    (∀ dir, ∃ x, bcursorMove b id dir = .ok x) ∧ (∀ chr, ∃ x, bcursorInsert b id chr = .ok x) ∧
      ∃ x, bcursorInsertLine b id = .ok x := by
  obtain ⟨p, hrep, hgood, rfl⟩ := h
  refine ⟨fun dir => ?_, fun chr => ?_, ?_⟩
  · obtain ⟨q, hq⟩ := hgood.bcursorMove_returns hid dir
    have hsim := hrep.bcursorMove id dir
    rw [hq] at hsim
    obtain ⟨x, hx, -⟩ := hsim.of_ok_right
    exact ⟨x, hx⟩
  · obtain ⟨q, hq⟩ := p.bcursorInsert_returns id chr
    have hsim := hrep.bcursorInsert id chr
    rw [hq] at hsim
    obtain ⟨x, hx, -⟩ := hsim.of_ok_right
    exact ⟨x, hx⟩
  · obtain ⟨q, hq⟩ := hgood.bcursorInsertLine_returns hid b.heap.cells.length
    have hsim := hrep.bcursorInsertLine hgood.distinct hgood.slots hgood.window id
    rw [hq] at hsim
    obtain ⟨x, hx, -⟩ := hsim.of_ok_right
    exact ⟨x, hx⟩

theorem bcursorMove (h : Holds b d) {id : Int} {dir : CmoveDir} {res : Bres}
    (hrun : CoEditor.bcursorMove b id dir = .ok (b', res)) : Holds b' (d.move id dir) := by
  obtain ⟨e, he, heffect⟩ := h.run (.move id dir) trivial hrun
  cases heffect
  exact he

theorem bcursorInsert (h : Holds b d) {id : Int} {chr : UInt8} {res : Bres} (hid : d.curs id ≠ none)
    (hrun : CoEditor.bcursorInsert b id chr = .ok (b', res)) : Holds b' (d.insert id chr) := by
  obtain ⟨e, he, heffect⟩ := h.run (.insert id chr) trivial hrun
  cases heffect with
  | insert => exact he
  | insertNone hnone => exact absurd hnone hid

theorem bcursorInsertLine (h : Holds b d) {id : Int} {res : Bres}
    (hrun : CoEditor.bcursorInsertLine b id = .ok (b', res)) : Holds b' (d.insertLine id) := by
  obtain ⟨e, he, heffect⟩ := h.run (.insertLine id) trivial hrun
  cases heffect
  exact he

end Holds

end CoEditor
