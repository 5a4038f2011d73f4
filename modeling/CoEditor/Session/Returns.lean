-- SUMMARY: Which calls return: what happens without a cursor, and what the calls of a worker need.
import CoEditor.Session.Hosted

/-!
# Calls that return

Only `bcursor_insert` looks whether the cursor it is called for exists. With a
cursor every call on the buffer of a worker returns, but for a join of a line
that does not fit the scratch pad.
-/

namespace CoEditor

variable {R : Type} [Rope R]

/-- The calls that act through the cursor `id`. -/
def Op.ActsAt (id : Int) (op : Op) : Prop := op = .free id ∨ op.EditsAt id

variable {b : Buffer R} {id u : Int} {op : Op}

/-! ## Without a cursor -/

/-- Without a cursor only a call to type something comes back, and changes nothing. -/
theorem run_missing (hnone : bcursorFind b id = .ok none) (hop : op.ActsAt id) :
    (∃ c, op = .insert id c) ∧ op.run b = .ok (b, .failed) ∨ (∀ c, op ≠ .insert id c) ∧ op.run b = .error .nullDeref := by
  have hcount : bcursorFind { b with numLines := b.numLines + 1 } id = .ok none := hnone
  rcases hop with rfl | hop
  · exact .inr ⟨by simp, by simp only [Op.run, bcursorFree, hnone, Except.ok_bind_eq]⟩
  · cases op with
    | new | copyOwn | free => exact hop.elim
    | move i dir =>
        obtain rfl : i = id := hop
        exact .inr ⟨by simp, by simp only [Op.run, bcursorMove, hnone, derefCurs, Except.ok_bind_eq, Except.error_bind_eq]⟩
    | insert i c =>
        obtain rfl : i = id := hop
        exact .inl ⟨⟨c, rfl⟩, by simp only [Op.run, bcursorInsert, hnone, Except.ok_bind_eq]; rfl⟩
    | insertLine i =>
        obtain rfl : i = id := hop
        exact .inr ⟨by simp, by
          simp only [Op.run, bcursorInsertLine, hcount, derefCurs, Except.ok_bind_eq, Except.error_bind_eq]⟩
    | del i =>
        obtain rfl : i = id := hop
        exact .inr ⟨by simp, by simp only [Op.run, bcursorDel, hnone, derefCurs, Except.ok_bind_eq, Except.error_bind_eq]⟩

theorem Reached.find_none {ok : Buffer R → Op → Prop} (hb : Reached ok b) (hno : ¬ HasCurs b id) :
    bcursorFind b id = .ok none := by
  obtain ⟨d, p, hrep, -, -⟩ := hb.sound
  cases hfind : p.find id with
  | none => rw [hrep.bcursorFind, hfind]
  | some c => exact absurd ⟨c, by rw [hrep.bcursorFind, hfind]⟩ hno

/-! ## With a cursor -/

theorem Page.Good.bcursorCopyOwn_returns {p : Page R} (hp : p.Good) (id : Int) : ∃ x, p.bcursorCopyOwn id = .ok x := by
  have hown := hp.curs_le p.curs_own
  have hlast := hp.last_lt
  obtain ⟨r, hr⟩ := Page.exists_row (p := p) (i := p.own.row) (by omega)
  have hfind : p.blineFind r.id = some p.own.row := by
    rw [← Page.lineId_of_row hr]
    exact Page.blineFindFrom_lineId hp.idsNodup hown (by omega)
  simp only [Page.bcursorCopyOwn, Page.idAt, hr, Option.map_some, Page.bcursorNew, hfind]
  exact ⟨_, rfl⟩

omit [Rope R] in
theorem Page.bcursorFree_returns {p : Page R} {id : Int} (hid : p.doc.curs id ≠ none) :
    ∃ x, p.bcursorFree id = .ok x := by
  unfold Page.bcursorFree
  split
  · next hnone => exact absurd (Page.doc_curs_eq_none.mpr (Page.find_eq_none.mp hnone)) hid
  · exact ⟨_, rfl⟩
  · exact ⟨_, rfl⟩

/-- A call returns on a buffer if it does on its page. -/
theorem Rep.run_returns {p : Page R} (h : Rep b p) (hp : p.Good)
    (hret : ∃ y, op.runPage p b.heap.cells.length = .ok y) : ∃ x, op.run b = .ok x := by
  obtain ⟨y, hy⟩ := hret
  have hsim := h.run hp op
  rw [hy] at hsim
  obtain ⟨x, hx, -⟩ := hsim.of_ok_right
  exact ⟨x, hx⟩

/-- What a call for a user needs. -/
def Op.Ready (b : Buffer R) : Op → Prop
  | .new .. | .copyOwn _ | .insert .. => True
  | .free id | .move id _ | .insertLine id => HasCurs b id
  | .del id => HasCurs b id ∧ b.JoinFits id

/-- On the buffer of a worker the calls for users return exactly if they have what they need. -/
theorem Hosted.returns_iff (hb : Hosted b) (hby : op.By u) : (∃ x, op.run b = .ok x) ↔ op.Ready b := by
  obtain ⟨h3, d, hexact, -⟩ := hb.exact
  have hcurs := hexact.sound.hasCurs u
  have hmissing : op.ActsAt u → (∀ c, op ≠ .insert u c) → ¬ HasCurs b u → ¬ ∃ x, op.run b = .ok x := by
    intro hacts hins hno hret
    rcases run_missing (hb.reachable.find_none hno) hacts with ⟨⟨c, hc⟩, -⟩ | ⟨-, herr⟩
    · exact hins c hc
    · rw [herr] at hret
      simp at hret
  have hedit : op.EditsAt u → HasCurs b u → (∃ x, op.run b = .ok x) ∨ op = .del u ∧ ¬ b.JoinFits u := by
    intro hop hu
    cases hrun : op.run b with
    | ok x => exact .inl ⟨x, rfl⟩
    | error e => exact .inr (hexact.edit_error h3 (hcurs.mp hu) hop hrun).2
  cases op with
  | new => exact hby.elim
  | copyOwn i =>
      obtain ⟨p, hrep, hp, -⟩ := hexact.sound.holds
      exact iff_true_intro (hrep.run_returns hp (hp.bcursorCopyOwn_returns i))
  | free i =>
      obtain rfl : i = u := hby
      refine ⟨fun hret => not_not.mp fun hno => hmissing (.inl rfl) (by simp) hno hret, fun hu => ?_⟩
      obtain ⟨p, hrep, hp, rfl⟩ := hexact.sound.holds
      exact hrep.run_returns hp (Page.bcursorFree_returns (hcurs.mp hu))
  | insert i c =>
      obtain ⟨p, hrep, hp, -⟩ := hexact.sound.holds
      exact iff_true_intro (hrep.run_returns hp (p.bcursorInsert_returns i c))
  | move i dir =>
      obtain rfl : i = u := hby
      refine ⟨fun hret => not_not.mp fun hno => hmissing (.inr rfl) (by simp) hno hret, fun hu => ?_⟩
      exact (hedit rfl hu).resolve_right (by simp)
  | insertLine i =>
      obtain rfl : i = u := hby
      refine ⟨fun hret => not_not.mp fun hno => hmissing (.inr rfl) (by simp) hno hret, fun hu => ?_⟩
      exact (hedit rfl hu).resolve_right (by simp)
  | del i =>
      obtain rfl : i = u := hby
      constructor
      · intro hret
        refine ⟨not_not.mp fun hno => hmissing (.inr rfl) (by simp) hno hret, not_not.mp fun hno => ?_⟩
        obtain ⟨p, hrep, hp, -⟩ := hexact.sound.holds
        have herr := hp.bcursorDel_overflow (mt (hrep.joinFits_iff i).mpr hno)
        obtain ⟨x, hx⟩ := hret
        rw [((hrep.run hp (.del i)).error_iff .overflow).mpr herr] at hx
        cases hx
      · rintro ⟨hu, hfits⟩
        exact (hedit rfl hu).resolve_right fun h => h.2 hfits

end CoEditor
