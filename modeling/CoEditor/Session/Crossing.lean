-- SUMMARY: A client and a worker whose calls cross on the way: they stay in step as long as it does not matter which comes first.
import CoEditor.Lib.Crossing
import CoEditor.Session.Sheets

/-!
# Calls that cross

The users of a document type, break lines, delete and move. A client that is in
step with the worker shows the sheet that both would come to from the same
calls, made in another order.
-/

namespace CoEditor

variable {R : Type} [Rope R]

/-- The document after a call at a cursor. -/
def Doc.apply (d : Doc R) : Op → Doc R
  | .move id dir => d.move id dir
  | .insert id chr => d.insert id chr
  | .insertLine id => d.insertLine id
  | .del id => d.del id
  | _ => d

/-! ## One call -/

namespace Op

variable {op : Op} {d e : Doc R} {u v : Int}

theorem Effect.eq_apply {res : Bres} (h : op.Effect d res e) (hop : op.EditsAt v) : e = d.apply op := by
  cases h with
  | new | newFull | copyOwn | copyOwnFull | freeOwn | free => exact hop.elim
  | move | insert | insertLine | del => rfl
  | insertNone hnone => simp only [Doc.apply, Doc.insert, hnone]

theorem EditsAt.inj (h : op.EditsAt u) (h' : op.EditsAt v) : u = v := by
  cases op with
  | new | copyOwn | free => exact h.elim
  | move | insert | insertLine | del => exact h.symm.trans h'

theorem EditsAt.fresh (h : op.EditsAt v) (used : Int → Prop) : op.Fresh used := by
  cases op with
  | new | copyOwn => exact h.elim
  | free | move | insert | insertLine | del => trivial

end Op

/-- A call at a cursor, made on a buffer and on the document it holds. -/
theorem Holds.edit {b b' : Buffer R} {d : Doc R} {op : Op} {v : Int} {res : Bres} (h : Holds b d) (hop : op.EditsAt v)
    (hrun : op.run b = .ok (b', res)) : Holds b' (d.apply op) := by
  obtain ⟨e, he, heffect⟩ := h.run op (hop.fresh _) hrun
  exact heffect.eq_apply hop ▸ he

namespace Doc

variable {d e : Doc R} {op : Op} {u v w : Int}

theorem Wf.apply (h : d.Wf) (op : Op) : (d.apply op).Wf := by
  cases op with
  | new | copyOwn | free => exact h
  | move => exact h.move _ _
  | insert => exact h.insert _ _
  | insertLine => exact h.insertLine _
  | del => exact h.del _

theorem InRange.apply (h : d.InRange) (hwf : d.Wf) (hascii : op.TypesAscii) : (d.apply op).InRange := by
  cases op with
  | new | copyOwn | free => exact h
  | move => exact h.move _ _
  | insert => exact h.insert hwf _ hascii.1 hascii.2
  | insertLine => exact h.insertLine hwf _
  | del => exact h.del hwf _

end Doc

/-! ## Calls under other ids -/

/-- The call under the ids that its user's cursor has. -/
def Op.under (ids : Int → Int) : Op → Op
  | .move v dir => .move (ids v) dir
  | .insert v chr => .insert (ids v) chr
  | .insertLine v => .insertLine (ids v)
  | .del v => .del (ids v)
  | op => op

namespace Op

variable {op : Op} {u v : Int}

theorem EditsAt.cursor (hop : op.EditsAt v) : op.cursor = v := by
  cases op with
  | new | copyOwn | free => exact hop.elim
  | move | insert | insertLine | del => exact hop

theorem under_id (op : Op) : op.under id = op := by cases op <;> rfl

/-- The calls of other users are made under the same ids at a client. -/
theorem EditsAt.under_ne (hop : op.EditsAt v) (hvu : v ≠ u) : op.under (clientId u) = op := by
  cases op with
  | new | copyOwn | free => exact hop.elim
  | move | insert | insertLine | del =>
      obtain rfl := hop
      rw [under, clientId_ne hvu]

theorem EditsAt.under (hop : op.EditsAt v) (ids : Int → Int) : (op.under ids).EditsAt (ids v) := by
  cases op with
  | new | copyOwn | free => exact hop.elim
  | move | insert | insertLine | del => exact congrArg ids hop

theorem TypesAscii.under (h : op.TypesAscii) (ids : Int → Int) : (op.under ids).TypesAscii := by
  cases op <;> exact h

end Op

namespace Doc

variable {d : Doc R} {ids : Int → Int} {s : Sheet} {op : Op} {v : Int}

theorem apply_of_none (hop : op.EditsAt v) (hnone : d.curs v = none) : d.apply op = d := by
  cases op with
  | new | copyOwn | free => exact hop.elim
  | move i dir =>
      obtain rfl : i = v := hop
      refine (mapCurs_congr (g := fun _ x => x) fun j x hx => if_neg ?_).trans ?_
      · rintro rfl
        cases hnone.symm.trans hx
      · simp only [mapCurs, Option.map_id']
  | insert i chr =>
      obtain rfl : i = v := hop
      simp only [apply, Doc.insert, hnone]
  | insertLine i =>
      obtain rfl : i = v := hop
      simp only [apply, Doc.insertLine, hnone]
  | del i =>
      obtain rfl : i = v := hop
      simp only [apply, Doc.del, hnone]

theorem apply_serverMode (hwf : d.Wf) (op : Op) : (d.apply op).serverMode = d.serverMode := by
  cases op with
  | new | copyOwn | free | move => rfl
  | insert id chr => exact (insert_counts d id chr).2
  | insertLine id =>
      cases hx : d.curs id with
      | none => simp only [apply, Doc.insertLine, hx]
      | some x => exact (insertLine_counts hwf hx).2
  | del id =>
      simp only [apply, Doc.del]
      split
      · rfl
      · split
        · rfl
        · split
          · rfl
          · exact (join_counts d id _).2

/-- The document is in order, and `s` is its sheet. -/
structure Shows (ids : Int → Int) (d : Doc R) (s : Sheet) : Prop where
  wf : d.Wf
  inRange : d.InRange
  names : d.Names ids
  sheet : d.sheet ids = s

/-- A call at a user's cursor does the same to the sheet. -/
theorem Shows.apply (h : d.Shows ids s) (hop : op.EditsAt v) (hv : v ≠ 0) (hascii : op.TypesAscii) :
    (d.apply (op.under ids)).Shows ids (s.apply op) where
  wf := h.wf.apply _
  inRange := h.inRange.apply h.wf (hascii.under ids)
  names := ⟨h.names.inj, fun w hw h0 => by rw [apply_serverMode h.wf, h.names.home w hw h0]⟩
  sheet := by
    obtain rfl := h.sheet
    have hcurs : (d.sheet ids).curs op.cursor = d.curs (ids v) := by rw [hop.cursor, sheet_curs hv]
    cases hx : d.curs (ids v) with
    | none => rw [apply_of_none (hop.under ids) hx, Sheet.apply_of_none (hcurs.trans hx)]
    | some x =>
        rw [Sheet.apply_of_some (hcurs.trans hx)]
        cases op with
        | new | copyOwn | free => exact hop.elim
        | move i dir =>
            obtain rfl : i = v := hop
            exact sheet_move h.inRange h.wf h.names hv hx dir
        | insert i chr =>
            obtain rfl : i = v := hop
            exact sheet_insert h.inRange h.wf h.names hv hx hascii.1 hascii.2
        | insertLine i =>
            obtain rfl : i = v := hop
            exact sheet_insertLine h.inRange h.wf h.names hv hx
        | del i =>
            obtain rfl : i = v := hop
            exact sheet_del h.inRange h.wf h.names hv hx

end Doc

/-! ## Worker and client -/

/-- The worker shows `s`, and client `u` shows `t` with its document `e`. The calls `up` are on the way to the worker, and
    the calls `down` on the way back. -/
structure Doc.Follows (u : Int) (s t : Sheet) (e : Doc R) (up down : List Op) : Prop where
  user : u ≠ 0
  client : e.Shows (clientId u) t
  own : ∀ op ∈ up, op.EditsAt u ∧ op.TypesAscii
  others : ∀ op ∈ down, op.TypesAscii ∧ ∃ v, v ≠ 0 ∧ v ≠ u ∧ op.EditsAt v
  inStep : InStep Sheet.apply s t up down

namespace Doc.Follows

variable {u v : Int} {s t : Sheet} {e : Doc R} {op : Op} {up down : List Op}

/-- The client makes a call at its own cursor. -/
theorem press (h : e.Follows u s t up down) (hop : op.EditsAt u) (hascii : op.TypesAscii)
    (hcomm : Commutes Sheet.apply op t down) : (e.apply (op.under (clientId u))).Follows u s (t.apply op) (up ++ [op]) down where
  user := h.user
  client := h.client.apply hop h.user hascii
  own := by
    intro op' hop'
    rcases List.mem_append.mp hop' with hop' | hop'
    · exact h.own op' hop'
    · obtain rfl := List.mem_singleton.mp hop'
      exact ⟨hop, hascii⟩
  others := h.others
  inStep := h.inStep.press_iff.mpr hcomm

/-- A call of the client arrives at the worker. -/
theorem arrive (h : e.Follows u s t (op :: up) down) : e.Follows u (s.apply op) t up down :=
  { h with
    own := fun op' hop' => h.own op' (List.mem_cons_of_mem _ hop')
    inStep := h.inStep.own }

/-- A call of another user arrives at the worker, and is sent on. -/
theorem other (h : e.Follows u s t up down) (hv : v ≠ 0) (hvu : v ≠ u) (hop : op.EditsAt v) (hascii : op.TypesAscii)
    (hcomm : Commutes Sheet.apply op s up) : e.Follows u (s.apply op) t up (down ++ [op]) :=
  { h with
    others := by
      intro op' hop'
      rcases List.mem_append.mp hop' with hop' | hop'
      · exact h.others op' hop'
      · obtain rfl := List.mem_singleton.mp hop'
        exact ⟨hascii, v, hv, hvu, hop⟩
    inStep := h.inStep.other_iff.mpr hcomm }

/-- A call of another user arrives at the client. -/
theorem deliver (h : e.Follows u s t up (op :: down)) : (e.apply op).Follows u s (t.apply op) up down := by
  obtain ⟨hascii, v, hv, hvu, hop⟩ := h.others op (List.mem_cons_self ..)
  have hclient := h.client.apply hop hv hascii
  rw [hop.under_ne hvu] at hclient
  exact
    { h with
      client := hclient
      others := fun op' hop' => h.others op' (List.mem_cons_of_mem _ hop')
      inStep := h.inStep.deliver }

end Doc.Follows

end CoEditor
