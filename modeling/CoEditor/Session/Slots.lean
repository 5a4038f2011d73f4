-- SUMMARY: Where cursors are kept: edits leave every cursor in its slot, joins and leaves change one slot.
import CoEditor.Session.Snapshots

/-!
# Slots

A cursor stays in the slot it was created in. So `bcursor_find` goes on to
return the same `cursor*` for an id until that cursor is freed.
-/

namespace CoEditor

variable {R : Type}

/-- The slot that the next peer cursor goes to. -/
def Buffer.freeSlot (b : Buffer R) : Option CursRef := (b.peerCurss.findIdx? (·.isNone)).map .peer

/-- No two peer cursors have the same id. -/
def Buffer.DistinctPeers (b : Buffer R) : Prop :=
  ∀ (i j : Nat) (c c' : Cursor), b.peerCurss[i]? = some (some c) → b.peerCurss[j]? = some (some c') →
    c.id = c'.id → i = j

namespace Page

variable {p q : Page R}

theorem find_eq_some (hD : p.Distinct) {id : Int} {ref : CursRef} :
    p.find id = some ref ↔ PageCursor.id <$> p.curs ref = .ok id := by
  rw [Except.map_eq_ok]
  refine ⟨curs_of_find, ?_⟩
  rintro ⟨c, hc, rfl⟩
  exact find_of_curs hD hc

/-- Cursors are found in the same slots. -/
theorem SameSlots.find (h : SameSlots p q) (hp : p.Distinct) (hq : q.Distinct) (id : Int) : q.find id = p.find id := by
  refine Option.ext fun ref => ?_
  rw [find_eq_some hp, find_eq_some hq, h.ids]

/-- With one more cursor the others are still found where they were. -/
theorem find_setCurs (hp : p.Distinct) {c : PageCursor} {ref : CursRef} (hq : (p.setCurs c ref).Distinct)
    (hself : (p.setCurs c ref).curs ref = .ok c) (hnone : ∀ d, p.curs ref ≠ .ok d) (id : Int) :
    (p.setCurs c ref).find id = if id = c.id then some ref else p.find id := by
  split
  · next hid => exact hid ▸ find_of_curs hq hself
  · next hid =>
      refine Option.ext fun ref' => ?_
      rw [find_eq_some hq, find_eq_some hp]
      by_cases href : ref' = ref
      · subst href
        rw [hself]
        simp only [Except.map_eq_ok, Except.ok.injEq]
        constructor
        · rintro ⟨d, rfl, hd⟩
          exact absurd hd.symm hid
        · rintro ⟨d, hd, -⟩
          exact absurd hd (hnone d)
      · rw [curs_setCurs_ne href]

theorem find_freeSlot (hp : p.Distinct) {i : Nat} {c : PageCursor} (hc : p.curs (.peer i) = .ok c)
    (hq : ({ p with peers := p.peers.set i none } : Page R).Distinct) (id : Int) :
    ({ p with peers := p.peers.set i none } : Page R).find id = if id = c.id then none else p.find id := by
  refine Option.ext fun ref => ?_
  rw [find_eq_some hq]
  split
  · next hid =>
      simp only [Except.map_eq_ok, reduceCtorEq, iff_false, not_exists, not_and]
      intro d hd hdid
      obtain ⟨hne, hd⟩ := (p.curs_freeSlot i ref d).mp hd
      exact hne (hp ref (.peer i) d c hd hc (hdid.trans hid))
  · next hid =>
      rw [find_eq_some hp]
      simp only [Except.map_eq_ok]
      constructor
      · rintro ⟨d, hd, hdid⟩
        exact ⟨d, ((p.curs_freeSlot i ref d).mp hd).2, hdid⟩
      · rintro ⟨d, hd, rfl⟩
        refine ⟨d, (p.curs_freeSlot i ref d).mpr ⟨?_, hd⟩, rfl⟩
        rintro rfl
        exact hid (by rw [Except.ok.inj (hd.symm.trans hc)])

variable [Rope R]

/-- An edit leaves every cursor in its slot. -/
theorem Good.run_sameSlots (hp : p.Good) {op : Op} {id : Int} (hop : op.EditsAt id) {ptr : Ptr} {res : Bres}
    (h : op.runPage p ptr = .ok (q, res)) : SameSlots p q := by
  cases op with
  | new | copyOwn | free => exact hop.elim
  | move i dir =>
      obtain ⟨q', hrun, hq'⟩ := Except.map_eq_ok.mp h
      obtain ⟨rfl, -⟩ := Prod.mk.inj hq'
      exact (hp.bcursorMove hrun).1
  | insert i chr => exact (hp.bcursorInsert h).1
  | insertLine i =>
      obtain ⟨q', hrun, hq'⟩ := Except.map_eq_ok.mp h
      obtain ⟨rfl, -⟩ := Prod.mk.inj hq'
      exact (hp.bcursorInsertLine hrun).1
  | del i => exact (hp.bcursorDel h).1

/-- A cursor that is created goes to the first free slot. -/
theorem Good.addCurs_slot (hp : p.Good) {c : PageCursor} (h0 : c.id ≠ 0) (hnone : p.find c.id = none)
    (hq : (p.addCurs c).1.Good) (j : Int) :
    (p.addCurs c).1.find j = if j = c.id then (p.peers.findIdx? (·.isNone)).map .peer else p.find j := by
  unfold addCurs at hq ⊢
  rw [if_neg h0] at hq ⊢
  cases hfree : p.peers.findIdx? (·.isNone) with
  | none =>
      dsimp only
      split
      · next hj => rw [hj, hnone]; rfl
      · rfl
  | some i =>
      rw [hfree] at hq
      dsimp only at hq ⊢
      obtain ⟨hlt, hempty, -⟩ := List.findIdx?_eq_some_iff_getElem.mp hfree
      have hempty : p.peers[i] = none := by simpa using hempty
      have hD : (p.setCurs c (.peer i)).Distinct := hq.distinct
      refine find_setCurs hp.distinct hD (Good.curs_setCurs_free hlt c) (fun d hd => ?_) j
      rw [curs_peer, List.getElem?_eq_getElem hlt, hempty] at hd
      simp at hd

/-- A copy of the own cursor goes to the first free slot, and stands where the own cursor does. -/
theorem Good.copyOwn_slot (hp : p.Good) {id : Int} (h0 : id ≠ 0) (hnone : p.doc.curs id = none) {res : Bres}
    (h : p.bcursorCopyOwn id = .ok (q, res)) :
    (∀ j, q.find j = if j = id then (p.peers.findIdx? (·.isNone)).map .peer else p.find j) ∧
      ∀ ref c, q.find id = some ref → q.curs ref = .ok c → c = ⟨id, p.own.row, p.own.pos⟩ := by
  obtain ⟨hgood, hdoc⟩ := hp.bcursorCopyOwn (fun _ => hnone) h
  have hfind : p.find id = none := by
    rw [find_eq_none]
    exact doc_curs_eq_none.mp hnone
  constructor
  · intro j
    unfold Page.bcursorCopyOwn at h
    split at h
    · cases h
    · unfold Page.bcursorNew at h
      split at h
      · cases h
      · next row _ =>
          have h := Except.ok.inj h
          have hslot := hp.addCurs_slot (c := ⟨id, row, p.own.pos⟩) h0 hfind (by rw [h]; exact hgood) j
          rwa [h] at hslot
  · intro ref c href hc
    obtain ⟨c', hc', hid⟩ := curs_of_find href
    obtain rfl := Except.ok.inj (hc.symm.trans hc')
    have hcur := doc_curs hgood.distinct hc
    rw [hid] at hcur
    obtain ⟨-, -, -, rfl⟩ | ⟨-, hdoc⟩ := hdoc
    · rw [hnone] at hcur
      cases hcur
    · simp only [hdoc, Doc.put, if_true] at hcur
      obtain ⟨cid, crow, cpos⟩ := c
      obtain ⟨rfl, rfl⟩ := Place.mk.inj (Option.some.inj hcur)
      rw [show cid = id from hid]

/-- A cursor that is freed leaves its slot empty. -/
theorem Good.free_slot (hp : p.Good) {id : Int} (h0 : id ≠ 0) {res : Bres} (h : p.bcursorFree id = .ok (q, res))
    (j : Int) : q.find j = if j = id then none else p.find j := by
  have hgood := (hp.bcursorFree h).1
  unfold Page.bcursorFree at h
  split at h
  · cases h
  · next hfind =>
      obtain ⟨c, hc, rfl⟩ := curs_of_find hfind
      exact absurd ((hp.own_iff hc).mp rfl) h0
  · next i hfind =>
      obtain ⟨c, hc, rfl⟩ := curs_of_find hfind
      obtain ⟨rfl, -⟩ := Prod.mk.inj (Except.ok.inj h)
      exact find_freeSlot hp.distinct hc hgood.distinct j

end Page

/-! ## On buffers -/

namespace Reached

variable [Rope R] {ok : Buffer R → Op → Prop} {b b' : Buffer R} {id : Int} {res : Bres}

theorem distinctPeers (hb : Reached ok b) : b.DistinctPeers := by
  obtain ⟨d, p, hrep, hsound, -⟩ := hb.sound
  have hpage : ∀ {i c}, b.peerCurss[i]? = some (some c) → ∃ c', p.curs (.peer i) = .ok c' ∧ c'.id = c.id := by
    intro i c hi
    have hcurs : b.curs (.peer i) = .ok c := by
      rw [Buffer.curs, hi]
      rfl
    have hsim := hrep.curs (.peer i)
    rw [hcurs] at hsim
    obtain ⟨c', hc', hcursor⟩ := hsim.of_ok_left
    obtain ⟨r, -, rfl⟩ := Layout.cursor_row hcursor
    exact ⟨c', hc', rfl⟩
  intro i j c c' hi hj hid
  obtain ⟨d₁, hd₁, hid₁⟩ := hpage hi
  obtain ⟨d₂, hd₂, hid₂⟩ := hpage hj
  have href := hsound.toGood.distinct _ _ d₁ d₂ hd₁ hd₂ (hid₁.trans (hid.trans hid₂.symm))
  exact CursRef.peer.inj href

/-- After an edit every cursor is found where it was. -/
theorem find_edit (hb : Reached ok b) {op : Op} (hop : op.EditsAt id) (hrun : op.run b = .ok (b', res)) (j : Int) :
    bcursorFind b' j = bcursorFind b j := by
  obtain ⟨d, p, hrep, hsound, -⟩ := hb.sound
  have hgood := hsound.toGood
  obtain ⟨q, hrep', hq⟩ := hrep.run_ok hgood hrun
  have hslots := hgood.run_sameSlots hop hq
  have hfresh : op.Fresh fun id => p.doc.curs id ≠ none := by
    cases op <;> trivial
  rw [hrep'.bcursorFind, hrep.bcursorFind, hslots.find hgood.distinct (hgood.run hfresh hq).1.distinct]

/-- A new cursor is found in the first free slot, and the others where they were. -/
theorem find_join (hb : Reached ok b) (h0 : id ≠ 0) (hno : ¬ HasCurs b id)
    (hrun : Op.run b (.copyOwn id) = .ok (b', res)) (j : Int) :
    bcursorFind b' j = if j = id then .ok b.freeSlot else bcursorFind b j := by
  obtain ⟨d, p, hrep, hsound, -⟩ := hb.sound
  obtain ⟨q, hrep', hq⟩ := hrep.run_ok hsound.toGood hrun
  have hnone : p.doc.curs id = none := not_not.mp (mt (hrep.hasCurs id).mpr hno)
  have hfree : b.freeSlot = (p.peers.findIdx? (·.isNone)).map .peer := by
    rw [Buffer.freeSlot, hrep.peers, List.findIdx?_map]
    congr 1
    refine findIdx?_congr fun o ho => ?_
    cases o with
    | none => rfl
    | some c =>
        obtain ⟨i, hi⟩ := List.getElem?_of_mem ho
        obtain ⟨r, hr⟩ := Page.exists_row (hrep.curs_lt (.peer i) c (Page.curs_peer.mpr hi))
        simp [Page.cursor_of_row hr]
  rw [hrep'.bcursorFind, hrep.bcursorFind, (hsound.toGood.copyOwn_slot h0 hnone hq).1 j, hfree]
  split <;> rfl

/-- A cursor that is freed is not found any more. -/
theorem find_leave (hb : Reached ok b) (h0 : id ≠ 0) (hrun : Op.run b (.free id) = .ok (b', res)) (j : Int) :
    bcursorFind b' j = if j = id then .ok none else bcursorFind b j := by
  obtain ⟨d, p, hrep, hsound, -⟩ := hb.sound
  obtain ⟨q, hrep', hq⟩ := hrep.run_ok hsound.toGood hrun
  rw [hrep'.bcursorFind, hrep.bcursorFind, hsound.toGood.free_slot h0 hq j]
  split <;> rfl

/-- A new cursor stands where the own cursor does. -/
theorem join_place (hb : Reached ok b) (h0 : id ≠ 0) (hno : ¬ HasCurs b id)
    (hrun : Op.run b (.copyOwn id) = .ok (b', res)) {ref : CursRef} {cur : Cursor}
    (href : bcursorFind b' id = .ok (some ref)) (hcur : b'.curs ref = .ok cur) :
    b.ownCurs.map b.curs? = some (0, (b'.curs? cur).2) := by
  obtain ⟨d, p, hrep, hsound, -⟩ := hb.sound
  have hgood := hsound.toGood
  obtain ⟨q, hrep', hq⟩ := hrep.run_ok hgood hrun
  have hnone : p.doc.curs id = none := not_not.mp (mt (hrep.hasCurs id).mpr hno)
  have hsim := hrep'.curs ref
  rw [hcur] at hsim
  obtain ⟨c, hc, hcursor⟩ := hsim.of_ok_left
  have hfind : q.find id = some ref := by
    rw [hrep'.bcursorFind] at href
    exact Except.ok.inj href
  obtain rfl := (hgood.copyOwn_slot h0 hnone hq).2 ref c hfind hc
  have hlines : ∀ k, q.idAt k = p.idAt k := by
    intro k
    have hdoc : q.doc.lines = p.doc.lines := by
      obtain ⟨-, -, -, rfl⟩ | ⟨-, hdoc⟩ := (hgood.bcursorCopyOwn (fun _ => hnone) hq).2
      · rfl
      · rw [hdoc]
        rfl
    have hk : (q.doc.lines[k]?).map Prod.fst = (p.doc.lines[k]?).map Prod.fst := by rw [hdoc]
    rw [Page.doc_getElem?, Page.doc_getElem?, Option.map_map, Option.map_map] at hk
    exact hk
  rw [hrep.ownCurs, hrep'.curs? hcursor, hgood.own_id, hlines]

end Reached

end CoEditor
