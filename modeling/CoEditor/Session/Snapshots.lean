-- SUMMARY: What survives buffer_serialize and buffer_deserialize: the document does, cursors with large ids do not.
import CoEditor.Session.Screen

/-!
# Snapshots of reachable buffers
-/

namespace CoEditor

variable {R : Type} [Rope R]

/-- Buffers `b` and `b'` show the same lines under the same ids, with the same marks and own cursor. -/
structure SameDocument (b b' : Buffer R) : Prop where
  id : b'.id = b.id
  ver : b'.ver = b.ver
  numLines : b'.numLines = b.numLines
  lineIdCnt : b'.lineIdCnt = b.lineIdCnt
  height : b'.height = b.height
  width : b'.width = b.width
  content : b'.content = b.content
  first : b'.idOf (some b'.first) = b.idOf (some b.first)
  last : b'.idOf b'.last = b.idOf b.last
  top : b'.idOf b'.top = b.idOf b.top
  bottom : b'.idOf b'.bottom = b.idOf b.bottom
  own : b'.ownCurs.map b'.curs? = b.ownCurs.map b.curs?

theorem Doc.restore_content (d : Doc R) (u : Bool) : (d.restore u).content = d.content := by
  rw [content, content, Doc.restore, List.map_map]
  exact List.map_congr_left fun l _ => congrArg (Prod.mk l.1) (Rope.chars_reread l.2)

namespace Page

variable {p : Page R}

theorem restore_idAt (p : Page R) (u : Bool) (i : Nat) : (p.restore u).idAt i = p.idAt i := by
  simp only [idAt, Page.restore, binit, unflagged, List.getElem?_mapIdx, restoreRows_getElem?, Option.map_map]
  cases p.rows[i]? <;> rfl

theorem restore_content (hp : p.Good) (u : Bool) : (p.restore u).doc.content = p.doc.content := by
  rw [(hp.restore u).2, Doc.restore_content]

end Page

namespace Rep

variable {b b' : Buffer R} {p : Page R}

omit [Rope R] in
theorem curs? (h : Rep b p) {c : Cursor} {c' : PageCursor} (hc : p.cursor c' = some c) :
    b.curs? c = (c'.id, p.idAt c'.row, c'.pos) := by
  obtain ⟨r, hr, rfl⟩ := Layout.cursor_row hc
  rw [Buffer.curs?, ← Page.ptrs_of_row hr, h.idOf]

omit [Rope R] in
theorem ownCurs (h : Rep b p) : b.ownCurs.map b.curs? = some (p.own.id, p.idAt p.own.row, p.own.pos) := by
  obtain ⟨r, hr⟩ := Page.exists_row (h.curs_lt .own p.own rfl)
  rw [h.own, Page.cursor_of_row hr, Option.map_some, h.curs? (Page.cursor_of_row hr)]

omit [Rope R] in
theorem mem_peerList (h : Rep b p) {x : Int × Option Int × Int} :
    x ∈ b.peerList ↔ ∃ i c, p.curs (.peer i) = .ok c ∧ x = (c.id, p.idAt c.row, c.pos) := by
  rw [Buffer.peerList, h.peers, List.mem_filterMap]
  constructor
  · rintro ⟨o, ho, hx⟩
    obtain ⟨q, hq, rfl⟩ := List.mem_map.mp ho
    obtain ⟨i, hi⟩ := List.getElem?_of_mem hq
    cases q with
    | none => cases hx
    | some c =>
        have hc := Page.curs_peer.mpr hi
        obtain ⟨r, hr⟩ := Page.exists_row (h.curs_lt (.peer i) c hc)
        rw [Option.bind_some, Page.cursor_of_row hr, Option.map_some, h.curs? (Page.cursor_of_row hr)] at hx
        exact ⟨i, c, hc, (Option.some.inj hx).symm⟩
  · rintro ⟨i, c, hc, rfl⟩
    obtain ⟨r, hr⟩ := Page.exists_row (h.curs_lt (.peer i) c hc)
    refine ⟨p.cursor c, List.mem_map.mpr ⟨some c, List.mem_of_getElem? (Page.curs_peer.mp hc), rfl⟩, ?_⟩
    rw [Page.cursor_of_row hr, Option.map_some, h.curs? (Page.cursor_of_row hr)]

theorem sameDocument (h : Rep b p) (hp : p.Good) {u : Bool} (h' : Rep b' (p.restore u)) : SameDocument b b' where
  id := h'.id.trans h.id.symm
  ver := h'.ver.trans h.ver.symm
  numLines := h'.numLines.trans h.numLines.symm
  lineIdCnt := h'.lineIdCnt.trans h.lineIdCnt.symm
  height := h'.height.trans h.height.symm
  width := h'.width.trans h.width.symm
  content := by rw [h'.content, Page.restore_content hp, h.content]
  first := by rw [← h'.first, h'.idOf, p.restore_idAt, ← h.idOf, h.first]
  last := by rw [h'.last, h'.idOf, p.restore_idAt, ← h.idOf, h.last]; rfl
  top := by rw [h'.top, h'.idOf, p.restore_idAt, ← h.idOf, h.top]; rfl
  bottom := by rw [h'.bottom, h'.idOf, p.restore_idAt, ← h.idOf, h.bottom]; rfl
  own := by rw [h'.ownCurs, h.ownCurs, p.restore_idAt]; rfl

end Rep

variable {b : Buffer R}

/-- Every reachable buffer that fits the scratch pad is serialized and read back as a restored page. -/
theorem Reached.restored {ok : Buffer R → Op → Prop} (hb : Reached ok b) (hfits : b.Fits) (u : Bool) :
    ∃ p s b', Rep b p ∧ p.Sound ∧ bufferSerialize b = .ok s ∧ bufferDeserialize s u = .ok b' ∧ Rep b' (p.restore u) := by
  obtain ⟨d, p, hrep, hsound, -⟩ := hb.sound
  obtain ⟨s, b', hs, hrun, hrep'⟩ := hrep.restore hsound.toGood (hsound.top_le_last hrep.bottom_lt)
    (hrep.fits_iff.mp hfits) u
  exact ⟨p, s, b', hrep, hsound, hs, hrun, hrep'⟩

/-- What is read back from a snapshot shows the document. -/
theorem Reached.sameDocument {ok : Buffer R → Op → Prop} (hb : Reached ok b) {s : Bytes} {u : Bool} {b' : Buffer R}
    (hs : bufferSerialize b = .ok s) (hrun : bufferDeserialize s u = .ok b') : SameDocument b b' := by
  obtain ⟨d, p, hrep, hsound, -⟩ := hb.sound
  obtain ⟨s', b'', hs', hrun', hrep'⟩ := hrep.restore hsound.toGood (hsound.top_le_last hrep.bottom_lt)
    (hrep.fits hs) u
  obtain rfl := Except.ok.inj (hs.symm.trans hs')
  obtain rfl := Except.ok.inj (hrun.symm.trans hrun')
  exact hrep.sameDocument hsound.toGood hrep'

/-- What is read back is painted without a fault exactly if the buffer itself could be. -/
theorem Rep.restored_paintFault {p : Page R} (h : Rep b p) {s : Bytes} {u : Bool} {b' : Buffer R}
    (hrun : bufferDeserialize s u = .ok b') (h' : Rep b' (p.restore u)) : b'.paintFault = none ↔ (u = true → b.Showable) := by
  rw [readBuffer_paintFault hrun h'.wellLinked, h'.showable_iff, p.restore_showable, h.showable_iff]

/-- A snapshot holds the whole document, and is painted when it is read if the window can be. -/
theorem snapshot_document (hb : Reachable b) (hfits : b.Fits) (u : Bool) :
    ∃ s, ∃ b' : Buffer R, bufferSerialize b = .ok s ∧ bufferDeserialize s u = .ok b' ∧
      (b'.paintFault = none ↔ (u = true → b.Showable)) ∧ SameDocument b b' := by
  obtain ⟨p, s, b', hrep, hsound, hs, hrun, hrep'⟩ := hb.restored hfits u
  exact ⟨s, b', hs, hrun, hrep.restored_paintFault hrun hrep', hrep.sameDocument hsound.toGood hrep'⟩

theorem snapshot_document_ab : ∃ b : Buffer ListRope, bufferFromFile (bytes "ab\nc") 1 3 6 false = .ok b ∧
    ∃ s b', bufferSerialize b = .ok s ∧ bufferDeserialize s true = .ok b' ∧ b'.paintFault = none ∧ SameDocument b b' := by
  have hrun : returns (bufferFromFile (R := ListRope) (bytes "ab\nc") 1 3 6 false)
      (fun b => decide (b.Fits ∧ b.Showable)) = true := by decide +kernel
  obtain ⟨b, hb, htest⟩ := exists_of_returns hrun
  obtain ⟨hfits, hshow⟩ := of_decide_eq_true htest
  obtain ⟨s, b', hs, hrun, hpaint, hsame⟩ := snapshot_document (.load (by decide) hb) hfits true
  exact ⟨b, hb, s, b', hs, hrun, hpaint.mpr fun _ => hshow, hsame⟩

/-- Of the peer cursors, a snapshot holds those whose ids have a slot. -/
theorem Rep.mem_restored {p : Page R} {b' : Buffer R} (h : Rep b p) (hp : p.Good) {u : Bool} (h' : Rep b' (p.restore u))
    (x : Int × Option Int × Int) : x ∈ b'.peerList ↔ x ∈ b.peerList ∧ 0 < x.1 ∧ x.1 < maxCursorNum := by
  rw [h'.mem_peerList, h.mem_peerList]
  constructor
  · rintro ⟨i, c, hc, rfl⟩
    obtain ⟨n, hn, hpeer⟩ := List.mem_filterMap.mp (List.mem_of_getElem? (Page.restore_curs_peer.mp hc))
    have hlt := List.mem_range.mp hn
    obtain ⟨hid, h0, k, hk⟩ := hp.peerOf_eq_some hpeer
    exact ⟨⟨k, c, hk, by rw [p.restore_idAt]⟩, by simp only; omega, by simp only; omega⟩
  · rintro ⟨⟨i, c, hc, rfl⟩, h0, hlt⟩
    simp only at h0 hlt
    obtain ⟨n, hn⟩ : ∃ n : Nat, c.id = n := ⟨c.id.toNat, by omega⟩
    have hlt' : n < maxCursorNum := by omega
    have hpeer : p.peerOf n = some c := by
      rw [Page.peerOf, if_neg (by omega), ← hn, Page.doc_curs hp.distinct hc]
      rfl
    obtain ⟨j, hj⟩ := List.getElem?_of_mem (List.mem_filterMap.mpr ⟨n, List.mem_range.mpr hlt', hpeer⟩)
    exact ⟨j, c, Page.restore_curs_peer.mpr hj, by rw [p.restore_idAt]⟩

/-- The peer cursors come back exactly if the lines fit the scratch pad and the ids are below the number of slots; with a
screen, if also the window can be painted. -/
theorem snapshot_peers (hb : Reachable b) (hpos : ∀ x ∈ b.peerList, 0 < x.1) (u : Bool) :
    (∃ s, ∃ b' : Buffer R, bufferSerialize b = .ok s ∧ bufferDeserialize s u = .ok b' ∧ b'.paintFault = none ∧
      ∀ x, x ∈ b'.peerList ↔ x ∈ b.peerList) ↔
    b.Fits ∧ (∀ x ∈ b.peerList, x.1 < maxCursorNum) ∧ (u = true → b.Showable) := by
  obtain ⟨d, p, hrep, hsound, -⟩ := hb.sound
  constructor
  · rintro ⟨s, b', hs, hrun, hpaint, hpeers⟩
    have hfits := hrep.fits_iff.mpr (hrep.fits hs)
    obtain ⟨s', b'', hs', hrun', hrep'⟩ := hrep.restore hsound.toGood (hsound.top_le_last hrep.bottom_lt) (hrep.fits hs) u
    obtain rfl := Except.ok.inj (hs.symm.trans hs')
    obtain rfl := Except.ok.inj (hrun.symm.trans hrun')
    exact ⟨hfits, fun x hx => ((hrep.mem_restored hsound.toGood hrep' x).mp ((hpeers x).mpr hx)).2.2,
      (hrep.restored_paintFault hrun hrep').mp hpaint⟩
  · rintro ⟨hfits, hslots, hshow⟩
    obtain ⟨s, b', hs, hrun, hrep'⟩ :=
      hrep.restore hsound.toGood (hsound.top_le_last hrep.bottom_lt) (hrep.fits_iff.mp hfits) u
    refine ⟨s, b', hs, hrun, (hrep.restored_paintFault hrun hrep').mpr hshow, fun x => ?_⟩
    rw [hrep.mem_restored hsound.toGood hrep']
    exact and_iff_left_of_imp fun hx => ⟨hpos x hx, hslots x hx⟩

/-- A buffer with one peer cursor, at the start of its only line. -/
theorem exists_peer (id : Int) (hid : id = 2 ∨ id = 25) :
    ∃ b : Buffer ListRope, Reachable b ∧ b.Fits ∧ b.Showable ∧ b.peerList = [(id, some 0, 0)] := by
  have htest : returns (bufferFromFile (R := ListRope) (bytes "ab") 1 3 6 false)
      (fun b => (replay b [.copyOwn id]).any fun b => decide (b.Fits ∧ b.Showable ∧ b.peerList = [(id, some 0, 0)])) = true := by
    rcases hid with rfl | rfl <;> decide +kernel
  obtain ⟨b₀, hb₀, htest⟩ := exists_of_returns htest
  obtain ⟨b, hb, hP⟩ := (Option.any_eq_true _ _).mp htest
  exact ⟨b, (Reached.load (by decide) hb₀).replay hb, of_decide_eq_true hP⟩

theorem snapshot_peers_small_id : ∃ b : Buffer ListRope, b.peerList = [(2, some 0, 0)] ∧
    ∃ s, ∃ b' : Buffer ListRope, bufferSerialize b = .ok s ∧ bufferDeserialize s true = .ok b' ∧ b'.paintFault = none ∧
      ∀ x, x ∈ b'.peerList ↔ x ∈ b.peerList := by
  obtain ⟨b, hb, hfits, hshow, hpeers⟩ := exists_peer 2 (.inl rfl)
  exact ⟨b, hpeers, (snapshot_peers hb (by simp [hpeers]) true).mpr ⟨hfits, by simp [hpeers], fun _ => hshow⟩⟩

/-- The cursor of user 25 is not in the snapshot. -/
theorem snapshot_loses_peer : ∃ b : Buffer ListRope, Reachable b ∧ b.Fits ∧ b.Showable ∧ b.peerList = [(25, some 0, 0)] ∧
    ∃ s, ∃ b' : Buffer ListRope, bufferSerialize b = .ok s ∧ bufferDeserialize s true = .ok b' ∧
      ¬ ∀ x, x ∈ b'.peerList ↔ x ∈ b.peerList := by
  obtain ⟨b, hb, hfits, hshow, hpeers⟩ := exists_peer 25 (.inr rfl)
  obtain ⟨p, s, b', hrep, hsound, hs, hrun, hrep'⟩ := hb.restored hfits true
  refine ⟨b, hb, hfits, hshow, hpeers, s, b', hs, hrun, fun h => ?_⟩
  have hlt := ((hrep.mem_restored hsound.toGood hrep' (25, some 0, 0)).mp ((h _).mpr (by simp [hpeers]))).2.2
  exact absurd hlt (by decide)

end CoEditor
