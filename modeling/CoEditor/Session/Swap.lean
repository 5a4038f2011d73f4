-- SUMMARY: The documents of a worker and of a client that calls its own cursor 0, and that the same calls keep them alike.
import CoEditor.Session.Hosted
import CoEditor.Session.Places

/-!
# Swapped cursors

A client has its own cursor under the id `0`; the worker has it under the id of
the client's user, and keeps under `0` a cursor at the start of the first line.
All other cursors have the same id at both. A call for a user that is made at
both, at each under the id it has there, does the same to the lines and to the
cursors of all users.
-/

namespace CoEditor

variable {R : Type} [Rope R]

/-- The id that client `u` has for the cursor of user `v`. -/
def clientId (u v : Int) : Int := if v = u then 0 else v

theorem clientId_self (u : Int) : clientId u u = 0 := if_pos rfl

theorem clientId_ne {u v : Int} (h : v ≠ u) : clientId u v = v := if_neg h

theorem clientId_inj {u v w : Int} (hv : v ≠ 0) (hw : w ≠ 0) : clientId u w = clientId u v ↔ w = v := by
  unfold clientId
  grind

namespace Doc

/-! ## Counters -/

/-- The counters of a document, its width, and its last line. -/
def counts (d : Doc R) : Int × Int × Int × Nat := (d.numLines, d.lineIdCnt, d.width, d.last)

variable {d : Doc R} {id : Int} {x : Place}

theorem insert_counts (d : Doc R) (id : Int) (chr : UInt8) :
    (d.insert id chr).counts = d.counts ∧ (d.insert id chr).serverMode = d.serverMode := by
  unfold Doc.insert
  split
  · exact ⟨rfl, rfl⟩
  · split <;> exact ⟨rfl, rfl⟩

theorem insertLine_counts (hwf : d.Wf) (hx : d.curs id = some x) :
    (d.insertLine id).counts = (d.numLines + 1, d.lineIdCnt + 1, d.width, d.last + 1) ∧
      (d.insertLine id).serverMode = d.serverMode := by
  have hle := hwf.curs_le id x hx
  have hbump : bump x.row d.last = d.last + 1 := if_pos hle
  have hbelow : ((d.recount 1).newBelow x.row).counts = (d.numLines + 1, d.lineIdCnt + 1, d.width, d.last + 1) ∧
      ((d.recount 1).newBelow x.row).serverMode = d.serverMode := by
    have hlast := newBelow_last (d := d.recount 1) hle
    rw [counts, hlast]
    unfold newBelow
    split <;> exact ⟨rfl, rfl⟩
  simp only [insertLine, hx]
  split
  · exact ⟨congrArg (fun n => (d.numLines + 1, d.lineIdCnt + 1, d.width, n)) hbump, rfl⟩
  · unfold insertBelow
    dsimp only
    split <;> exact hbelow

theorem join_counts (d : Doc R) (id : Int) (k : Nat) : (d.join id k).counts =
      (d.numLines + -1, d.lineIdCnt, d.width, unbump (k + 1) (if k + 1 = d.last then k else d.last)) ∧
    (d.join id k).serverMode = d.serverMode := by
  obtain ⟨f, hf⟩ := (((d.recount (-1)).put id ⟨k, d.len k⟩).raiseLast k).joinText_eq k
  have hlast : ((d.recount (-1)).put id ⟨k, d.len k⟩).last = d.last := rfl
  simp only [join]
  rw [hf]
  simp only [raiseLast, hlast]
  split <;> exact ⟨rfl, rfl⟩

/-! ## Steps -/

/-- The steps of a cursor depend on the ids and texts of the lines only. -/
theorem step_congr {e : Doc R} (hcontent : e.content = d.content) (hlast : e.last = d.last) (x : Place) (dir : CmoveDir) :
    e.step x dir = d.step x dir := by
  have hlen : ∀ k, e.len k = d.len k := fun k => by rw [len_eq, len_eq, hcontent]
  have hlines : e.lines.length = d.lines.length := by
    have := congrArg List.length hcontent
    rwa [content, content, List.length_map, List.length_map] at this
  have hcut : ∀ k pos, e.cut k pos = d.cut k pos := fun k pos => by rw [Doc.cut, Doc.cut, hlen]
  cases dir <;> simp only [step, hlen, hlines, hcut, hlast]

/-! ## Two documents -/

/-- Client `u` has the document `e` where the worker has `d`. While the user is away, the client still has a cursor. -/
structure Swapped (u : Int) (d e : Doc R) : Prop where
  user : u ≠ 0
  home : d.Home
  client : e.serverMode = false
  content : e.content = d.content
  counts : e.counts = d.counts
  curs : ∀ v, v ≠ 0 → v ≠ u → e.curs v = d.curs v
  own : d.curs u ≠ none → e.curs 0 = d.curs u
  spare : e.curs u = none

namespace Swapped

variable {u v : Int} {d e d' e' : Doc R} {x : Place}

theorem last (h : Swapped u d e) : e.last = d.last := congrArg (fun c => c.2.2.2) h.counts

theorem numLines (h : Swapped u d e) : e.numLines = d.numLines := congrArg (fun c => c.1) h.counts

theorem lineIdCnt (h : Swapped u d e) : e.lineIdCnt = d.lineIdCnt := congrArg (fun c => c.2.1) h.counts

theorem width (h : Swapped u d e) : e.width = d.width := congrArg (fun c => c.2.2.1) h.counts

theorem len (h : Swapped u d e) (k : Nat) : e.len k = d.len k := by rw [len_eq, len_eq, h.content]

/-- A user's cursor is at the same place at both. -/
theorem cursor (h : Swapped u d e) (hv : v ≠ 0) (hx : d.curs v = some x) : e.curs (clientId u v) = some x := by
  by_cases hvu : v = u
  · rw [hvu] at hx ⊢
    rw [clientId_self, h.own (by rw [hx]; exact Option.some_ne_none x), hx]
  · rw [clientId_ne hvu, h.curs v hv hvu, hx]

/-- Both documents change alike if every user's cursor moves alike. -/
theorem moved (h : Swapped u d e) (hhome : d'.Home) (hclient : e'.serverMode = e.serverMode)
    (hcontent : e'.content = d'.content) (hcounts : e'.counts = d'.counts) {f g : Int → Place → Place}
    (hd : ∀ i, i ≠ 0 → d'.curs i = (d.curs i).map (f i)) (he : ∀ i, e'.curs i = (e.curs i).map (g i))
    (hfg : ∀ w x, w ≠ 0 → d.curs w = some x → g (clientId u w) x = f w x) : Swapped u d' e' where
  user := h.user
  home := hhome
  client := hclient.trans h.client
  content := hcontent
  counts := hcounts
  curs := by
    intro w hw hwu
    rw [he, hd w hw, h.curs w hw hwu]
    refine Option.map_congr fun x hx => ?_
    rw [← hfg w x hw hx, clientId_ne hwu]
  own := by
    intro hne
    rw [hd u h.user] at hne ⊢
    rw [he, h.own (mt (fun hnone => by rw [hnone]; rfl) hne)]
    refine Option.map_congr fun x hx => ?_
    rw [← hfg u x h.user hx, clientId_self]
  spare := by rw [he, h.spare, Option.map_none]

/-- The cursor that a call is made for goes its own way. -/
theorem acting {α : Sort _} (hv : v ≠ 0) {w : Int} (hw : w ≠ 0) (a b : α) :
    (if clientId u w = clientId u v then a else b) = if w = v then a else b := by
  simp only [clientId_inj hv hw]

theorem move (h : Swapped u d e) (hv : v ≠ 0) (dir : CmoveDir) :
    Swapped u (d.move v dir) (e.move (clientId u v) dir) := by
  refine h.moved (h.home.move hv dir) rfl h.content h.counts (fun i _ => rfl) (fun i => rfl) fun w x hw _ => ?_
  rw [acting hv hw, step_congr h.content h.last]

theorem insert (h : Swapped u d e) (hd : d.InRange) (hwf : d.Wf) (hv : v ≠ 0) {cur : Place} (hcur : d.curs v = some cur)
    {chr : UInt8} (h0 : chr ≠ 0) (hascii : chr.toNat < 128) :
    Swapped u (d.insert v chr) (e.insert (clientId u v) chr) := by
  have hcur' := h.cursor hv hcur
  by_cases hfull : sizeT (d.width - 1) ≤ d.len cur.row
  · have hfull' : sizeT (e.width - 1) ≤ e.len cur.row := by rwa [h.width, h.len]
    rw [insert_full hcur hfull, insert_full hcur' hfull']
    exact h
  · have hroom' : ¬ sizeT (e.width - 1) ≤ e.len cur.row := by rwa [h.width, h.len]
    obtain ⟨A, lid, a, b, B, hcut, rfl⟩ := hd.cut hwf hcur
    have hroom := hfull
    rw [len_of_cut hcut] at hroom
    have hcontent := insert_content hcut hcur hroom h0 hascii
    have hcontent' := insert_content (h.content.trans hcut) hcur' (by rwa [h.width]) h0 hascii
    refine h.moved (h.home.insert hv chr) (insert_counts ..).2 (hcontent'.trans hcontent.symm) ?_
      (fun i _ => insert_curs hcur hfull chr i) (fun i => insert_curs hcur' hroom' chr i) fun w x hw _ => acting hv hw ..
    rw [(insert_counts ..).1, (insert_counts ..).1, h.counts]

theorem insertLine (h : Swapped u d e) (hd : d.InRange) (hwd : d.Wf) (he : e.InRange) (hwe : e.Wf) (hv : v ≠ 0) {cur : Place}
    (hcur : d.curs v = some cur) : Swapped u (d.insertLine v) (e.insertLine (clientId u v)) := by
  have hcur' := h.cursor hv hcur
  have hserver : ∀ i : Int, ¬ (e.serverMode ∧ i = 0 ∧ cur.pos = 0) := fun i hhome => by simp [h.client] at hhome
  obtain ⟨A, lid, a, b, B, hcut, hplace⟩ := hd.cut hwd hcur
  have hcontent : (e.insertLine (clientId u v)).content = (d.insertLine v).content := by
    rw [hplace] at hcur hcur'
    rw [insertLine_content hcut hcur, insertLine_content (h.content.trans hcut) hcur', h.lineIdCnt]
  refine h.moved (h.home.insertLine hv) (insertLine_counts hwe hcur').2 hcontent ?_
    (fun i hi => hd.insertLine_curs hwd hcur i fun hhome => hi hhome.2.1)
    (fun i => he.insertLine_curs hwe hcur' i (hserver i)) fun w x hw _ => acting hv hw ..
  rw [(insertLine_counts hwd hcur).1, (insertLine_counts hwe hcur').1, h.numLines, h.lineIdCnt, h.width, h.last]

theorem delChar (h : Swapped u d e) (hd : d.InRange) (hwf : d.Wf) (hv : v ≠ 0) {cur : Place} (hcur : d.curs v = some cur)
    (hpos : 0 < cur.pos) : Swapped u (d.del v) (e.del (clientId u v)) := by
  have hcur' := h.cursor hv hcur
  have hcounts : ∀ {f : Doc R} {i : Int}, f.curs i = some cur → (f.del i).counts = f.counts ∧ (f.del i).serverMode = f.serverMode := by
    intro f i hf
    simp only [del, hf, if_pos hpos]
    exact ⟨rfl, rfl⟩
  obtain ⟨A, lid, a, b, B, hcut, hplace⟩ := hd.cut hwf hcur
  obtain ⟨a', c, rfl⟩ : ∃ a' c, a = a' ++ [c] := by
    have hne : a ≠ [] := by
      rintro rfl
      rw [hplace] at hpos
      exact absurd hpos (by simp)
    exact ⟨a.dropLast, a.getLast hne, (List.dropLast_append_getLast hne).symm⟩
  have hcontent : (e.del (clientId u v)).content = (d.del v).content := by
    rw [hplace] at hcur hcur'
    rw [delChar_content hcut hcur, delChar_content (h.content.trans hcut) hcur']
  refine h.moved (h.home.del hv) (hcounts hcur').2 hcontent ?_ (fun i _ => delChar_curs hcur hpos i)
    (fun i => delChar_curs hcur' hpos i) fun w x hw _ => acting hv hw ..
  rw [(hcounts hcur).1, (hcounts hcur').1, h.counts]

theorem join (h : Swapped u d e) (hd : d.InRange) (hwf : d.Wf) (he : e.InRange) (hv : v ≠ 0) {cur : Place}
    (hcur : d.curs v = some cur) (hrow : cur.row ≠ 0) :
    Swapped u (d.join v (cur.row - 1)) (e.join (clientId u v) (cur.row - 1)) := by
  have hcur' := h.cursor hv hcur
  obtain ⟨A, lid, a, x, B, hcut, hk⟩ := exists_join_cut hwf hcur hrow
  have hk' : cur.row - 1 = A.length := by omega
  have hcut' := h.content.trans hcut
  rw [hk']
  refine h.moved (h.home.join hv _) (join_counts ..).2 ?_ ?_ (fun i _ => hd.join_curs hcut hcur i)
    (fun i => he.join_curs hcut' hcur' i) fun w y hw _ => acting hv hw ..
  · rw [join_content hcut, join_content hcut']
  · rw [(join_counts ..).1, (join_counts ..).1, h.numLines, h.lineIdCnt, h.width, h.last]

theorem del (h : Swapped u d e) (hd : d.InRange) (hwf : d.Wf) (he : e.InRange) (hv : v ≠ 0) {cur : Place}
    (hcur : d.curs v = some cur) : Swapped u (d.del v) (e.del (clientId u v)) := by
  by_cases hpos : 0 < cur.pos
  · exact h.delChar hd hwf hv hcur hpos
  · have hcur' := h.cursor hv hcur
    simp only [Doc.del, hcur, hcur', if_neg hpos]
    split
    · exact h
    · next hrow => exact h.join hd hwf he hv hcur hrow

/-- Whoever joins, joins at the same place. -/
theorem put (h : Swapped u d e) (hv : v ≠ 0) {x : Place} (hx : 0 ≤ x.pos) : Swapped u (d.put v x) (e.put (clientId u v) x) where
  user := h.user
  home := h.home.put hv hx
  client := h.client
  content := h.content
  counts := h.counts
  curs := by
    intro w hw hwu
    have hid := clientId_inj (u := u) hv hw
    rw [clientId_ne hwu] at hid
    simp only [Doc.put, hid, h.curs w hw hwu]
  own := by
    have hid := clientId_inj (u := u) hv h.user
    rw [clientId_self] at hid
    simp only [Doc.put, hid]
    split
    · exact fun _ => rfl
    · exact h.own
  spare := by
    have hne : u ≠ clientId u v := by
      unfold clientId
      split
      · exact h.user
      · next hvu => exact Ne.symm hvu
    simp only [Doc.put, if_neg hne, h.spare]

/-- A user leaves; a client never frees its own cursor. -/
theorem leave (h : Swapped u d e) (hv : v ≠ 0) : Swapped u (d.drop v) (if v = u then e else e.drop v) where
  user := h.user
  home := h.home.drop hv
  client := by
    split
    · exact h.client
    · exact h.client
  content := by
    split
    · exact h.content
    · exact h.content
  counts := by
    split
    · exact h.counts
    · exact h.counts
  curs := by
    intro w hw hwu
    split
    · next hvu =>
        simp only [Doc.drop, hvu, if_neg hwu]
        exact h.curs w hw hwu
    · simp only [Doc.drop, h.curs w hw hwu]
  own := by
    split
    · next hvu =>
        intro hne
        exact absurd (by simp [Doc.drop, hvu]) hne
    · next hvu =>
        simp only [Doc.drop, if_neg (Ne.symm hvu), if_neg (Ne.symm hv)]
        exact h.own
  spare := by
    split
    · exact h.spare
    · simp only [Doc.drop, h.spare, ite_self]

end Swapped

end Doc

end CoEditor
