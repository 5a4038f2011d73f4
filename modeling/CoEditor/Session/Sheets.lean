-- SUMMARY: What the users of a document see of it, and that a call does the same to it at a worker and at a client.
import CoEditor.Session.Replicas

/-!
# Sheets

A sheet has the texts of the lines and the places of the users' cursors, and
none of the ids and counters. A call at a user's cursor puts new texts for the
line of the cursor, or for this line and the one above it. Worker and client
have the same sheet whenever they show their users the same.
-/

namespace CoEditor

/-- The cursor that a call is made at. -/
def Op.cursor : Op → Int
  | .new id _ _ | .copyOwn id | .free id | .move id _ | .insert id _ | .insertLine id | .del id => id

/-- What the users see. -/
@[ext] structure Sheet where
  width : Int
  texts : List (List Char)
  /-- The cursors by user. -/
  curs : Int → Option Place

namespace Sheet

def text (s : Sheet) (k : Nat) : List Char := s.texts[k]?.getD []

/-- The texts `new` come in the place of the `n` lines from line `k` on, and each cursor moves by itself. -/
def edit (s : Sheet) (k n : Nat) (new : List (List Char)) (f : Int → Place → Place) : Sheet where
  width := s.width
  texts := s.texts.take k ++ new ++ s.texts.drop (k + n)
  curs i := (s.curs i).map (f i)

/-- One step of a cursor. -/
def step (s : Sheet) (x : Place) : CmoveDir → Place
  | .up => if x.row = 0 then x else ⟨x.row - 1, min x.pos (s.text (x.row - 1)).length⟩
  | .down => if x.row + 1 < s.texts.length then ⟨x.row + 1, min x.pos (s.text (x.row + 1)).length⟩ else x
  | .left =>
      if 0 < x.pos then { x with pos := x.pos - 1 }
      else if x.row = 0 then x
      else ⟨x.row - 1, (s.text (x.row - 1)).length⟩
  | .right =>
      if x.pos < (s.text x.row).length then { x with pos := x.pos + 1 }
      else if x.row + 1 < s.texts.length then ⟨x.row + 1, 0⟩
      else x

/-- What a call does whose cursor is at `x`. -/
def act (s : Sheet) (x : Place) : Op → Sheet
  | .move v dir => s.edit x.row 0 [] fun i y => if i = v then s.step x dir else y
  | .insert v chr =>
      let t := s.text x.row
      if sizeT (s.width - 1) ≤ t.length then s
      else
        s.edit x.row 1 [t.take x.pos.toNat ++ [Char.ofNat chr.toNat] ++ t.drop x.pos.toNat] fun i y =>
          if i = v then { x with pos := x.pos + 1 }
          else if x.row = y.row ∧ x.pos + 1 < y.pos then { y with pos := y.pos + 1 } else y
  | .insertLine v =>
      let t := s.text x.row
      s.edit x.row 1 [t.take x.pos.toNat, t.drop x.pos.toNat] fun i y =>
        if i = v then ⟨x.row + 1, 0⟩ else Doc.breakPlace x y
  | .del v =>
      let t := s.text x.row
      if 0 < x.pos then
        s.edit x.row 1 [t.take (x.pos.toNat - 1) ++ t.drop x.pos.toNat] fun i y =>
          if i = v then { x with pos := x.pos - 1 }
          else if x.row = y.row ∧ x.pos - 1 < y.pos then { y with pos := y.pos - 1 } else y
      else if x.row = 0 then s
      else
        let above := s.text (x.row - 1)
        s.edit (x.row - 1) 2 [above ++ t] fun i y =>
          if i = v then ⟨x.row - 1, above.length⟩ else Doc.joinPlace (x.row - 1) above.length y
  | _ => s

/-- The sheet after a call at a user's cursor. -/
def apply (s : Sheet) (op : Op) : Sheet := (s.curs op.cursor).elim s fun x => s.act x op

variable {s : Sheet} {op : Op} {x : Place} {A B M : List (List Char)}

theorem apply_of_none (h : s.curs op.cursor = none) : s.apply op = s := by rw [apply, h, Option.elim_none]

theorem apply_of_some (h : s.curs op.cursor = some x) : s.apply op = s.act x op := by rw [apply, h, Option.elim_some]

/-! ## Lines -/

theorem edit_texts (h : s.texts = A ++ M ++ B) (new : List (List Char)) (f : Int → Place → Place) :
    (s.edit A.length M.length new f).texts = A ++ new ++ B := by
  have hdrop : (A ++ M ++ B).drop (A.length + M.length) = B := by
    rw [← List.length_append, List.drop_left]
  simp only [edit, h]
  rw [hdrop, List.append_assoc A M B, List.take_left]

theorem text_of_cut {t : List Char} (h : s.texts = A ++ t :: B) : s.text A.length = t := by
  rw [text, h, getElem?_cut]
  rfl

end Sheet

variable {R : Type} [Rope R]

namespace Doc

/-- The sheet of a document that has the cursor of user `v` under the id `ids v`. -/
def sheet (ids : Int → Int) (d : Doc R) : Sheet where
  width := d.width
  texts := d.texts
  curs v := if v = 0 then none else d.curs (ids v)

variable {d e : Doc R} {ids : Int → Int} {u v : Int}

theorem sheet_curs (hv : v ≠ 0) : (d.sheet ids).curs v = d.curs (ids v) := if_neg hv

/-- The texts of a document whose lines from line `A.length` on are `M`. -/
theorem texts_of_cut {A M B : List (Int × List Char)} (h : d.content = A ++ M ++ B) {n : Nat}
    (hlast : d.last + 1 = A.length + M.length + n) : d.texts = A.map Prod.snd ++ M.map Prod.snd ++ (B.take n).map Prod.snd := by
  have hlen : A.length + M.length = (A ++ M).length := by rw [List.length_append]
  rw [texts_eq, h, hlast, hlen, List.take_length_add_append, List.map_append, List.map_append]

/-- An edit of a document, seen on its sheet. -/
theorem sheet_edit {A M N B : List (Int × List Char)} (hd : d.content = A ++ M ++ B) (he : e.content = A ++ N ++ B)
    (hle : A.length + M.length ≤ d.last + 1) (hlast : e.last + M.length = d.last + N.length) (hwidth : e.width = d.width)
    {f : Int → Place → Place} (hcurs : ∀ v, v ≠ 0 → e.curs (ids v) = (d.curs (ids v)).map (f v)) :
    e.sheet ids = (d.sheet ids).edit A.length M.length (N.map Prod.snd) f := by
  obtain ⟨n, hn⟩ := Nat.exists_eq_add_of_le hle
  have htexts := texts_of_cut hd hn
  have htexts' := texts_of_cut he (n := n) (by omega)
  ext1
  · exact hwidth
  · have hedit := Sheet.edit_texts (s := d.sheet ids) htexts (N.map Prod.snd) f
    rw [List.length_map, List.length_map] at hedit
    rw [hedit]
    exact htexts'
  · funext v
    by_cases hv : v = 0
    · rw [hv]
      rfl
    · show (if v = 0 then none else e.curs (ids v)) = (if v = 0 then none else d.curs (ids v)).map (f v)
      rw [if_neg hv, if_neg hv, hcurs v hv]

/-! ## One call -/

/-- Users have different cursors, and none of them that of a server. -/
structure Names (ids : Int → Int) (d : Doc R) : Prop where
  inj : ∀ v w, v ≠ 0 → w ≠ 0 → (ids w = ids v ↔ w = v)
  home : ∀ v, v ≠ 0 → ids v = 0 → d.serverMode = false

omit [Rope R] in
theorem names_worker (d : Doc R) : Names id d := ⟨fun _ _ _ _ => Iff.rfl, fun _ hv h => absurd h hv⟩

omit [Rope R] in
theorem names_client (hd : d.serverMode = false) (u : Int) : Names (clientId u) d :=
  ⟨fun _ _ hv hw => clientId_inj hv hw, fun _ _ _ => hd⟩

theorem sheet_text_length (hwf : d.Wf) (k : Nat) : ((d.sheet ids).text k).length = d.len k := by
  rw [Sheet.text, len]
  show (d.texts[k]?.getD []).length = _
  rcases Nat.lt_or_ge d.last k with hlt | hle
  · have hnone : d.texts[k]? = none := List.getElem?_eq_none (by rw [texts_length (Nat.lt_of_succ_lt hwf.last_lt)]; omega)
    rw [hnone]
    cases hl : d.lines[k]? with
    | none => rfl
    | some l => rw [Option.map_some, Option.getD_some, Rope.charCount_eq, hwf.blank k l hlt hl]; rfl
  · rw [texts_getElem? hle]
    cases d.lines[k]? with
    | none => rfl
    | some l => rw [Option.map_some, Option.map_some, Option.getD_some, Option.getD_some, Rope.charCount_eq]

/-- The steps of a cursor can be seen on the sheet. -/
theorem sheet_step (ids : Int → Int) (h : d.InRange) (hwf : d.Wf) {i : Int} {x : Place} (hx : d.curs i = some x) (dir : CmoveDir) :
    (d.sheet ids).step x dir = d.step x dir := by
  obtain ⟨h0, -⟩ := h i x hx
  have hrow := hwf.curs_le i x hx
  have hlast := Nat.lt_of_succ_lt hwf.last_lt
  have hlen : (d.sheet ids).texts.length = d.last + 1 := texts_length hlast
  have hbelow : (x.row + 1 < d.lines.length ∧ x.row ≠ d.last) ↔ x.row + 1 < d.last + 1 := by omega
  cases dir with
  | up => simp only [Sheet.step, step, sheet_text_length hwf, cut_eq_min _ _ h0, ne_eq, ite_not]
  | down => simp only [Sheet.step, step, sheet_text_length hwf, cut_eq_min _ _ h0, hlen, hbelow]
  | left => simp only [Sheet.step, step, sheet_text_length hwf, ne_eq, ite_not]
  | right =>
      have hright : sizeT x.pos < d.len x.row ↔ x.pos < d.len x.row := by rw [sizeT_of_nonneg h0]; omega
      simp only [Sheet.step, step, sheet_text_length hwf, hlen, hbelow, hright]

theorem sheet_text_of_cut (ids : Int → Int) {A B : List (Int × List Char)} {l : Int × List Char} (hcut : d.content = A ++ l :: B)
    (hle : A.length ≤ d.last) : (d.sheet ids).text A.length = l.2 := by
  rw [List.append_cons] at hcut
  obtain ⟨n, hn⟩ := Nat.exists_eq_add_of_le (Nat.succ_le_succ hle)
  have htexts := texts_of_cut hcut hn
  rw [List.append_assoc] at htexts
  have htext := Sheet.text_of_cut (s := d.sheet ids) htexts
  rwa [List.length_map] at htext

/-- A cursor in range, in the document and on its sheet. -/
theorem InRange.sheet_cut (h : d.InRange) (ids : Int → Int) (hwf : d.Wf) {i : Int} {x : Place} (hx : d.curs i = some x) :
    ∃ A lid a b B, d.content = A ++ (lid, a ++ b) :: B ∧ x = ⟨A.length, (a.length : Nat)⟩ ∧ A.length ≤ d.last ∧
      (d.sheet ids).text A.length = a ++ b := by
  obtain ⟨A, lid, a, b, B, hcut, rfl⟩ := h.cut hwf hx
  have hrow := hwf.curs_le i _ hx
  exact ⟨A, lid, a, b, B, hcut, rfl, hrow, sheet_text_of_cut ids hcut hrow⟩

theorem sheet_move (h : d.InRange) (hwf : d.Wf) (hn : d.Names ids) (hv : v ≠ 0) {x : Place} (hx : d.curs (ids v) = some x)
    (dir : CmoveDir) : (d.move (ids v) dir).sheet ids = (d.sheet ids).act x (.move v dir) := by
  have hstep := sheet_step ids h hwf hx dir
  obtain ⟨A, lid, a, b, B, hcut, rfl, hle, -⟩ := h.sheet_cut ids hwf hx
  have hcut' : d.content = A ++ [] ++ (lid, a ++ b) :: B := by rw [hcut, List.append_nil]
  rw [Sheet.act, hstep]
  refine sheet_edit hcut' (e := d.move (ids v) dir) hcut' (Nat.le_succ_of_le hle) rfl rfl fun w hw => ?_
  refine Option.map_congr fun y hy => ?_
  simp only [hn.inj v w hv hw]
  split
  · next hwv =>
      rw [hwv, hx] at hy
      rw [Option.some.inj hy]
  · rfl

theorem sheet_insert (h : d.InRange) (hwf : d.Wf) (hn : d.Names ids) (hv : v ≠ 0) {x : Place} (hx : d.curs (ids v) = some x)
    {chr : UInt8} (h0 : chr ≠ 0) (hascii : chr.toNat < 128) :
    (d.insert (ids v) chr).sheet ids = (d.sheet ids).act x (.insert v chr) := by
  obtain ⟨A, lid, a, b, B, hcut, rfl, hle, htext⟩ := h.sheet_cut ids hwf hx
  have hlen : d.len A.length = (a ++ b).length := len_of_cut hcut
  simp only [Sheet.act, htext]
  show _ = if sizeT (d.width - 1) ≤ (a ++ b).length then d.sheet ids else _
  split
  · next hfull => rw [insert_full hx (by rwa [hlen])]
  · next hroom =>
      have hcontent := insert_content hcut hx hroom h0 hascii
      rw [List.append_cons] at hcut hcontent
      have hcounts := (insert_counts d (ids v) chr).1
      have hlast : (d.insert (ids v) chr).last = d.last := congrArg (fun c => c.2.2.2) hcounts
      rw [Int.toNat_natCast, List.take_left, List.drop_left]
      refine sheet_edit hcut hcontent (Nat.succ_le_succ hle) (by rw [hlast]; rfl) (congrArg (fun c => c.2.2.1) hcounts) fun w hw => ?_
      rw [insert_curs hx (by rwa [hlen])]
      simp only [hn.inj v w hv hw]

theorem sheet_insertLine (h : d.InRange) (hwf : d.Wf) (hn : d.Names ids) (hv : v ≠ 0) {x : Place} (hx : d.curs (ids v) = some x) :
    (d.insertLine (ids v)).sheet ids = (d.sheet ids).act x (.insertLine v) := by
  have hcurs := h.insertLine_curs hwf hx
  have hcounts := (insertLine_counts hwf hx).1
  obtain ⟨A, lid, a, b, B, hcut, rfl, hle, htext⟩ := h.sheet_cut ids hwf hx
  have hcontent := insertLine_content hcut hx
  rw [List.append_cons] at hcut
  have hlast : (d.insertLine (ids v)).last = d.last + 1 := congrArg (fun c => c.2.2.2) hcounts
  simp only [Sheet.act, htext, Int.toNat_natCast, List.take_left, List.drop_left]
  have hnew : [a, b] = (if a = [] then [(d.lineIdCnt, []), (lid, b)] else [(lid, a), (d.lineIdCnt, b)]).map Prod.snd := by
    split
    · next ha => rw [ha]; rfl
    · rfl
  rw [hnew]
  refine sheet_edit hcut hcontent (Nat.succ_le_succ hle) ?_ (congrArg (fun c => c.2.2.1) hcounts) fun w hw => ?_
  · rw [hlast]
    split <;> rfl
  · rw [hcurs (ids w) fun hhome => absurd (hn.home w hw hhome.2.1) (by simp [hhome.1])]
    simp only [hn.inj v w hv hw]

theorem sheet_delChar (h : d.InRange) (hwf : d.Wf) (hn : d.Names ids) (hv : v ≠ 0) {x : Place} (hx : d.curs (ids v) = some x)
    (hpos : 0 < x.pos) : (d.del (ids v)).sheet ids = (d.sheet ids).act x (.del v) := by
  have hcurs := delChar_curs hx hpos
  have hsame : (d.del (ids v)).last = d.last ∧ (d.del (ids v)).width = d.width := by
    simp only [Doc.del, hx, if_pos hpos]
    exact ⟨rfl, rfl⟩
  obtain ⟨A, lid, a, b, B, hcut, rfl, hle, htext⟩ := h.sheet_cut ids hwf hx
  have hne : a ≠ [] := by
    rintro rfl
    exact absurd hpos (by simp)
  obtain ⟨a, c, rfl⟩ : ∃ a' c, a = a' ++ [c] := ⟨a.dropLast, a.getLast hne, (List.dropLast_append_getLast hne).symm⟩
  have hcontent := delChar_content hcut hx
  rw [List.append_cons] at hcut hcontent
  have htake : (a ++ [c] ++ b).take ((a ++ [c]).length - 1) = a := by
    rw [List.length_append, List.length_singleton, Nat.add_sub_cancel, List.append_assoc, List.take_left]
  simp only [Sheet.act, htext, if_pos hpos, Int.toNat_natCast, htake, List.drop_left]
  refine sheet_edit hcut hcontent (Nat.succ_le_succ hle) (by rw [hsame.1]; rfl) hsame.2 fun w hw => ?_
  rw [hcurs]
  simp only [hn.inj v w hv hw]

theorem sheet_join (h : d.InRange) (hwf : d.Wf) (hn : d.Names ids) (hv : v ≠ 0) {x : Place} (hx : d.curs (ids v) = some x)
    (hpos : ¬ 0 < x.pos) (hrow : x.row ≠ 0) : (d.join (ids v) (x.row - 1)).sheet ids = (d.sheet ids).act x (.del v) := by
  obtain ⟨A, lid, a, ⟨lid', b⟩, B, hcut, hk⟩ := exists_join_cut hwf hx hrow
  obtain ⟨r, p⟩ := x
  obtain rfl : r = A.length + 1 := hk
  have hle : A.length + 1 ≤ d.last := hwf.curs_le _ _ hx
  have hcounts := (join_counts d (ids v) A.length).1
  have hcurs := h.join_curs hcut hx
  have hcontent := join_content hcut (ids v)
  have habove := sheet_text_of_cut ids hcut (Nat.le_of_succ_le hle)
  have hbelow : (d.sheet ids).text (A.length + 1) = b := by
    rw [List.append_cons] at hcut
    have htext := sheet_text_of_cut ids hcut (by rw [List.length_append]; exact hle)
    rwa [List.length_append] at htext
  have hcut' : d.content = A ++ [(lid, a), (lid', b)] ++ B := by rw [hcut, List.append_assoc]; rfl
  rw [List.append_cons] at hcontent
  simp only [Sheet.act, if_neg hpos, if_neg hrow, Nat.add_sub_cancel, habove, hbelow]
  refine sheet_edit hcut' hcontent (Nat.succ_le_succ hle) ?_ (congrArg (fun c => c.2.2.1) hcounts) fun w hw => ?_
  · have hlast : (d.join (ids v) A.length).last = unbump (A.length + 1) (if A.length + 1 = d.last then A.length else d.last) :=
      congrArg (fun c => c.2.2.2) hcounts
    rw [hlast]
    simp only [unbump, List.length_cons, List.length_nil]
    grind
  · rw [hcurs]
    simp only [hn.inj v w hv hw]

theorem sheet_del (h : d.InRange) (hwf : d.Wf) (hn : d.Names ids) (hv : v ≠ 0) {x : Place} (hx : d.curs (ids v) = some x) :
    (d.del (ids v)).sheet ids = (d.sheet ids).act x (.del v) := by
  by_cases hpos : 0 < x.pos
  · exact sheet_delChar h hwf hn hv hx hpos
  · by_cases hrow : x.row = 0
    · simp only [Doc.del, hx, if_neg hpos, if_pos hrow, Sheet.act]
    · have hjoin : d.del (ids v) = d.join (ids v) (x.row - 1) := by simp only [Doc.del, hx, if_neg hpos, if_neg hrow]
      rw [hjoin]
      exact sheet_join h hwf hn hv hx hpos hrow

end Doc

/-! ## Buffers -/

/-- The sheet of a buffer that has the cursor of user `v` under the id `ids v`. -/
def Buffer.sheet (ids : Int → Int) (b : Buffer R) : Sheet where
  width := b.width
  texts := b.texts
  curs v := if v = 0 then none else b.place (ids v)

theorem Holds.sheet {b : Buffer R} {d : Doc R} (h : Holds b d) (ids : Int → Int) : b.sheet ids = d.sheet ids := by
  simp only [Buffer.sheet, Doc.sheet, h.width, h.texts, h.place]

end CoEditor
