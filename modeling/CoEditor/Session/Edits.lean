-- SUMMARY: What typing, breaking lines, deleting and moving do to the text of a buffer and to the offsets of its cursors.
import CoEditor.Session.Places
import CoEditor.Session.Screen

/-!
# Edits

Each call at a cursor is one edit of the text at the offset of this cursor. The
other cursors are to stay at their places in the text.
-/

namespace CoEditor

variable {R : Type} [Rope R] {b b' : Buffer R} {d : Doc R} {id : Int} {x : Place}

/-! ## Typing -/

/-- The call typed `chr` at cursor `id`, which was at `x`: if the line has room for it, the character is in the text
    and the other cursors are at their places; otherwise nothing has changed. -/
def TypedAt (b b' : Buffer R) (id : Int) (x : Place) (chr : Char) : Prop :=
  if (b.lineLen x.row : Int) < b.width - 1 then
    b'.text = b.text.take (offset b.texts x.row x.pos).toNat ++ [chr] ++ b.text.drop (offset b.texts x.row x.pos).toNat ∧
    ∀ i q, b.offsetOf i = some q →
      b'.offsetOf i = some (if i = id ∨ offset b.texts x.row x.pos < q then q + 1 else q)
  else b'.text = b.text ∧ ∀ i, b'.place i = b.place i

/-- The text of a line of `b` with `chr` typed at `x`. -/
def Buffer.lineTyped (b : Buffer R) (x : Place) (chr : Char) (y : Ptr × Line R) : List Char :=
  let t := Rope.chars y.2.str
  if b.rowOf y.1 = x.row ∧ (t.length : Int) < b.width - 1 then t.take x.pos.toNat ++ [chr] ++ t.drop x.pos.toNat else t

/-- The lines on the screen can be printed with `chr` typed at `x`, and the own cursor is on one of them. -/
def Buffer.ShowableTyped (b : Buffer R) (x : Place) (chr : Char) : Prop :=
  (∀ y ∈ b.shown, NoConversion (Utf8.encode (b.lineTyped x chr y)) ∧
    ((Utf8.encode (b.lineTyped x chr y)).length : Int) + 1 ≤ b.cstrSize) ∧
  ∃ c ∈ b.ownCurs, c.ownLine ∈ b.shown.map Prod.fst

/-- The rows of a page after typing at `cur`, and what else is on the screen. -/
theorem Page.bcursorInsert_shows {p q : Page R} (hD : p.Distinct) {ref : CursRef} {cur : PageCursor} (hc : p.curs ref = .ok cur)
    {chr : UInt8} {res : Bres} (hrun : p.bcursorInsert cur.id chr = .ok (q, res)) : q.top = p.top ∧ q.height = p.height ∧
      q.width = p.width ∧ q.own.row = p.own.row ∧ ∀ i, q.rows[i]?.map Row.str = p.rows[i]?.map fun r =>
        if i = cur.row ∧ ¬ sizeT (p.width - 1) ≤ p.len cur.row then Rope.insert r.str (sizeT cur.pos) (hstr chr) else r.str := by
  simp only [Page.bcursorInsert, Page.find_of_curs hD hc, hc, Except.ok_bind_eq] at hrun
  by_cases hfull : sizeT (p.width - 1) ≤ p.len cur.row
  · rw [if_pos hfull] at hrun
    obtain ⟨rfl, -⟩ := Prod.mk.inj (Except.ok.inj hrun)
    exact ⟨rfl, rfl, rfl, rfl, fun i => by simp [hfull]⟩
  · rw [if_neg hfull] at hrun
    obtain ⟨rfl, -⟩ := Prod.mk.inj (Except.ok.inj hrun)
    have hown : (Page.nudge ref { cur with pos := cur.pos + 1 } 1 .own
        ((p.modifyRow cur.row fun r => { r with str := Rope.insert r.str (sizeT cur.pos) (hstr chr) }).setCurs
          { cur with pos := cur.pos + 1 } ref).own).row = p.own.row := by
      rw [Page.nudge]
      cases ref with
      | own =>
          obtain rfl := Except.ok.inj hc
          split <;> rfl
      | peer i => split <;> rfl
    refine ⟨?_, ?_, ?_, hown, fun i => ?_⟩
    · cases ref <;> rfl
    · cases ref <;> rfl
    · cases ref <;> rfl
    · have hrows : ((p.modifyRow cur.row fun r => { r with str := Rope.insert r.str (sizeT cur.pos) (hstr chr) }).setCurs
          { cur with pos := cur.pos + 1 } ref).rows = p.rows.modify cur.row fun r =>
            { r with str := Rope.insert r.str (sizeT cur.pos) (hstr chr) } := by
        cases ref <;> rfl
      rw [show (Page.nudgeOthers _ ref _ 1).rows = _ from hrows, List.getElem?_modify]
      cases p.rows[i]? with
      | none => rfl
      | some r =>
          by_cases hi : i = cur.row
          · subst hi
            simp [hfull]
          · simp [hi, Ne.symm hi]

/-- Whether the window can be painted after typing can be told from the buffer before. -/
theorem Rep.showableTyped {p q : Page R} (h : Rep b p) (hD : p.Distinct) {ref : CursRef} {cur : PageCursor}
    (hc : p.curs ref = .ok cur) (hpos : 0 ≤ cur.pos ∧ cur.pos ≤ p.len cur.row) {chr : UInt8} (h0 : chr ≠ 0)
    (hascii : chr.toNat < 128) (hroom : (p.len cur.row : Int) < p.width - 1 ↔ ¬ sizeT (p.width - 1) ≤ p.len cur.row)
    {res : Bres} (hrun : p.bcursorInsert cur.id chr = .ok (q, res)) :
    q.Showable ↔ b.ShowableTyped cur.place (Char.ofNat chr.toNat) := by
  obtain ⟨htop, hheight, hwidth, hown, hstr⟩ := Page.bcursorInsert_shows hD hc hrun
  rw [Page.Showable, Buffer.ShowableTyped, h.own_shown_iff, h.cstrSize, htop, hheight, hwidth, hown]
  refine and_congr_left fun _ => ?_
  -- row by row, what is printed is the same
  have hprints : ∀ (i : Nat) (r s : Row R), p.rows[i]? = some r → q.rows[i]? = some s →
      Utf8.encode (b.lineTyped cur.place (Char.ofNat chr.toNat) (r.ptr, p.lineOf i r)) = Rope.writeCstr s.str := by
    intro i r s hr hs
    have hs' := hstr i
    rw [hr, hs, Option.map_some, Option.map_some, Option.some.injEq] at hs'
    rw [Rope.writeCstr_eq, hs', Buffer.lineTyped]
    congr 1
    simp only [h.rowOf hr, h.width, PageCursor.place, Page.lineOf]
    by_cases hi : i = cur.row
    · have hlen : p.len cur.row = (Rope.chars r.str).length := by rw [← hi, Layout.len_of_row hr, Rope.charCount_eq]
      rw [hlen] at hroom hpos
      by_cases hlt : ((Rope.chars r.str).length : Int) < p.width - 1
      · rw [if_pos ⟨hi, hlt⟩, if_pos ⟨hi, by rw [hlen]; exact hroom.mp hlt⟩, sizeT_of_nonneg hpos.1, CoEditor.hstr, if_neg h0,
          ← Utf8.encode_ofNat hascii, Rope.chars_insert]
        · omega
        · rw [Utf8.encode_ofNat hascii]
          simpa using Ne.symm h0
      · rw [if_neg (fun hboth => hlt hboth.2), if_neg (fun hboth => hlt (hroom.mpr (by rw [← hlen]; exact hboth.2)))]
    · rw [if_neg (fun hboth => hi hboth.1), if_neg (fun hboth => hi hboth.1)]
  have hrows (i : Nat) : (∃ r, p.rows[i]? = some r) ↔ ∃ s, q.rows[i]? = some s := by
    have hi := congrArg Option.isSome (hstr i)
    rw [Option.isSome_map, Option.isSome_map] at hi
    rw [← Option.isSome_iff_exists, ← Option.isSome_iff_exists, hi]
  constructor
  · rintro hall y hy
    obtain ⟨i, r, hr, hle, hlt, rfl⟩ := h.mem_shown.mp hy
    obtain ⟨s, hs⟩ := (hrows i).mp ⟨r, hr⟩
    rw [hprints i r s hr hs]
    exact hall i s hs hle hlt
  · intro hall i s hs hle hlt
    obtain ⟨r, hr⟩ := (hrows i).mpr ⟨s, hs⟩
    have hprinted := hall _ (h.mem_shown.mpr ⟨i, r, hr, hle, hlt, rfl⟩)
    rwa [hprints i r s hr hs] at hprinted

theorem bcursorInsert_painted {c : CursRef} (hc : bcursorFind b id = .ok (some c)) {chr : UInt8} {res : Bres}
    (hrun : bcursorInsert b id chr = .ok (b', res)) : ∃ b₁ : Buffer R, b₁.quiet = b.quiet ∧ b' = b₁.uiUpdate true := by
  rw [bcursorInsert, hc, Except.ok_bind_eq] at hrun
  obtain ⟨r, hr, hrun⟩ := Except.bind_eq_ok.mp hrun
  obtain ⟨b₁, hb₁, hrun⟩ := Except.bind_eq_ok.mp hrun
  obtain ⟨rfl, -⟩ := Prod.mk.inj (Except.ok.inj hrun)
  have hnudge : b₁.quiet = r.1.quiet := Yields.runIf (nudgeOthers_quiet · c 1) r.1 b₁ hb₁
  exact ⟨b₁, hnudge.trans (cursorInsert_quiet b c chr r hr), rfl⟩

theorem Rep.insert_paintFault {p : Page R} (h : Rep b p) (hD : p.Distinct) (hrange : b.InRange) (hx : b.place id = some x)
    {chr : UInt8} (h0 : chr ≠ 0) (hascii : chr.toNat < 128)
    (hroom : (b.lineLen x.row : Int) < b.width - 1 ↔ ¬ sizeT (b.width - 1) ≤ b.lineLen x.row) {res : Bres}
    (hrun : CoEditor.bcursorInsert b id chr = .ok (b', res)) :
    b'.paintFault = none ↔ b.paintFault = none ∧ (b.u = .ui → b.ShowableTyped x (Char.ofNat chr.toNat)) := by
  rw [h.place hD] at hx
  obtain ⟨ref, cur, hc, rfl, rfl⟩ := Page.curs_of_doc hx
  have hfind := h.bcursorFind cur.id
  rw [Page.find_of_curs hD hc] at hfind
  have hsim := h.bcursorInsert cur.id chr
  rw [hrun] at hsim
  obtain ⟨⟨q, res'⟩, hq, hrep, -⟩ := hsim.of_ok_left
  obtain ⟨b₁, hquiet, rfl⟩ := bcursorInsert_painted hfind hrun
  obtain ⟨c, hc', hcursor⟩ := h.curs_ok hc
  obtain ⟨r, hr, rfl⟩ := Layout.cursor_row hcursor
  have hlen : b.lineLen cur.row = p.len cur.row := by
    rw [Buffer.lineLen, h.content, Layout.len_of_row hr, Rope.charCount_eq]
    simp [Page.doc, Doc.content, hr]
  obtain ⟨l, hl, hpos⟩ := hrange ref _ hc'
  obtain rfl := Except.ok.inj ((h.line hr).symm.trans hl)
  rw [PageCursor.place, hlen, h.width] at hroom
  rw [Rep.paintFault hquiet hrep, h.showableTyped hD hc (by rwa [Layout.len_of_row hr]) h0 hascii hroom hq]
  exact and_congr_right fun _ => forall_congr' fun _ => forall_prop_of_true rfl

/-- The line counts as full for both readings of `width - 1`, or for neither. -/
theorem room_iff_of_full {len : Nat} {width : Int} (h : ¬ (len : Int) < width - 1 → sizeT (width - 1) ≤ len) :
    (len : Int) < width - 1 ↔ ¬ sizeT (width - 1) ≤ len := by
  by_cases hlt : (len : Int) < width - 1
  · rw [sizeT_of_nonneg (by omega)]
    omega
  · exact iff_of_false hlt (not_not.mpr (h hlt))

/-- What becomes of the text and of the cursors. -/
theorem Holds.typedAt_iff (h : Holds b d) {chr : UInt8} (h' : Holds b' (d.insert id chr)) (hd : d.InRange)
    (hx : d.curs id = some x) (h0 : chr ≠ 0) (hascii : chr.toNat < 128) :
    TypedAt b b' id x (Char.ofNat chr.toNat) ↔
      if (b.lineLen x.row : Int) < b.width - 1 then ∀ i, i ≠ id → b.place i ≠ some ⟨x.row, x.pos + 1⟩
      else sizeT (b.width - 1) ≤ b.lineLen x.row := by
  have htyped := fun hroom => hd.insert_text h.wf hx hroom h0 hascii
  simp only [TypedAt, h.text, h'.text, h.offsetOf, h'.offsetOf, h.place, h'.place, h.lineLen, h.width, h.texts]
  split
  · next hroom =>
      obtain ⟨htext, hoffsets⟩ := htyped (by rw [sizeT_of_nonneg (by omega)]; omega)
      refine ⟨?_, fun hno => ⟨htext, fun i q hq => ?_⟩⟩
      · rintro ⟨-, hall⟩ i hi hplace
        -- the cursor at the next column should have moved, and has not
        have hstay := hoffsets i _ hplace
        have hmove := hall i (d.offset ⟨x.row, x.pos + 1⟩) (by rw [Doc.offsetOf, hplace]; rfl)
        rw [hstay, if_neg (by simp [hi])] at hmove
        have hlt : offset d.texts x.row x.pos < d.offset ⟨x.row, x.pos + 1⟩ := by
          simp only [Doc.offset, offset]
          omega
        rw [if_pos (.inr hlt), Option.some.injEq] at hmove
        omega
      · obtain ⟨y, hy, rfl⟩ := Option.map_eq_some_iff.mp hq
        rw [hoffsets i y hy]
        by_cases hi : i = id
        · rw [if_pos (.inl hi), if_pos (.inl hi)]
        · have hne : y ≠ ⟨x.row, x.pos + 1⟩ := fun hy' => hno i hi (hy' ▸ hy)
          simp only [hi, false_or, ne_eq, hne, not_false_eq_true, and_true]
          rfl
  · refine ⟨?_, fun hfull => ?_⟩
    · rintro ⟨hsame, -⟩
      refine not_not.mp fun hfull => ?_
      have hlen := congrArg List.length ((htyped hfull).1.symm.trans hsame)
      simp only [List.length_append, List.length_take, List.length_drop, List.length_singleton] at hlen
      omega
    · rw [Doc.insert_full hx hfull]
      exact ⟨rfl, fun _ => rfl⟩

/-- Typing is what it should be exactly if no other cursor is one column to the right of the acting one. On a full line
    nothing happens, if the line is also full with `width - 1` taken as unsigned. With a screen, the window must also be
    such that it can be painted. -/
theorem insert_keeps_places (hb : Reachable b) (hfault : b.paintFault = none) (hrange : b.InRange) (hx : b.place id = some x)
    {chr : UInt8} (hchr : 32 ≤ chr.toNat ∧ chr.toNat < 127) : ∃ b', bcursorInsert b id chr = .ok (b', .update) ∧
      (b'.paintFault = none ∧ TypedAt b b' id x (Char.ofNat chr.toNat) ↔
        (if (b.lineLen x.row : Int) < b.width - 1 then ∀ i, i ≠ id → b.place i ≠ some ⟨x.row, x.pos + 1⟩
          else sizeT (b.width - 1) ≤ b.lineLen x.row) ∧
        (b.u = .ui → b.ShowableTyped x (Char.ofNat chr.toNat))) := by
  obtain ⟨d, hsound⟩ := hb.sound
  have h := hsound.holds
  have hd := h.inRange_iff.mp hrange
  have hx' := hx
  rw [h.place] at hx
  have hid : d.curs id ≠ none := by rw [hx]; exact Option.some_ne_none x
  obtain ⟨⟨b', res⟩, hrun⟩ := (h.returns id hid).2.1 chr
  have h' := h.bcursorInsert hid hrun
  obtain ⟨e, -, heffect⟩ := h.run (.insert id chr) trivial hrun
  obtain rfl : res = .update := by
    cases heffect with
    | insert => rfl
    | insertNone hnone => exact absurd hnone hid
  have h0 : chr ≠ 0 := by
    rintro rfl
    exact absurd hchr.1 (by decide)
  have hascii := Nat.lt_of_lt_of_le hchr.2 (by decide : 127 ≤ 128)
  refine ⟨b', hrun, ?_⟩
  rw [and_comm (a := b'.paintFault = none)]
  refine (and_congr (h.typedAt_iff h' hd hx h0 hascii) Iff.rfl).trans (and_congr_right fun hcond => ?_)
  have hroom := room_iff_of_full fun hlt => by rwa [if_neg hlt] at hcond
  obtain ⟨p, hrep, hgood, rfl⟩ := h
  rw [hrep.insert_paintFault hgood.distinct hrange hx' h0 hascii hroom hrun, and_iff_right hfault]

theorem insert_keeps_places_ab : ∃ b : Buffer ListRope, Reachable b ∧ b.texts = ["ab".toList] ∧ b.place 0 = some ⟨0, 0⟩ ∧
    b.u = .ui ∧ ∃ b', bcursorInsert b 0 120 = .ok (b', .update) ∧ (b'.paintFault = none ∧ TypedAt b b' 0 ⟨0, 0⟩ 'x' ↔
      (if (b.lineLen 0 : Int) < b.width - 1 then ∀ i, i ≠ 0 → b.place i ≠ some ⟨0, 1⟩
        else sizeT (b.width - 1) ≤ b.lineLen 0) ∧ (b.u = .ui → b.ShowableTyped ⟨0, 0⟩ 'x')) := by
  have htest : returns (bufferFromFile (R := ListRope) (bytes "ab") 1 3 6 true) (fun b =>
      decide (b.texts = ["ab".toList] ∧ b.place 0 = some ⟨0, 0⟩ ∧ b.u = .ui ∧ b.paintFault = none)) = true := by decide +kernel
  obtain ⟨b, hb, hP⟩ := exists_of_returns htest
  obtain ⟨htexts, hplace, hui, hfault⟩ := of_decide_eq_true hP
  have hkeeps : Reached (fun b op => op.KeepsRange b) b := .load (by decide) hb
  obtain ⟨d, hsound, hd⟩ := hkeeps.inRange
  exact ⟨b, .load (by decide) hb, htexts, hplace, hui,
    insert_keeps_places (.load (by decide) hb) hfault (hsound.holds.inRange_iff.mpr hd) hplace (by decide)⟩

/-- A cursor between `a` and `b` stays before `a` when `x` is typed in front of it. -/
theorem insert_leaves_neighbour : ∃ b : Buffer ListRope, Reachable b ∧ b.text = "ab".toList ∧ b.place 1 = some ⟨0, 0⟩ ∧
    (b.lineLen 0 : Int) < b.width - 1 ∧ ∃ b', bcursorInsert b 1 120 = .ok (b', .update) ∧ b'.text = "xab".toList ∧
      b.offsetOf 2 = some 1 ∧ b'.offsetOf 2 = some 1 ∧ ¬ TypedAt b b' 1 ⟨0, 0⟩ 'x' := by
  have htest : returns (bufferFromFile (R := ListRope) (bytes "ab") 1 3 6 true) (fun b =>
      (replay b [.new 1 0 0, .new 2 0 1]).any fun b =>
        decide (b.text = "ab".toList ∧ b.place 1 = some ⟨0, 0⟩ ∧ (b.lineLen 0 : Int) < b.width - 1 ∧ b.offsetOf 2 = some 1) &&
        returns (bcursorInsert b 1 120) fun x =>
          decide (x.2 = .update ∧ x.1.text = "xab".toList ∧ x.1.offsetOf 2 = some 1)) = true := by
    decide +kernel
  obtain ⟨b₀, hb₀, htest⟩ := exists_of_returns htest
  obtain ⟨b, hb, hP⟩ := (Option.any_eq_true _ _).mp htest
  obtain ⟨hP, hrun⟩ := (Bool.and_eq_true _ _).mp hP
  obtain ⟨htext, hplace, hroom, hoffset⟩ := of_decide_eq_true hP
  obtain ⟨⟨b', res⟩, hrun, hQ⟩ := exists_of_returns hrun
  obtain ⟨rfl, htext', hstay⟩ := of_decide_eq_true hQ
  refine ⟨b, (Reached.load (by decide) hb₀).replay hb, htext, hplace, hroom, b', hrun, htext', hoffset, hstay, fun htyped => ?_⟩
  rw [TypedAt, if_pos hroom] at htyped
  have hmoved := htyped.2 2 1 hoffset
  rw [hstay] at hmoved
  have hafter : (2 : Int) = 1 ∨ offset b.texts 0 0 < 1 := .inr (by simp [offset])
  rw [if_pos hafter] at hmoved
  cases hmoved

/-! ## Breaking lines -/

/-- The call broke the line of cursor `id`, which was at `x`. -/
structure BrokenAt (b b' : Buffer R) (id : Int) (x : Place) : Prop where
  text : b'.text = b.text.take (offset b.texts x.row x.pos).toNat ++ '\n' :: b.text.drop (offset b.texts x.row x.pos).toNat
  /-- The line below holds what was right of the cursor. -/
  below : b'.texts[x.row + 1]? = b.texts[x.row]?.map (·.drop x.pos.toNat)
  acting : ¬ (b.serverMode ∧ id = 0 ∧ x.pos = 0) → b'.place id = some ⟨x.row + 1, 0⟩
  /-- Of the others only the own cursor of a server may lose its place in the text. -/
  after : ∀ i q, i ≠ id → ¬ (b.serverMode ∧ i = 0 ∧ x.pos = 0) → b.offsetOf i = some q →
    offset b.texts x.row x.pos < q → b'.offsetOf i = some (q + 1)
  before : ∀ i y, i ≠ id → ¬ (b.serverMode ∧ i = 0 ∧ x.pos = 0) → b.place i = some y →
    offset b.texts y.row y.pos < offset b.texts x.row x.pos →
      b'.place i = some y ∧ b'.offsetOf i = some (offset b.texts y.row y.pos)
  /-- All other lines keep their ids and texts. -/
  others : ∃ A lid lid₁ lid₂ t B, b.content = A ++ (lid, t) :: B ∧ A.length = x.row ∧ (lid = lid₁ ∨ lid = lid₂) ∧
    b'.content = A ++ (lid₁, t.take x.pos.toNat) :: (lid₂, t.drop x.pos.toNat) :: B

/-- Breaking a line puts one newline into the text, where the cursor is. -/
theorem insertLine_breaks (hb : Reached (fun b op => op.KeepsRange b) b) (hx : b.place id = some x) :
    ∃ b', bcursorInsertLine b id = .ok (b', .update) ∧ BrokenAt b b' id x := by
  obtain ⟨d, hsound, hd⟩ := hb.inRange
  have h := hsound.holds
  rw [h.place] at hx
  obtain ⟨⟨b', res⟩, hrun⟩ := (h.returns id (by rw [hx]; exact Option.some_ne_none x)).2.2
  have h' := h.bcursorInsertLine hrun
  obtain ⟨e, -, heffect⟩ := h.run (.insertLine id) trivial hrun
  obtain rfl : res = .update := by
    cases heffect
    rfl
  obtain ⟨htext, hbelow, hplaces⟩ := hd.insertLine_text h.wf hx
  refine ⟨b', hrun, ?_, ?_, fun hhome => ?_, fun i q hi hhome hq hlt => ?_, fun i y hi hhome hy hlt => ?_, ?_⟩
  · rw [h.text, h'.text, h.texts]
    exact htext
  · rw [h.texts, h'.texts]
    exact hbelow
  · rw [h.serverMode] at hhome
    obtain ⟨y, hy, hself, -⟩ := hplaces id x hx hhome
    rw [h'.place, hy, (hself rfl).1]
  · rw [h.serverMode] at hhome
    rw [h.offsetOf] at hq
    rw [h.texts] at hlt
    obtain ⟨z, hz, rfl⟩ := Option.map_eq_some_iff.mp hq
    obtain ⟨y, hy, -, hafter, -⟩ := hplaces i z hz hhome
    rw [h'.offsetOf, Doc.offsetOf, hy, Option.map_some, hafter hi hlt]
  · rw [h.serverMode] at hhome
    rw [h.place] at hy
    rw [h.texts] at hlt ⊢
    obtain ⟨z, hz, -, -, hbefore⟩ := hplaces i y hy hhome
    obtain ⟨rfl, hsame⟩ := hbefore hi hlt
    refine ⟨by rw [h'.place, hz], ?_⟩
    rw [h'.offsetOf, Doc.offsetOf, hz, Option.map_some, hsame]
    rfl
  · obtain ⟨A, lid, u, v, B, hcut, rfl⟩ := hd.cut h.wf hx
    have hcontent := Doc.insertLine_content hcut hx
    rw [h.content, h'.content, hcontent, hcut]
    simp only [Int.toNat_natCast]
    by_cases hu : u = []
    · exact ⟨A, lid, d.lineIdCnt, lid, u ++ v, B, rfl, rfl, .inr rfl, by simp [hu]⟩
    · exact ⟨A, lid, lid, d.lineIdCnt, u ++ v, B, rfl, rfl, .inl rfl, by simp [hu]⟩

theorem insertLine_breaks_ab : ∃ b : Buffer ListRope, Reached (fun b op => op.KeepsRange b) b ∧ b.texts = ["ab".toList] ∧
    b.place 0 = some ⟨0, 1⟩ ∧ ∃ b', bcursorInsertLine b 0 = .ok (b', .update) ∧ BrokenAt b b' 0 ⟨0, 1⟩ := by
  have htest : returns (bufferFromFile (R := ListRope) (bytes "ab") 1 3 6 true) (fun b =>
      returns (Op.run b (.move 0 .right)) fun x => decide (x.1.texts = ["ab".toList] ∧ x.1.place 0 = some ⟨0, 1⟩)) = true := by
    decide +kernel
  obtain ⟨b, hb, htest⟩ := exists_of_returns htest
  obtain ⟨⟨b', res⟩, hrun, hP⟩ := exists_of_returns htest
  obtain ⟨htexts, hplace⟩ := of_decide_eq_true hP
  have hlegal : (Op.move 0 .right).Legal (HasCurs b) := trivial
  have hkeeps : (Op.move 0 .right).KeepsRange b := trivial
  have hreach : Reached (fun b op => op.KeepsRange b) b' := .step (.load (by decide) hb) hlegal hkeeps hrun
  exact ⟨b', hreach, htexts, hplace, insertLine_breaks hreach hplace⟩

/-! ## Deleting -/

/-- At the start of the document there is nothing to delete. -/
theorem Holds.del_start (h : Holds b d) (hx : d.curs id = some ⟨0, 0⟩) : bcursorDel b id = .ok (b, .failed) := by
  obtain ⟨p, hrep, hgood, rfl⟩ := h
  obtain ⟨ref, c, hc, rfl, hplace⟩ := Page.curs_of_doc hx
  obtain ⟨hrow, hpos⟩ := Place.mk.inj hplace
  obtain ⟨c', hc', hcursor⟩ := hrep.curs_ok hc
  obtain ⟨r, hr, rfl⟩ := Layout.cursor_row hcursor
  obtain ⟨f, hf, hfirst⟩ := hrep.first_row
  rw [hrow, hf] at hr
  obtain rfl := Option.some.inj hr
  have hline := hrep.line hf
  simp only [bcursorDel, hrep.bcursorFind, Page.find_of_curs hgood.distinct hc, derefCurs, Except.ok_bind_eq, Except.pure_eq_ok,
    hc', hline, hpos, Int.lt_irrefl, if_false, hfirst, if_true]

/-- Deleting takes the character before the cursor out of the text, and no cursor is left on a line that was freed. -/
theorem del_erases (hb : Reached (fun b op => op.KeepsRange b) b) {o : Int} (ho : b.offsetOf id = some o) {res : Bres}
    (hrun : bcursorDel b id = .ok (b', res)) : (o = 0 → res = .failed ∧ b' = b) ∧
      (o ≠ 0 → res = .update ∧ b'.text = b.text.eraseIdx (o.toNat - 1) ∧
        ∀ i q, b.offsetOf i = some q → b'.offsetOf i = some (if o ≤ q then q - 1 else q)) ∧
      ∀ ref c, b'.curs ref = .ok c → ∃ l, b'.line c.ownLine = .ok l := by
  obtain ⟨d, hsound, hd⟩ := hb.inRange
  have h := hsound.holds
  rw [h.offsetOf] at ho
  obtain ⟨x, hx, rfl⟩ := Option.map_eq_some_iff.mp ho
  obtain ⟨e, h', heffect⟩ := h.run (.del id) trivial hrun
  refine ⟨fun hstart => ?_, fun hstart => ?_, fun ref c hc => ?_⟩
  · obtain rfl := hd.offset_eq_zero h.wf hx hstart
    rw [h.del_start hx] at hrun
    obtain ⟨rfl, rfl⟩ := Prod.mk.inj (Except.ok.inj hrun)
    exact ⟨rfl, rfl⟩
  · cases heffect with
    | del hcur =>
        rename_i cur
        obtain rfl := Option.some.inj (hcur.symm.trans hx)
        have hmiddle : ¬ (¬ 0 < cur.pos ∧ cur.row = 0) := by
          rintro ⟨hpos, hrow⟩
          have hnonneg := (hd id cur hx).1
          have hzero : cur.pos = 0 := by omega
          exact hstart (by simp only [Doc.offset, offset, hrow, lineStart_zero, hzero]; rfl)
        obtain ⟨htext, hoffsets⟩ := hd.del_text h.wf hx hmiddle
        refine ⟨if_neg hmiddle, by rw [h.text, h'.text, htext], fun i q hq => ?_⟩
        rw [h.offsetOf] at hq
        obtain ⟨y, hy, rfl⟩ := Option.map_eq_some_iff.mp hq
        rw [h'.offsetOf, hoffsets i y hy]
  · obtain ⟨p, hrep, -, -⟩ := h'
    have hsim := hrep.curs ref
    rw [hc] at hsim
    obtain ⟨c', -, hcursor⟩ := hsim.of_ok_left
    obtain ⟨r, hr, rfl⟩ := Layout.cursor_row hcursor
    exact ⟨_, hrep.line hr⟩

theorem del_erases_ab : ∃ b b' : Buffer ListRope, Reached (fun b op => op.KeepsRange b) b ∧ b.text = "ab".toList ∧
    bcursorDel b 0 = .ok (b', .update) ∧ ((1 : Int) ≠ 0 → Bres.update = .update ∧ b'.text = b.text.eraseIdx 0 ∧
      ∀ i q, b.offsetOf i = some q → b'.offsetOf i = some (if 1 ≤ q then q - 1 else q)) := by
  have htest : returns (bufferFromFile (R := ListRope) (bytes "ab") 1 3 6 true) (fun b =>
      returns (Op.run b (.move 0 .right)) fun x => decide (x.1.text = "ab".toList ∧ x.1.offsetOf 0 = some 1) &&
        returns (bcursorDel x.1 0) fun y => decide (y.2 = .update)) = true := by
    decide +kernel
  obtain ⟨b, hb, htest⟩ := exists_of_returns htest
  obtain ⟨⟨b₁, res⟩, hrun, htest⟩ := exists_of_returns htest
  obtain ⟨hP, hdel⟩ := (Bool.and_eq_true _ _).mp htest
  obtain ⟨htext, hoffset⟩ := of_decide_eq_true hP
  obtain ⟨⟨b₂, res'⟩, hrun', hres⟩ := exists_of_returns hdel
  obtain rfl := of_decide_eq_true hres
  have hlegal : (Op.move 0 .right).Legal (HasCurs b) := trivial
  have hkeeps : (Op.move 0 .right).KeepsRange b := trivial
  have hreach : Reached (fun b op => op.KeepsRange b) b₁ := .step (.load (by decide) hb) hlegal hkeeps hrun
  exact ⟨b₁, b₂, hreach, htext, hrun', (del_erases hreach hoffset hrun').2.1⟩

/-! ## Moving -/

/-- Cursor `id`, which was at `x`, made a step in direction `dir` to `y`. -/
def SteppedTo (b : Buffer R) (x y : Place) : CmoveDir → Prop
  | .left => offset b.texts y.row y.pos =
      if offset b.texts x.row x.pos = 0 then 0 else offset b.texts x.row x.pos - 1
  | .right => offset b.texts y.row y.pos =
      if offset b.texts x.row x.pos = b.text.length then offset b.texts x.row x.pos else offset b.texts x.row x.pos + 1
  | .up => y = if x.row = 0 then x else ⟨x.row - 1, min x.pos (b.lineLen (x.row - 1))⟩
  | .down => y = if x.row + 1 = b.texts.length then x else ⟨x.row + 1, min x.pos (b.lineLen (x.row + 1))⟩

/-- The line of cursor `id` is on the screen, or the line that a step in direction `dir` takes it to. -/
def Buffer.SeesMove (b : Buffer R) (id : Int) (dir : CmoveDir) : Prop :=
  ∃ c cur l r, bcursorFind b id = .ok (some c) ∧ b.curs c = .ok cur ∧ b.line cur.ownLine = .ok l ∧
    moveCurs b c cur dir = .ok r ∧ (l.onScreen || r.2) = true

/-- A move paints if it was seen, after all else is done. -/
theorem bcursorMove_painted {dir : CmoveDir} {res : Bres} (hrun : bcursorMove b id dir = .ok (b', res)) :
    ∃ (b₁ : Buffer R) (seen : Bool), b₁.quiet = b.quiet ∧ (seen = true ↔ b.SeesMove id dir) ∧ b' = b₁.uiUpdate seen := by
  obtain ⟨o, hfind, hrun⟩ := Except.bind_eq_ok.mp hrun
  obtain ⟨c, hc, hrun⟩ := Except.bind_eq_ok.mp hrun
  obtain ⟨cur, hcur, hrun⟩ := Except.bind_eq_ok.mp hrun
  obtain ⟨l, hl, hrun⟩ := Except.bind_eq_ok.mp hrun
  obtain ⟨r, hr, hrun⟩ := Except.bind_eq_ok.mp hrun
  obtain ⟨rfl, -⟩ := Prod.mk.inj (Except.ok.inj hrun)
  obtain rfl : o = some c := by
    cases o with
    | none => cases hc
    | some c' => rw [Except.ok.inj hc]
  refine ⟨r.1, l.onScreen || r.2, moveCurs_quiet b c cur dir r hr, ⟨fun hseen => ⟨c, cur, l, r, hfind, hcur, hl, hr, hseen⟩, ?_⟩, rfl⟩
  rintro ⟨c', cur', l', r', hfind', hcur', hl', hr', hseen⟩
  obtain rfl := Option.some.inj (Except.ok.inj (hfind.symm.trans hfind'))
  obtain rfl := Except.ok.inj (hcur.symm.trans hcur')
  obtain rfl := Except.ok.inj (hl.symm.trans hl')
  obtain rfl := Except.ok.inj (hr.symm.trans hr')
  exact hseen

theorem Rep.move_paintFault {q : Page R} {dir : CmoveDir} {res : Bres} (hrun : CoEditor.bcursorMove b id dir = .ok (b', res))
    (h' : Rep b' q) : b'.paintFault = none ↔ b.paintFault = none ∧ (b.u = .ui → b.SeesMove id dir → b'.Showable) := by
  obtain ⟨b₁, seen, hquiet, hseen, rfl⟩ := bcursorMove_painted hrun
  rw [Rep.paintFault hquiet h', hseen, h'.showable_iff]

theorem Holds.move_returns (h : Holds b d) (hid : d.curs id ≠ none) (dir : CmoveDir) :
    ∃ b', CoEditor.bcursorMove b id dir = .ok (b', .update) ∧ Holds b' (d.move id dir) := by
  obtain ⟨⟨b', res⟩, hrun⟩ := (h.returns id hid).1 dir
  obtain ⟨e, -, heffect⟩ := h.run (.move id dir) trivial hrun
  obtain rfl : res = .update := by
    cases heffect
    rfl
  exact ⟨b', hrun, h.bcursorMove hrun⟩

theorem Holds.steppedTo (h : Holds b d) (hd : d.InRange) (hx : d.curs id = some x) (dir : CmoveDir) :
    SteppedTo b x (d.step x dir) dir := by
  have hlast := h.wf.last_lt
  have hlen := Doc.texts_length (Nat.lt_of_succ_lt hlast)
  have hrow := h.wf.curs_le id x hx
  have hpos := (hd id x hx).1
  cases dir with
  | left =>
      simp only [SteppedTo, h.texts]
      exact hd.step_left h.wf hx
  | right =>
      simp only [SteppedTo, h.texts, h.text]
      exact hd.step_right h.wf hx
  | up =>
      simp only [SteppedTo, h.lineLen, Doc.step, Doc.cut_eq_min d _ hpos, ite_not]
  | down =>
      have hdown : x.row + 1 < d.lines.length ∧ x.row ≠ d.last ↔ ¬ x.row + 1 = d.last + 1 := by omega
      simp only [SteppedTo, h.lineLen, h.texts, hlen, Doc.step, Doc.cut_eq_min d _ hpos, hdown, ite_not]

/-- A move changes nothing but the place of its cursor, which goes one character or one line on and stays above the
    padding; steps to the left and to the right undo each other. It paints if the cursor is seen, and that without a fault
    exactly if the window can then be shown. -/
theorem move_steps (hb : Reached (fun b op => op.KeepsRange b) b) (hx : b.place id = some x) (dir : CmoveDir) :
    ∃ b' y, bcursorMove b id dir = .ok (b', .update) ∧
      (b'.paintFault = none ↔ b.paintFault = none ∧ (b.u = .ui → b.SeesMove id dir → b'.Showable)) ∧
      b'.content = b.content ∧ b'.texts = b.texts ∧
      (∀ i, i ≠ id → b'.place i = b.place i) ∧ b'.place id = some y ∧ y.row < b.texts.length ∧ SteppedTo b x y dir ∧
      (dir = .left → offset b.texts x.row x.pos ≠ 0 →
        ∃ b'', bcursorMove b' id .right = .ok (b'', .update) ∧ b''.place id = some x) ∧
      (dir = .right → offset b.texts x.row x.pos ≠ b.text.length →
        ∃ b'', bcursorMove b' id .left = .ok (b'', .update) ∧ b''.place id = some x) := by
  obtain ⟨d, hsound, hd⟩ := hb.inRange
  have h := hsound.holds
  rw [h.place] at hx
  obtain ⟨b', hrun, h'⟩ := h.move_returns (by rw [hx]; exact Option.some_ne_none x) dir
  have hcurs : ∀ i, (d.move id dir).curs i = (d.curs i).map fun y => if i = id then d.step y dir else y := fun i => rfl
  have hself : (d.move id dir).curs id = some (d.step x dir) := by rw [hcurs, hx, Option.map_some, if_pos rfl]
  refine ⟨b', d.step x dir, hrun, ?_, ?_, ?_, fun i hi => ?_, by rw [h'.place, hself], ?_, h.steppedTo hd hx dir, ?_, ?_⟩
  · obtain ⟨p, hrep, -, -⟩ := h'
    exact Rep.move_paintFault hrun hrep
  · rw [h.content, h'.content]
    rfl
  · rw [h.texts, h'.texts]
    rfl
  · rw [h.place, h'.place, hcurs]
    simp only [hi, if_false]
    exact Option.map_id'
  · rw [h.texts, Doc.texts_length (Nat.lt_of_succ_lt h.wf.last_lt)]
    exact Nat.lt_succ_of_le (Doc.step_row_le (h.wf.curs_le id x hx) dir)
  · rintro rfl hstart
    rw [h.texts] at hstart
    obtain ⟨b'', hrun', h''⟩ := h'.move_returns (by rw [hself]; exact Option.some_ne_none _) .right
    refine ⟨b'', hrun', ?_⟩
    rw [h''.place, Doc.move, Doc.mapCurs_curs, hself, Option.map_some, if_pos rfl]
    exact congrArg some (hd.left_right h.wf hx hstart)
  · rintro rfl hend
    rw [h.texts, h.text] at hend
    obtain ⟨b'', hrun', h''⟩ := h'.move_returns (by rw [hself]; exact Option.some_ne_none _) .left
    refine ⟨b'', hrun', ?_⟩
    rw [h''.place, Doc.move, Doc.mapCurs_curs, hself, Option.map_some, if_pos rfl]
    exact congrArg some (hd.right_left h.wf hx hend)

theorem move_steps_ab : ∃ b : Buffer ListRope, Reached (fun b op => op.KeepsRange b) b ∧ b.text = "a\nb".toList ∧
    b.place 0 = some ⟨0, 0⟩ ∧ ∃ b' y, bcursorMove b 0 .right = .ok (b', .update) ∧
      (b'.paintFault = none ↔ b.paintFault = none ∧ (b.u = .ui → b.SeesMove 0 .right → b'.Showable)) ∧
      b'.content = b.content ∧
      b'.texts = b.texts ∧ (∀ i, i ≠ 0 → b'.place i = b.place i) ∧ b'.place 0 = some y ∧ y.row < b.texts.length ∧
      SteppedTo b ⟨0, 0⟩ y .right ∧
      (CmoveDir.right = .left → offset b.texts 0 0 ≠ 0 →
        ∃ b'', bcursorMove b' 0 .right = .ok (b'', .update) ∧ b''.place 0 = some ⟨0, 0⟩) ∧
      (CmoveDir.right = .right → offset b.texts 0 0 ≠ b.text.length →
        ∃ b'', bcursorMove b' 0 .left = .ok (b'', .update) ∧ b''.place 0 = some ⟨0, 0⟩) := by
  have htest : returns (bufferFromFile (R := ListRope) (bytes "a\nb") 1 3 6 true)
      (fun b => decide (b.text = "a\nb".toList ∧ b.place 0 = some ⟨0, 0⟩)) = true := by decide +kernel
  obtain ⟨b, hb, hP⟩ := exists_of_returns htest
  obtain ⟨htext, hplace⟩ := of_decide_eq_true hP
  have hreach : Reached (fun b op => op.KeepsRange b) b := .load (by decide) hb
  exact ⟨b, hreach, htext, hplace, move_steps hreach hplace .right⟩

end CoEditor
