-- SUMMARY: What a line insertion and a join do to rows, marks and cursors of a page.
import CoEditor.Page.Loops
import CoEditor.Page.Splice

/-!
# Edits of a page

One lemma for each part of an edit: what it leaves alone, where it takes the
cursors and what it does to the size of the window.
-/

namespace CoEditor

variable {R : Type}

/-- A row put in below its own row leaves a cursor where it is. -/
theorem PageCursor.mapRow_bump_self (c : PageCursor) : c.mapRow (bump (c.row + 1)) = c := by
  rw [PageCursor.mapRow, bump, if_neg (by omega)]

namespace Page

/-! ## Characters -/

/-- Where `cur`, kept at `c`, and the cursors after it go when it moves by `n` columns. -/
def shiftCursor (c : CursRef) (cur : PageCursor) (n : Int) (ref : CursRef) (o : PageCursor) : PageCursor :=
  if ref = c then { cur with pos := cur.pos + n } else nudge c { cur with pos := cur.pos + n } n ref o

theorem nudge_id (c : CursRef) (cur : PageCursor) (n : Int) (ref : CursRef) (o : PageCursor) :
    (nudge c cur n ref o).id = o.id := by
  unfold nudge
  split <;> rfl

theorem nudgeOthers_curs (p : Page R) (c : CursRef) (cur : PageCursor) (n : Int) (ref : CursRef) :
    (p.nudgeOthers c cur n).curs ref = nudge c cur n ref <$> p.curs ref := by
  cases ref with
  | own => rfl
  | peer i =>
      simp only [nudgeOthers, curs, List.getElem?_mapIdx]
      cases p.peers[i]? with
      | none => rfl
      | some o => cases o <;> rfl

/-- A cursor and those after it move along the row. -/
theorem shift_spec {p : Page R} {c : CursRef} {cur : PageCursor} (hcur : p.curs c = .ok cur) (n : Int) :
    Kept p ((p.setCurs { cur with pos := cur.pos + n } c).nudgeOthers c { cur with pos := cur.pos + n } n) ∧
      ∀ ref o, p.curs ref = .ok o →
        ((p.setCurs { cur with pos := cur.pos + n } c).nudgeOthers c { cur with pos := cur.pos + n } n).curs ref =
          .ok (shiftCursor c cur n ref o) := by
  have hset := setCurs_moved hcur (show ({ cur with pos := cur.pos + n } : PageCursor).id = cur.id from rfl)
  refine ⟨{ hset with slots := ?_, ids := ?_ }, ?_⟩
  · simpa [nudgeOthers] using hset.slots
  · intro ref
    rw [nudgeOthers_curs, ← hset.ids ref]
    cases (p.setCurs { cur with pos := cur.pos + n } c).curs ref with
    | error e => rfl
    | ok o => exact congrArg Except.ok (nudge_id ..)
  · intro ref o ho
    rw [nudgeOthers_curs, shiftCursor]
    split
    · next href =>
        subst href
        rw [curs_setCurs_self hcur]
        simp [nudge, after]
    · next href =>
        rw [curs_setCurs_ne href, ho]
        rfl

/-! ## Trimming and extending -/

theorem kept_window (p : Page R) (top bottom : Nat) : Kept p { p with top, bottom } :=
  { Kept.refl p with ids := fun ref => by cases ref <;> rfl }

theorem curs_window (p : Page R) (top bottom : Nat) (ref : CursRef) :
    ({ p with top, bottom } : Page R).curs ref = p.curs ref := curs_congr rfl rfl ref

theorem scrollFromOwn_moved (p : Page R) : Moved p p.scrollFromOwn := by
  unfold scrollFromOwn
  grind [scroll_moved, Moved.trans, Moved.refl]

theorem scrollFromOwn_curs (p : Page R) (ref : CursRef) : p.scrollFromOwn.curs ref = p.curs ref := by
  unfold scrollFromOwn
  grind [scroll_curs]

theorem scrollFromOwn_rows (p : Page R) : p.scrollFromOwn.rows = p.rows := by
  unfold scrollFromOwn
  grind [scroll_rows]

/-- Trimming scrolls a window that is one line shorter. -/
theorem trim_eq (p : Page R) {k : Nat} (hv : p.visible k = true) :
    ∃ top bottom, p.trim k = ({ p with top, bottom } : Page R).scrollFromOwn ∧
      (top = p.top ∧ bottom = p.bottom - 1 ∨ top = p.top + 1 ∧ bottom = p.bottom) := by
  rw [trim, if_pos hv]
  split
  · split
    · exact ⟨p.top, p.bottom - 1, rfl, .inl ⟨rfl, rfl⟩⟩
    · exact ⟨p.top + 1, p.bottom, rfl, .inr ⟨rfl, rfl⟩⟩
  · split
    · exact ⟨p.top + 1, p.bottom, rfl, .inr ⟨rfl, rfl⟩⟩
    · exact ⟨p.top, p.bottom - 1, rfl, .inl ⟨rfl, rfl⟩⟩

theorem trim_of_not_visible (p : Page R) {k : Nat} (hv : p.visible k = false) : p.trim k = p := by
  simp [trim, hv]

theorem trim_kept (p : Page R) (k : Nat) : Kept p (p.trim k) := by
  cases hv : p.visible k with
  | true =>
      obtain ⟨top, bottom, heq, -⟩ := p.trim_eq hv
      rw [heq]
      exact (p.kept_window top bottom).trans (scrollFromOwn_moved _).toKept
  | false =>
      rw [p.trim_of_not_visible hv]
      exact .refl p

theorem trim_curs (p : Page R) (k : Nat) (ref : CursRef) : (p.trim k).curs ref = p.curs ref := by
  cases hv : p.visible k with
  | true =>
      obtain ⟨top, bottom, heq, -⟩ := p.trim_eq hv
      rw [heq, scrollFromOwn_curs, curs_window]
  | false => rw [p.trim_of_not_visible hv]

theorem trim_rows (p : Page R) (k : Nat) : (p.trim k).rows = p.rows := by
  cases hv : p.visible k with
  | true =>
      obtain ⟨top, bottom, heq, -⟩ := p.trim_eq hv
      rw [heq, scrollFromOwn_rows]
  | false => rw [p.trim_of_not_visible hv]

/-- A visible row makes the window one line shorter. -/
theorem trim_window (p : Page R) {k : Nat} (hv : p.visible k = true) (hw : p.top < p.bottom) :
    p.top + (p.trim k).bottom + 1 = (p.trim k).top + p.bottom := by
  obtain ⟨top, bottom, heq, hor⟩ := p.trim_eq hv
  have hmove := (scrollFromOwn_moved ({ p with top, bottom } : Page R)).window
  rw [heq]
  simp only at hmove
  omega

/-- Extending scrolls a window that is one line longer, or as long at the end of the chain. -/
theorem extend_eq {p q : Page R} {k : Nat} (h : p.extend k = .ok q) :
    ∃ top bottom, q = ({ p with top, bottom } : Page R).scrollFromOwn ∧
      (p.bottom + 1 < p.rows.length ∧ (p.notAbove k ∨ p.top = 0) ∧ top = p.top ∧ bottom = p.bottom + 1 ∨
        0 < p.top ∧ p.notAbove k = false ∧ top = p.top - 1 ∧ bottom = p.bottom ∨
        ¬ p.bottom + 1 < p.rows.length ∧ p.notAbove k ∧ top = p.top ∧ bottom = p.bottom) := by
  obtain ⟨x, hx, hq⟩ := Except.bind_eq_ok.mp h
  obtain rfl : x.scrollFromOwn = q := Except.ok.inj hq
  split at hx
  · next habove =>
      split at hx
      · next hlt =>
          cases hx
          exact ⟨p.top, p.bottom + 1, rfl, .inl ⟨hlt, .inl habove, rfl, rfl⟩⟩
      · next hlt =>
          cases hx
          exact ⟨p.top, p.bottom, rfl, .inr (.inr ⟨hlt, habove, rfl, rfl⟩)⟩
  · next habove =>
      split at hx
      · next htop =>
          cases hx
          exact ⟨p.top - 1, p.bottom, rfl, .inr (.inl ⟨by omega, by simpa using habove, rfl, rfl⟩)⟩
      · next htop =>
          unfold lowerBottom at hx
          split at hx
          · next hlt =>
              cases hx
              exact ⟨p.top, p.bottom + 1, rfl, .inl ⟨hlt, .inr (by omega), rfl, rfl⟩⟩
          · cases hx

theorem extend_kept {p q : Page R} {k : Nat} (h : p.extend k = .ok q) : Kept p q := by
  obtain ⟨top, bottom, rfl, -⟩ := extend_eq h
  exact (p.kept_window top bottom).trans (scrollFromOwn_moved _).toKept

theorem extend_curs {p q : Page R} {k : Nat} (h : p.extend k = .ok q) (ref : CursRef) :
    q.curs ref = p.curs ref := by
  obtain ⟨top, bottom, rfl, -⟩ := extend_eq h
  rw [scrollFromOwn_curs, curs_window]

theorem extend_rows {p q : Page R} {k : Nat} (h : p.extend k = .ok q) : q.rows = p.rows := by
  obtain ⟨top, bottom, rfl, -⟩ := extend_eq h
  rw [scrollFromOwn_rows]

/-! ## Inserting a row -/

theorem scrollIfOwn_moved (p : Page R) (c : CursRef) : Moved p (p.scrollIfOwn c) := by
  unfold scrollIfOwn
  split
  · exact scroll_moved _ _
  · exact .refl _

theorem scrollIfOwn_curs (p : Page R) (c ref : CursRef) : (p.scrollIfOwn c).curs ref = p.curs ref := by
  unfold scrollIfOwn
  split
  · exact scroll_curs _ _ _
  · rfl

variable [Rope R]

/-- A row put in and trimmed away again leaves the window as long as it was. -/
theorem newRow_trim_window (p : Page R) (k : Nat) (ptr : Ptr) (hw : p.top ≤ p.bottom) :
    p.top + ((p.newRow k ptr).trim k).bottom = ((p.newRow k ptr).trim k).top + p.bottom := by
  have htop : (p.newRow k ptr).top = bump k p.top := rfl
  have hbottom : (p.newRow k ptr).bottom = bump k p.bottom := rfl
  have hvis := p.newRow_visible k k ptr
  cases hv : (p.newRow k ptr).visible k with
  | true =>
      have hrow := hvis.mp hv
      have htrim := (p.newRow k ptr).trim_window hv (by grind [bump])
      grind [bump]
  | false =>
      rw [trim_of_not_visible _ hv, htop, hbottom]
      rw [hv] at hvis
      grind [bump]

theorem newRow_distinct {p : Page R} (hD : p.Distinct) (k : Nat) (ptr : Ptr) :
    (p.newRow k ptr).Distinct := by
  intro ref ref' x x' hx hx' hid
  rw [newRow_curs] at hx hx'
  obtain ⟨y, hy, rfl⟩ := Except.map_eq_ok.mp hx
  obtain ⟨y', hy', rfl⟩ := Except.map_eq_ok.mp hx'
  exact hD ref ref' y y' hy hy' hid

/-- Where `homeUp` takes cursor `o`. -/
def homeCursor (p : Page R) (ref : CursRef) (o : PageCursor) : PageCursor :=
  if ref = .own ∧ p.serverMode ∧ o.row ≠ 0 then (p.cursorMove o .up).1 else o

theorem homeUp_ptrs {p q : Page R} (h : p.homeUp = .ok q) : q.ptrs = p.ptrs := by
  unfold homeUp runIf at h
  split at h
  · exact bcursorMove_ptrs h
  · rw [Except.ok.inj h]

theorem homeUp_spec {p : Page R} (hD : p.Distinct) :
    ∃ q, p.homeUp = .ok q ∧ Moved p q ∧
      ∀ ref o, p.curs ref = .ok o → q.curs ref = .ok (p.homeCursor ref o) := by
  have hself : p.curs .own = .ok p.own := rfl
  unfold homeUp homeCursor
  by_cases hhome : p.serverMode ∧ p.own.row ≠ 0
  · obtain ⟨hmoved, hto, hrest⟩ := moveCurs_spec hself .up
    refine ⟨_, by rw [runIf_pos hhome, bcursorMove_of_curs hD hself], hmoved, ?_⟩
    intro ref o ho
    by_cases href : ref = .own
    · subst href
      obtain rfl : p.own = o := Except.ok.inj ho
      rw [hto, if_pos ⟨rfl, hhome⟩]
    · rw [hrest ref href, ho, if_neg fun h => href h.1]
  · refine ⟨p, runIf_neg hhome _ _, .refl p, ?_⟩
    intro ref o ho
    rw [ho, if_neg]
    rintro ⟨rfl, hs⟩
    obtain rfl : p.own = o := Except.ok.inj ho
    exact hhome hs

theorem Kept.homeCursor {p q : Page R} (h : Kept p q) : q.homeCursor = p.homeCursor := by
  funext ref o
  rw [Page.homeCursor, Page.homeCursor, h.serverMode, h.cursorMove]

theorem insertAbove_spec {p : Page R} (hD : p.Distinct) (c : CursRef) (row : Nat) (ptr : Ptr)
    (hw : p.top ≤ p.bottom) :
    ∃ q, p.insertAbove c row ptr = .ok q ∧ Kept (p.newRow row ptr) q ∧
      (∀ ref o, (p.newRow row ptr).curs ref = .ok o →
        q.curs ref = .ok ((p.newRow row ptr).homeCursor ref o)) ∧
      p.top + q.bottom = q.top + p.bottom := by
  have hwindow := p.newRow_trim_window row ptr hw
  have hmoved := scrollIfOwn_moved ((p.newRow row ptr).trim row) c
  have hkept := (trim_kept (p.newRow row ptr) row).trans hmoved.toKept
  obtain ⟨q, hrun, hmoved', hcurs⟩ := homeUp_spec (hkept.distinct (newRow_distinct hD row ptr))
  refine ⟨q, hrun, hkept.trans hmoved'.toKept, ?_, ?_⟩
  · intro ref o ho
    rw [← hkept.homeCursor]
    exact hcurs ref o (by rw [scrollIfOwn_curs, trim_curs, ho])
  · have := hmoved.window
    have := hmoved'.window
    omega

theorem newBelow_rows (p : Page R) (row : Nat) (ptr : Ptr) :
    (p.newBelow row ptr).rows = (p.newRow (row + 1) ptr).rows := by
  unfold newBelow
  split <;> rfl

theorem newBelow_curs (p : Page R) (row : Nat) (ptr : Ptr) (ref : CursRef) :
    (p.newBelow row ptr).curs ref = PageCursor.mapRow (bump (row + 1)) <$> p.curs ref := by
  rw [← newRow_curs p (row + 1) ptr]
  unfold newBelow
  split
  · cases ref <;> rfl
  · rfl

theorem newBelow_slots (p : Page R) (row : Nat) (ptr : Ptr) :
    (p.newBelow row ptr).peers.length = p.peers.length := by
  unfold newBelow
  split <;> simp [newRow, insertRow, mapMarks]

theorem newBelow_length (p : Page R) {row : Nat} (ptr : Ptr) (hrow : row < p.rows.length) :
    (p.newBelow row ptr).rows.length = p.rows.length + 1 := by
  rw [newBelow_rows, newRow_length _ _ hrow]

theorem newBelow_last (p : Page R) {row : Nat} (ptr : Ptr) (hrow : row ≤ p.last) :
    (p.newBelow row ptr).last = p.last + 1 := by
  unfold newBelow
  split
  · next h => simp [h]
  · next h =>
      show bump (row + 1) p.last = _
      grind [bump]

theorem newBelow_distinct {p : Page R} (hD : p.Distinct) (row : Nat) (ptr : Ptr) :
    (p.newBelow row ptr).Distinct := by
  unfold newBelow
  split
  · intro ref ref' x x' hx hx' hid
    refine newRow_distinct hD (row + 1) ptr ref ref' x x' ?_ ?_ hid
    · exact (curs_congr rfl rfl ref).symm.trans hx
    · exact (curs_congr rfl rfl ref').symm.trans hx'
  · exact newRow_distinct hD _ _

theorem splitText_curs (p : Page R) (k : Nat) (pos : Int) (ref : CursRef) :
    (p.splitText k pos).curs ref = p.curs ref := curs_congr rfl rfl ref

theorem splitLine_spec {p : Page R} (hD : p.Distinct) (hslots : p.peers.length = maxCursorNum)
    {c : CursRef} {cur : PageCursor} (hcur : p.curs c = .ok cur) :
    ∃ q, p.splitLine c = .ok q ∧ Moved (p.splitText cur.row cur.pos) q ∧
      (∀ ref o, p.curs ref = .ok o →
        q.curs ref = .ok ((p.splitText cur.row cur.pos).splitCursor c cur ref o)) ∧
      ∃ q₁, (p.splitText cur.row cur.pos).splitOther c .own p.own = .ok q₁ ∧ SameView q₁ q := by
  have hcurs := p.splitText_curs cur.row cur.pos
  have hvisits := splitOther_visits (distinct_congr hcurs hD) ((hcurs c).trans hcur)
  obtain ⟨q, hrun, hmoved, hall, hview⟩ := hvisits.forCurs hslots
  refine ⟨q, ?_, hmoved, fun ref o ho => hall ref o ((hcurs ref).trans ho), hview⟩
  rw [splitLine, hcur]
  exact hrun

/-- Moving down, the own cursor scrolls no window of two lines that it does not come to. -/
theorem moveCurs_own_window (p : Page R) (hsize : p.bottom = p.top + 1)
    (hout : p.own.row + 1 < p.top ∨ p.bottom ≤ p.own.row) :
    (p.moveCurs .own p.own .down).top = p.top ∧ (p.moveCurs .own p.own .down).bottom = p.bottom := by
  simp only [moveCurs, scrollBefore, scrollAfter, scroll, noteUp, noteDown, modifyRow, setCurs,
    cursorMove, if_true]
  grind

theorem splitOther_own_window {p q : Page R} (hD : p.Distinct) {c : CursRef} {cur : PageCursor}
    (hcur : p.curs c = .ok cur) (h : p.splitOther c .own p.own = .ok q)
    (hsize : p.bottom = p.top + 1) (hout : cur.row + 1 < p.top ∨ p.bottom ≤ cur.row) :
    q.top = p.top ∧ q.bottom = p.bottom := by
  simp only [splitOther, hcur, Except.ok_bind_eq] at h
  split at h
  · next hafter =>
      have hrow : cur.row = p.own.row := by
        simp only [after, decide_eq_true_eq] at hafter
        exact hafter.2.1
      have hset : p.curs .own = .ok p.own := rfl
      have hD' := (setCurs_moved hset (d := { p.own with pos := p.own.pos - cur.pos }) rfl).distinct hD
      rw [bcursorMove_of_curs hD' (curs_setCurs_self hset _)] at h
      obtain rfl := Except.ok.inj h
      exact moveCurs_own_window (p.setCurs { p.own with pos := p.own.pos - cur.pos } .own) hsize
        (hrow ▸ hout)
  · obtain rfl := Except.ok.inj h
    exact ⟨rfl, rfl⟩

/-- The rows after the insertion of a line below row `row`. -/
def rowsBelow (p : Page R) (row : Nat) (pos : Int) (ptr : Ptr) : Page R :=
  if sizeT pos ≠ p.len row then (p.newBelow row ptr).splitText row pos else p.newBelow row ptr

/-- The window of the new page is the old one with the new row put in. -/
theorem rowsBelow_window (p : Page R) (row : Nat) (pos : Int) (ptr : Ptr) :
    (p.rowsBelow row pos ptr).top = bump (row + 1) p.top ∧
      (p.rowsBelow row pos ptr).bottom = bump (row + 1) p.bottom := by
  unfold rowsBelow newBelow
  split <;> split <;> exact ⟨rfl, rfl⟩

theorem rowsBelow_curs (p : Page R) (row : Nat) (pos : Int) (ptr : Ptr) (ref : CursRef) :
    (p.rowsBelow row pos ptr).curs ref = PageCursor.mapRow (bump (row + 1)) <$> p.curs ref := by
  unfold rowsBelow
  split
  · rw [splitText_curs, newBelow_curs]
  · exact newBelow_curs ..

theorem rowsBelow_slots (p : Page R) (row : Nat) (pos : Int) (ptr : Ptr) :
    (p.rowsBelow row pos ptr).peers.length = p.peers.length := by
  rw [← newBelow_slots p row ptr]
  unfold rowsBelow
  split <;> rfl

theorem rowsBelow_ptrs (p : Page R) (row : Nat) (pos : Int) (ptr : Ptr) :
    (p.rowsBelow row pos ptr).ptrs = (p.newBelow row ptr).ptrs := by
  unfold rowsBelow
  split
  · rw [splitText, modifyRow_ptrs, modifyRow_ptrs] <;> exact fun _ => rfl
  · rfl

theorem rowsBelow_distinct {p : Page R} (hD : p.Distinct) (row : Nat) (pos : Int) (ptr : Ptr) :
    (p.rowsBelow row pos ptr).Distinct := by
  unfold rowsBelow
  split
  · exact distinct_congr (splitText_curs _ _ _) (newBelow_distinct hD row ptr)
  · exact newBelow_distinct hD row ptr

/-- Where the insertion of a line below cursor `cur`, kept at `c`, takes cursor `o`. -/
def belowCursor (p : Page R) (c : CursRef) (cur : PageCursor) (ptr : Ptr) (ref : CursRef)
    (o : PageCursor) : PageCursor :=
  if sizeT cur.pos ≠ p.len cur.row then
    (p.rowsBelow cur.row cur.pos ptr).splitCursor c cur ref o
  else o

theorem belowCursor_row_le (p : Page R) (c : CursRef) (cur : PageCursor) (ptr : Ptr) (ref : CursRef)
    (o : PageCursor) : (p.belowCursor c cur ptr ref o).row ≤ max o.row (cur.row + 1) := by
  unfold belowCursor splitCursor
  split
  · split
    · next hafter =>
        have hrow : cur.row = o.row := by
          simp only [after, decide_eq_true_eq] at hafter
          exact hafter.2.1
        simp only [cursorMove]
        split <;> simp only <;> omega
    · exact Nat.le_max_left ..
  · exact Nat.le_max_left ..

/-- The state of `bcursor_insert_line` just before `c->pos = 0`. -/
theorem splitIf_spec {p : Page R} (hD : p.Distinct) (hslots : p.peers.length = maxCursorNum)
    {c : CursRef} {cur : PageCursor} (hcur : p.curs c = .ok cur) (ptr : Ptr) (hw : p.top < p.bottom) :
    ∃ x, runIf (sizeT cur.pos ≠ p.len cur.row) (splitLine · c) (p.newBelow cur.row ptr) = .ok x ∧
      Moved (p.rowsBelow cur.row cur.pos ptr) x ∧ x.curs c = .ok cur ∧
      (∀ ref o, (p.newBelow cur.row ptr).curs ref = .ok o →
        x.curs ref = .ok (p.belowCursor c cur ptr ref o)) ∧
      (x.visible (cur.row + 1) = true → x.top + 1 < x.bottom) := by
  have hcur' : (p.newBelow cur.row ptr).curs c = .ok cur := by
    rw [newBelow_curs, hcur]
    exact congrArg Except.ok cur.mapRow_bump_self
  have hslots' := (p.newBelow_slots cur.row ptr).trans hslots
  obtain ⟨htop, hbottom⟩ := p.rowsBelow_window cur.row cur.pos ptr
  by_cases hsplit : sizeT cur.pos ≠ p.len cur.row
  · have hbase : p.rowsBelow cur.row cur.pos ptr = (p.newBelow cur.row ptr).splitText cur.row cur.pos :=
      if_pos hsplit
    obtain ⟨x, hrun, hmoved, hall, x₁, hown, hview⟩ :=
      splitLine_spec (newBelow_distinct hD cur.row ptr) hslots' hcur'
    rw [← hbase] at hmoved hall hown
    have hbelow : ∀ ref o, (p.newBelow cur.row ptr).curs ref = .ok o →
        x.curs ref = .ok (p.belowCursor c cur ptr ref o) := fun ref o ho => by
      rw [belowCursor, if_pos hsplit]
      exact hall ref o ho
    refine ⟨x, by rw [runIf_pos hsplit, hrun], hmoved, ?_, hbelow, ?_⟩
    · rw [hall c cur hcur']
      simp [splitCursor, after]
    · intro hv
      rw [visible_iff] at hv
      have hmove := hmoved.window
      by_cases hsmall : p.bottom = p.top + 1 ∧ (cur.row + 1 ≤ p.top ∨ p.bottom ≤ cur.row)
      · -- the row was put in outside a window of two lines, which then stays where it is
        have hcurx : (p.rowsBelow cur.row cur.pos ptr).curs c = .ok cur := by
          rw [hbase, splitText_curs, hcur']
        have hDx := rowsBelow_distinct hD cur.row cur.pos ptr
        have howneq : (p.rowsBelow cur.row cur.pos ptr).own = (p.newBelow cur.row ptr).own := by
          rw [hbase]
          rfl
        rw [← howneq] at hown
        have hsame := splitOther_own_window hDx hcurx hown (by grind [bump]) (by grind [bump])
        have := hview.top
        have := hview.bottom
        grind [bump]
      · grind [bump]
  · have hbase : p.rowsBelow cur.row cur.pos ptr = p.newBelow cur.row ptr := if_neg hsplit
    have hbelow : ∀ ref o, (p.newBelow cur.row ptr).curs ref = .ok o →
        (p.newBelow cur.row ptr).curs ref = .ok (p.belowCursor c cur ptr ref o) := fun ref o ho => by
      rw [belowCursor, if_neg hsplit]
      exact ho
    refine ⟨_, runIf_neg hsplit _ _, by rw [hbase]; exact .refl _, hcur', hbelow, ?_⟩
    intro hv
    rw [visible_iff, ← hbase] at hv
    rw [← hbase]
    grind [bump]

theorem rowsBelow_length (p : Page R) {row : Nat} (pos : Int) (ptr : Ptr)
    (hrow : row < p.rows.length) : (p.rowsBelow row pos ptr).rows.length = p.rows.length + 1 := by
  rw [← newBelow_length p ptr hrow]
  unfold rowsBelow
  split
  · simp [splitText, modifyRow]
  · rfl

theorem rowsBelow_last (p : Page R) {row : Nat} (pos : Int) (ptr : Ptr) (hrow : row ≤ p.last) :
    (p.rowsBelow row pos ptr).last = p.last + 1 := by
  rw [← newBelow_last p ptr hrow]
  unfold rowsBelow
  split <;> rfl

theorem insertBelow_spec {p : Page R} (hD : p.Distinct) (hslots : p.peers.length = maxCursorNum)
    {c : CursRef} {cur : PageCursor} (hcur : p.curs c = .ok cur) (ptr : Ptr) (hw : p.top < p.bottom)
    (hrow : cur.row ≤ p.last) (hlast : p.last < p.rows.length) :
    ∃ q, p.insertBelow cur.id c cur.row cur.pos ptr = .ok q ∧
      Kept (p.rowsBelow cur.row cur.pos ptr) q ∧
      q.curs c = .ok ⟨cur.id, cur.row + 1, 0⟩ ∧
      (∀ ref ≠ c, ∀ o, (p.newBelow cur.row ptr).curs ref = .ok o →
        q.curs ref = .ok (p.belowCursor c cur ptr ref o)) ∧
      q.top < q.bottom := by
  obtain ⟨x, hrun, hmoved, hself, hall, hvis⟩ := splitIf_spec hD hslots hcur ptr hw
  have hset := setCurs_moved hself (show ({ cur with pos := 0 } : PageCursor).id = cur.id from rfl)
  have hset' := curs_setCurs_self hself { cur with pos := 0 }
  have htrim := trim_kept (x.setCurs { cur with pos := 0 } c) (cur.row + 1)
  have hkept := (hmoved.toKept.trans hset.toKept).trans htrim
  have hDz := hkept.distinct (rowsBelow_distinct hD cur.row cur.pos ptr)
  have hz := (trim_curs (x.setCurs { cur with pos := 0 } c) (cur.row + 1) c).trans hset'
  obtain ⟨hmove, hto, hrest⟩ := moveCurs_spec hz .down
  refine ⟨_, ?_, hkept.trans hmove.toKept, ?_, ?_, ?_⟩
  · simp only [insertBelow, hrun, hself, Except.ok_bind_eq]
    exact bcursorMove_of_curs hDz hz .down
  · have hlen := p.rowsBelow_length cur.pos ptr (Nat.lt_of_le_of_lt hrow hlast)
    have hlast' := p.rowsBelow_last cur.pos ptr hrow
    rw [hto, hkept.cursorMove, cursorMove, if_pos ⟨by rw [hlen]; simp only; omega, by rw [hlast']; simp only; omega⟩]
    simp [cut]
  · intro ref hne o ho
    rw [hrest ref hne, trim_curs, curs_setCurs_ne hne, hall ref o ho]
  · have hwz : ((x.setCurs { cur with pos := 0 } c).trim (cur.row + 1)).top <
        ((x.setCurs { cur with pos := 0 } c).trim (cur.row + 1)).bottom := by
      have hy := hset.window
      have hx := hmoved.window
      have hbase := p.rowsBelow_window cur.row cur.pos ptr
      have hbump := bump_lt_bump (k := cur.row + 1) hw
      cases hv : (x.setCurs { cur with pos := 0 } c).visible (cur.row + 1) with
      | true =>
          have hwin := trim_window _ hv (by omega)
          have : x.visible (cur.row + 1) = true := by
            rw [← hv]
            cases c <;> rfl
          have := hvis this
          omega
      | false =>
          rw [trim_of_not_visible _ hv]
          omega
    have := hmove.window
    omega

/-! ## Joining two rows -/

theorem strAt_of_row {p : Page R} {i : Nat} {r : Row R} (hr : p.rows[i]? = some r) :
    p.strAt i = r.str := by simp [strAt, hr]

theorem joinRows_curs (p : Page R) (k : Nat) (ref : CursRef) : (p.joinRows k).curs ref = p.curs ref := by
  simp only [joinRows, joinText, raiseLast]
  split <;> split <;> exact curs_congr rfl rfl ref

theorem joinRows_window (p : Page R) (k : Nat) :
    (p.joinRows k).top = p.top ∧ (p.joinRows k).bottom = p.bottom := by
  simp only [joinRows, joinText, raiseLast]
  split <;> split <;> exact ⟨rfl, rfl⟩

theorem joinRows_peers (p : Page R) (k : Nat) : (p.joinRows k).peers = p.peers := by
  simp only [joinRows, joinText, raiseLast]
  split <;> split <;> rfl

theorem joinRows_length (p : Page R) (k : Nat) : (p.joinRows k).rows.length = p.rows.length := by
  simp only [joinRows, joinText, raiseLast]
  split <;> split <;> simp [modifyRow]

theorem joinRows_last (p : Page R) (k : Nat) :
    (p.joinRows k).last = if k + 1 = p.last then k else p.last := by
  simp only [joinRows, joinText, raiseLast]
  split <;> split <;> simp_all [modifyRow]

theorem joinLines_overflow {p : Page R} {c : CursRef} {cur : PageCursor} (hcur : p.curs c = .ok cur)
    (hfit : ¬ (Rope.writeCstr (p.strAt (cur.row + 1))).length + 1 ≤ spSize) :
    p.joinLines c = .error .overflow := by
  simp only [joinLines, hcur, Except.ok_bind_eq, Buffer.writeSp, hfit, if_false]
  rfl

theorem joinLines_spec {p : Page R} (hD : p.Distinct) (hslots : p.peers.length = maxCursorNum)
    {c : CursRef} {cur : PageCursor} (hcur : p.curs c = .ok cur)
    (hfit : (Rope.writeCstr (p.strAt (cur.row + 1))).length + 1 ≤ spSize) :
    ∃ q, p.joinLines c = .ok q ∧ Moved (p.joinRows cur.row) q ∧
      (∀ ref o, p.curs ref = .ok o → q.curs ref = .ok ((p.joinRows cur.row).joinCursor c cur ref o)) ∧
      ∃ q₁, (p.joinRows cur.row).joinOther c .own (p.joinRows cur.row).own = .ok q₁ ∧ SameView q₁ q := by
  have hcurs := p.joinRows_curs cur.row
  have hvisits := joinOther_visits (distinct_congr hcurs hD) ((hcurs c).trans hcur)
  obtain ⟨q, hrun, hmoved, hall, hview⟩ := hvisits.forCurs (by rw [joinRows_peers, hslots])
  refine ⟨q, ?_, hmoved, fun ref o ho => hall ref o ((hcurs ref).trans ho), hview⟩
  simp only [joinLines, hcur, Except.ok_bind_eq, Buffer.writeSp, hfit, if_true]
  exact hrun

/-- After a join no cursor is left on the row that goes. -/
theorem joinCursor_row (p : Page R) (c : CursRef) {cur : PageCursor} {ref : CursRef} {o : PageCursor}
    (hself : ref = c → o = cur) : (p.joinCursor c cur ref o).row ≠ cur.row + 1 := by
  unfold joinCursor
  split
  · next h => simp [cursorMove, ← h.2]
  · next h =>
      intro hrow
      by_cases href : ref = c
      · rw [hself href] at hrow
        omega
      · exact h ⟨fun e => href e.symm, hrow.symm⟩

/-- What is known after a join that returns. -/
theorem joinLines_ok {p q : Page R} (hD : p.Distinct) (hslots : p.peers.length = maxCursorNum)
    {c : CursRef} {cur : PageCursor} (hcur : p.curs c = .ok cur) (h : p.joinLines c = .ok q) :
    Moved (p.joinRows cur.row) q ∧ q.curs c = .ok cur ∧
      (∀ ref o, p.curs ref = .ok o → q.curs ref = .ok ((p.joinRows cur.row).joinCursor c cur ref o)) ∧
      ∀ ref o, q.curs ref = .ok o → o.row ≠ cur.row + 1 := by
  by_cases hfit : (Rope.writeCstr (p.strAt (cur.row + 1))).length + 1 ≤ spSize
  · obtain ⟨q', hrun, hmoved, hall, -⟩ := joinLines_spec hD hslots hcur hfit
    obtain rfl : q' = q := Except.ok.inj (hrun.symm.trans h)
    refine ⟨hmoved, by simpa [joinCursor] using hall c cur hcur, hall, ?_⟩
    intro ref o ho
    obtain ⟨d, hd, -⟩ := hmoved.curs_back ho
    rw [joinRows_curs] at hd
    rw [hall ref d hd] at ho
    rw [← Except.ok.inj ho]
    refine joinCursor_row _ c fun href => ?_
    subst href
    exact Except.ok.inj (hd.symm.trans hcur)
  · rw [joinLines_overflow hcur hfit] at h
    cases h

/-- The cursor that deletes at the start of its row goes to the end of the row above. -/
theorem bcursorMove_left {p : Page R} (hD : p.Distinct) {c : CursRef} {cur : PageCursor}
    (hcur : p.curs c = .ok cur) (hpos : ¬ 0 < cur.pos) (h0 : cur.row ≠ 0) :
    p.bcursorMove cur.id .left = .ok (p.moveCurs c cur .left) ∧
      Moved p (p.moveCurs c cur .left) ∧
      (p.moveCurs c cur .left).curs c = .ok ⟨cur.id, cur.row - 1, p.len (cur.row - 1)⟩ ∧
      ∀ ref ≠ c, (p.moveCurs c cur .left).curs ref = p.curs ref := by
  obtain ⟨hmoved, hto, hrest⟩ := moveCurs_spec hcur .left
  refine ⟨bcursorMove_of_curs hD hcur .left, hmoved, ?_, hrest⟩
  rw [hto, cursorMove, if_neg hpos, if_pos h0]

/-! ## Deleting a row -/

omit [Rope R] in
theorem leaveMarks_curs (p : Page R) (k : Nat) (ref : CursRef) :
    (p.leaveMarks k).curs ref = p.curs ref := curs_congr rfl rfl ref

theorem deletel_eq {p : Page R} {k : Nat} (hnone : ∀ ref c, p.curs ref = .ok c → c.row ≠ k) :
    p.deletel k =
      (fun x => (x.leaveMarks k).eraseRow k) <$> runIf (p.visible k) (extend · k) p := by
  unfold deletel
  have hrest : ∀ x : Page R, (∀ ref, x.curs ref = p.curs ref) →
      ((x.leaveMarks k).forCurs fun p _ o => p.leaveRow k o) = .ok (x.leaveMarks k) := by
    intro x hx
    refine leaveRow_noop fun ref c hc => hnone ref c ?_
    rwa [leaveMarks_curs, hx] at hc
  cases hrun : runIf (p.visible k = true) (extend · k) p with
  | error e => rfl
  | ok x =>
      have hx : ∀ ref, x.curs ref = p.curs ref := by
        intro ref
        by_cases hv : p.visible k = true
        · rw [runIf_pos hv] at hrun
          exact extend_curs hrun ref
        · rw [runIf_neg hv] at hrun
          obtain rfl := Except.ok.inj hrun
          rfl
      rw [Except.ok_bind_eq, hrest x hx]
      rfl

/-- What is known after the deletion of a row that no cursor is on. -/
theorem deletel_ok {p q : Page R} {k : Nat} (hnone : ∀ ref c, p.curs ref = .ok c → c.row ≠ k)
    (h : p.deletel k = .ok q) :
    ∃ x, runIf (p.visible k) (extend · k) p = .ok x ∧ Kept p x ∧ (∀ ref, x.curs ref = p.curs ref) ∧
      (p.top < p.bottom → x.top < x.bottom) ∧ q = (x.leaveMarks k).eraseRow k := by
  rw [deletel_eq hnone] at h
  obtain ⟨x, hx, rfl⟩ := Except.map_eq_ok.mp h
  refine ⟨x, hx, ?_⟩
  by_cases hv : p.visible k = true
  · rw [runIf_pos hv] at hx
    refine ⟨extend_kept hx, extend_curs hx, fun hw => ?_, rfl⟩
    obtain ⟨top, bottom, rfl, hor⟩ := extend_eq hx
    have hwindow := (scrollFromOwn_moved ({ p with top, bottom } : Page R)).window
    simp only at hwindow
    omega
  · rw [runIf_neg hv] at hx
    obtain rfl := Except.ok.inj hx
    exact ⟨.refl _, fun _ => rfl, fun hw => hw, rfl⟩

omit [Rope R] in
theorem leaveErase_window (p : Page R) {k : Nat} (h0 : 0 < k) (hw : p.top < p.bottom) :
    ((p.leaveMarks k).eraseRow k).top < ((p.leaveMarks k).eraseRow k).bottom := by
  have htop : ((p.leaveMarks k).eraseRow k).top = unbump k (if p.top = k then k - 1 else p.top) := rfl
  have hbottom : ((p.leaveMarks k).eraseRow k).bottom = unbump k (if p.bottom = k then k + 1 else p.bottom) :=
    rfl
  rw [htop, hbottom]
  grind [unbump]

/-- A deletion at the start of a row joins the row to the one above and takes it out. -/
theorem bcursorDel_join {p q : Page R} (hD : p.Distinct) (hslots : p.peers.length = maxCursorNum)
    {c : CursRef} {cur : PageCursor} (hcur : p.curs c = .ok cur) (hpos : ¬ 0 < cur.pos) (h0 : cur.row ≠ 0)
    {res : Bres} (h : p.bcursorDel cur.id = .ok (q, res)) :
    ∃ x, (({ p with numLines := p.numLines - 1 } : Page R).moveCurs c cur .left).joinLines c = .ok x ∧
      x.deletel cur.row = .ok q ∧ res = .update := by
  have hcurs : ∀ ref, ({ p with numLines := p.numLines - 1 } : Page R).curs ref = p.curs ref :=
    fun ref => curs_congr rfl rfl ref
  have hD' : ({ p with numLines := p.numLines - 1 } : Page R).Distinct := distinct_congr hcurs hD
  obtain ⟨hleft, hmoved, hself, -⟩ := bcursorMove_left hD' ((hcurs c).trans hcur) hpos h0
  simp only [bcursorDel, findCurs_of_curs hD hcur, hcur, Except.ok_bind_eq, hleft, if_neg hpos, if_neg h0] at h
  obtain ⟨x, hx, h⟩ := Except.bind_eq_ok.mp h
  obtain ⟨-, hself', -, -⟩ := joinLines_ok (hmoved.distinct hD') (hmoved.slots.trans hslots) hself hx
  rw [hself', Except.ok_bind_eq] at h
  obtain ⟨y, hy, h⟩ := Except.bind_eq_ok.mp h
  obtain ⟨rfl, rfl⟩ := Prod.mk.inj (Except.ok.inj h)
  have hrow : cur.row - 1 + 1 = cur.row := by omega
  exact ⟨x, hx, by rwa [hrow] at hy, rfl⟩

end Page

end CoEditor
