-- SUMMARY: The where flags follow the own cursor, and decide on which side a join extends the window.
import CoEditor.Page.View

/-!
# Flags

`Flagged p` says that the `where` flags of the rows down to the own cursor are
right. Those further down can be out of date: a row that is put in below the own
cursor may be marked as above it. Such a mark is what lets a join stretch the
window.
-/

namespace CoEditor

variable {R : Type}

namespace Page

/-- The flag of row `k`. -/
def flagAt (p : Page R) (k : Nat) : Option Crp := p.rows[k]?.map Row.where_

theorem notAbove_eq (p : Page R) (k : Nat) : p.notAbove k = (p.flagAt k).any (· ≠ .above) := by
  rw [notAbove, flagAt, Option.any_map]

/-- The rows above the own cursor are marked as such, and so is its own row. -/
structure Flagged (p : Page R) : Prop where
  above : ∀ k < p.own.row, p.flagAt k = some .above
  same : p.flagAt p.own.row = some .same

namespace Flagged

variable {p q : Page R}

theorem congr (h : Flagged p) (hflag : ∀ k, q.flagAt k = p.flagAt k) (hown : q.own.row = p.own.row) :
    Flagged q where
  above k hk := by rw [hflag]; exact h.above k (hown ▸ hk)
  same := by rw [hown, hflag]; exact h.same

theorem of_rows (h : Flagged p) (hrows : q.rows = p.rows) (hown : q.own.row = p.own.row) : Flagged q :=
  h.congr (fun k => by rw [flagAt, flagAt, hrows]) hown

theorem sameView (h : Flagged p) (hv : SameView p q) : Flagged q := h.of_rows hv.rows (by rw [hv.own])

theorem notAbove_eq_false (h : Flagged p) {k : Nat} (hk : k < p.own.row) : p.notAbove k = false := by
  rw [notAbove_eq, h.above k hk]
  rfl

end Flagged

/-! ## Moving -/

theorem modifyRow_flagAt (p : Page R) (k : Nat) (w : Crp) (j : Nat) :
    (p.modifyRow k ({ · with where_ := w })).flagAt j =
      if k = j then (p.flagAt j).map fun _ => w else p.flagAt j := by
  simp only [flagAt, modifyRow, List.getElem?_modify]
  cases p.rows[j]? with
  | none => simp
  | some r => by_cases hk : k = j <;> simp [hk]

/-- Changing the text of a row leaves the flags alone. -/
theorem modifyStr_flagAt (p : Page R) (k : Nat) (f : Row R → R) (j : Nat) :
    (p.modifyRow k fun r => { r with str := f r }).flagAt j = p.flagAt j := by
  simp only [flagAt, modifyRow, List.getElem?_modify]
  cases p.rows[j]? with
  | none => rfl
  | some r => by_cases hk : k = j <;> simp [hk]

theorem noteUp_flagAt (p : Page R) (row j : Nat) :
    (p.noteUp row).flagAt j =
      if row = j then (p.flagAt j).map fun _ => .same
      else if row + 1 = j then (p.flagAt j).map fun _ => .bellow
      else p.flagAt j := by
  rw [noteUp, modifyRow_flagAt, modifyRow_flagAt]
  split
  · rw [if_neg (by omega)]
  · rfl

theorem noteDown_flagAt (p : Page R) {row : Nat} (h0 : 0 < row) (j : Nat) :
    (p.noteDown row).flagAt j =
      if row = j then (p.flagAt j).map fun _ => .same
      else if row - 1 = j then (p.flagAt j).map fun _ => .above
      else p.flagAt j := by
  rw [noteDown, modifyRow_flagAt, modifyRow_flagAt]
  split
  · rw [if_neg (by omega)]
  · rfl

variable [Rope R]

/-- A cursor goes to the row above, to the row below, or stays in its row. -/
theorem cursorMove_row (p : Page R) (c : PageCursor) (dir : CmoveDir) :
    (p.cursorMove c dir).2 = .aUp ∧ (p.cursorMove c dir).1.row + 1 = c.row ∨
      (p.cursorMove c dir).2 = .aDown ∧ (p.cursorMove c dir).1.row = c.row + 1 ∧
        c.row + 1 < p.rows.length ∨
      (p.cursorMove c dir).2 ≠ .aUp ∧ (p.cursorMove c dir).2 ≠ .aDown ∧
        (p.cursorMove c dir).1.row = c.row := by
  cases dir <;> simp only [cursorMove] <;> grind

theorem moveCurs_own_flagAt (p : Page R) (c : PageCursor) (dir : CmoveDir) (j : Nat) :
    (p.moveCurs .own c dir).flagAt j =
      if (p.cursorMove c dir).2 = .aUp then (p.noteUp (p.cursorMove c dir).1.row).flagAt j
      else if (p.cursorMove c dir).2 = .aDown then (p.noteDown (p.cursorMove c dir).1.row).flagAt j
      else p.flagAt j := by
  have hkept := (p.scrollBefore_moved .own c.row).toKept.cursorMove c dir
  have hrows := p.scrollBefore_rows .own c.row
  simp only [moveCurs, hkept, scrollAfter, if_true]
  generalize p.cursorMove c dir = r
  obtain ⟨d, res⟩ := r
  cases res <;> simp [flagAt, noteUp, noteDown, modifyRow, Page.setCurs, hrows] <;> split <;>
    simp

namespace Flagged

variable {p q : Page R}

theorem moveOwn (h : Flagged p) (dir : CmoveDir) : Flagged (p.moveCurs .own p.own dir) := by
  obtain ⟨-, hto, -⟩ := moveCurs_spec p.curs_own dir
  have hflag := p.moveCurs_own_flagAt p.own dir
  have hto := congrArg PageCursor.row (Except.ok.inj hto)
  rcases p.cursorMove_row p.own dir with ⟨hres, hrow⟩ | ⟨hres, hrow, hlt⟩ | ⟨hup, hdown, hrow⟩
  · simp only [hres, if_true, noteUp_flagAt] at hflag
    constructor
    · intro k hk
      rw [hflag, if_neg (by omega), if_neg (by omega)]
      exact h.above k (by omega)
    · rw [hflag, hto, if_pos rfl, h.above _ (by omega)]
      rfl
  · obtain ⟨r, hr⟩ := exists_row hlt
    simp only [hres, if_true, noteDown_flagAt p (show 0 < (p.cursorMove p.own dir).1.row by omega)] at hflag
    constructor
    · intro k hk
      rw [hflag, if_neg (by decide), if_neg (by omega)]
      split
      · next hk' =>
          have hk' : k = p.own.row := by omega
          rw [hk', h.same]
          rfl
      · exact h.above k (by omega)
    · rw [hflag, if_neg (by decide), hto, if_pos rfl, hrow, flagAt, hr]
      rfl
  · refine h.congr (fun k => ?_) (hto.trans hrow)
    rw [hflag, if_neg hup, if_neg hdown]

theorem bcursorMove (h : Flagged p) {id : Int} {dir : CmoveDir} (hrun : p.bcursorMove id dir = .ok q) :
    Flagged q := by
  obtain ⟨ref, href, hrun⟩ := Except.bind_eq_ok.mp hrun
  obtain ⟨c, hc, hrun⟩ := Except.bind_eq_ok.mp hrun
  obtain rfl := Except.ok.inj hrun
  cases ref with
  | own =>
      obtain rfl := Except.ok.inj hc
      exact h.moveOwn dir
  | peer i => exact h.sameView (moveCurs_sameView p i c dir)

end Flagged

/-! ## Putting a row in -/

theorem joinRows_flagAt (p : Page R) (k j : Nat) : (p.joinRows k).flagAt j = p.flagAt j := by
  have hraise : (p.raiseLast k).flagAt j = p.flagAt j := by
    unfold raiseLast
    split <;> rfl
  rw [← hraise, joinRows, joinText]
  split
  · exact modifyStr_flagAt _ k _ j
  · rfl

theorem joinRows_notAbove (p : Page R) (k j : Nat) : (p.joinRows k).notAbove j = p.notAbove j := by
  rw [notAbove_eq, notAbove_eq, joinRows_flagAt]

theorem newRow_flagAt (p : Page R) {k : Nat} (ptr : Ptr) (hk : k ≤ p.rows.length) (j : Nat) :
    (p.newRow k ptr).flagAt j =
      if j < k then p.flagAt j else if j = k then some (p.newWhere k) else p.flagAt (j - 1) := by
  simp only [flagAt, newRow_rows, List.getElem?_insertIdx]
  split
  · rfl
  · split
    · rw [if_pos (by omega)]
      rfl
    · rfl

omit [Rope R] in
/-- A row put in at or above the own cursor is marked as above it. -/
theorem Flagged.newWhere {p : Page R} (h : Flagged p) {k : Nat} (hk : k ≤ p.own.row) :
    p.newWhere k = .above := by
  have hflag : p.flagAt k = some .above ∨ p.flagAt k = some .same := by
    rcases Nat.lt_or_eq_of_le hk with hlt | rfl
    · exact .inl (h.above k hlt)
    · exact .inr h.same
  unfold Page.newWhere
  unfold flagAt at hflag
  split
  · rfl
  · next hrow => simp [hrow] at hflag
  · next r hrow =>
      rw [hrow] at hflag
      rw [if_pos]
      rcases hflag with hflag | hflag
      · exact .inr (Option.some.inj hflag)
      · exact .inl (Option.some.inj hflag)

namespace Flagged

variable {p q : Page R}

theorem newRow (h : Flagged p) {k : Nat} (hk : k ≤ p.rows.length) (ptr : Ptr) : Flagged (p.newRow k ptr) := by
  have hflag := p.newRow_flagAt ptr hk
  have hown : (p.newRow k ptr).own.row = bump k p.own.row := rfl
  constructor
  · intro j hj
    rw [hflag]
    rw [hown] at hj
    by_cases hkown : k ≤ p.own.row
    · rw [bump, if_pos hkown] at hj
      split
      · exact h.above j (by omega)
      · split
        · rw [h.newWhere hkown]
        · exact h.above (j - 1) (by omega)
    · rw [bump, if_neg hkown] at hj
      rw [if_pos (by omega)]
      exact h.above j hj
  · rw [hown, hflag]
    by_cases hkown : k ≤ p.own.row
    · rw [bump, if_pos hkown, if_neg (by omega), if_neg (by omega)]
      exact h.same
    · rw [bump, if_neg hkown, if_pos (by omega)]
      exact h.same

omit [Rope R] in
theorem trim (h : Flagged p) (k : Nat) : Flagged (p.trim k) :=
  h.of_rows (trim_rows p k) (congrArg PageCursor.row (Except.ok.inj (trim_curs p k .own)))

theorem homeUp (h : Flagged p) (hrun : p.homeUp = .ok q) : Flagged q := by
  unfold Page.homeUp at hrun
  by_cases hhome : p.serverMode ∧ p.own.row ≠ 0
  · rw [runIf_pos hhome] at hrun
    exact h.bcursorMove hrun
  · rw [runIf_neg hhome] at hrun
    exact Except.ok.inj hrun ▸ h

theorem insertAbove (h : Flagged p) {c : CursRef} {row : Nat} (hrow : row ≤ p.rows.length) {ptr : Ptr}
    (hrun : p.insertAbove c row ptr = .ok q) : Flagged q := by
  refine homeUp ?_ hrun
  have hnew := (h.newRow hrow ptr).trim row
  unfold scrollIfOwn
  split
  · exact hnew.of_rows (scroll_rows _ _) (by rw [scroll_own])
  · exact hnew

theorem newBelow (h : Flagged p) {row : Nat} (hrow : row < p.rows.length) (ptr : Ptr) :
    Flagged (p.newBelow row ptr) := by
  have hnew := h.newRow hrow ptr
  unfold Page.newBelow
  split
  · exact hnew.of_rows rfl rfl
  · exact hnew

omit [Rope R] in
theorem modifyStr (h : Flagged p) (k : Nat) (f : Row R → R) :
    Flagged (p.modifyRow k fun r => { r with str := f r }) := h.congr (modifyStr_flagAt p k f) rfl

omit [Rope R] in
theorem setCurs (h : Flagged p) {ref : CursRef} {c d : PageCursor} (hc : p.curs ref = .ok c)
    (hrow : d.row = c.row) : Flagged (p.setCurs d ref) := by
  cases ref with
  | own =>
      obtain rfl := Except.ok.inj hc
      exact h.of_rows rfl hrow
  | peer i => exact h.sameView (p.setCurs_sameView i d)

theorem splitOther_own (h : Flagged p) {c : CursRef} (hrun : p.splitOther c .own p.own = .ok q) :
    Flagged q := by
  obtain ⟨cur, -, hrun⟩ := Except.bind_eq_ok.mp hrun
  split at hrun
  · exact (h.setCurs p.curs_own (d := { p.own with pos := p.own.pos - cur.pos }) rfl).bcursorMove hrun
  · exact Except.ok.inj hrun ▸ h

theorem splitLine (h : Flagged p) (hD : p.Distinct) (hslots : p.peers.length = maxCursorNum) {c : CursRef}
    {cur : PageCursor} (hcur : p.curs c = .ok cur) (hrun : p.splitLine c = .ok q) : Flagged q := by
  obtain ⟨x, hx, -, -, q₁, hown, hview⟩ := splitLine_spec hD hslots hcur
  obtain rfl : x = q := Except.ok.inj (hx.symm.trans hrun)
  exact (splitOther_own ((h.modifyStr _ _).modifyStr _ _) hown).sameView hview

theorem insertBelow (h : Flagged p) (hD : p.Distinct) (hslots : p.peers.length = maxCursorNum) {c : CursRef}
    {cur : PageCursor} (hcur : p.curs c = .ok cur) (hrow : cur.row < p.rows.length) {ptr : Ptr}
    (hrun : p.insertBelow cur.id c cur.row cur.pos ptr = .ok q) : Flagged q := by
  obtain ⟨x, hx, hrun⟩ := Except.bind_eq_ok.mp hrun
  obtain ⟨d, hd, hrun⟩ := Except.bind_eq_ok.mp hrun
  have hnew := h.newBelow hrow ptr
  have hcur' : (p.newBelow cur.row ptr).curs c = .ok cur := by
    rw [newBelow_curs, hcur]
    exact congrArg Except.ok cur.mapRow_bump_self
  have hsplit : Flagged x := by
    by_cases hpos : sizeT cur.pos ≠ p.len cur.row
    · rw [runIf_pos hpos] at hx
      exact hnew.splitLine (newBelow_distinct hD cur.row ptr) ((p.newBelow_slots cur.row ptr).trans hslots)
        hcur' hx
    · rw [runIf_neg hpos] at hx
      exact Except.ok.inj hx ▸ hnew
  exact ((hsplit.setCurs hd (d := { d with pos := 0 }) rfl).trim _).bcursorMove hrun

/-! ## Taking a row out -/

theorem joinOther_own (h : Flagged p) {c : CursRef} (hrun : p.joinOther c .own p.own = .ok q) :
    Flagged q := by
  obtain ⟨cur, -, hrun⟩ := Except.bind_eq_ok.mp hrun
  split at hrun
  · obtain ⟨x, hx, hrun⟩ := Except.bind_eq_ok.mp hrun
    obtain ⟨o, ho, hrun⟩ := Except.bind_eq_ok.mp hrun
    obtain ⟨cur', -, hrun⟩ := Except.bind_eq_ok.mp hrun
    obtain rfl := Except.ok.inj hrun
    exact (h.bcursorMove hx).setCurs ho rfl
  · exact Except.ok.inj hrun ▸ h

theorem joinRows (h : Flagged p) (k : Nat) : Flagged (p.joinRows k) :=
  h.congr (joinRows_flagAt p k) (congrArg PageCursor.row (Except.ok.inj (p.joinRows_curs k .own)))

omit [Rope R] in
theorem eraseRow (h : Flagged p) {k : Nat} (hown : p.own.row ≠ k) : Flagged (p.eraseRow k) := by
  have hflag : ∀ j, (p.eraseRow k).flagAt j = if j < k then p.flagAt j else p.flagAt (j + 1) := by
    intro j
    simp only [flagAt, Page.eraseRow, List.getElem?_eraseIdx]
    split <;> rfl
  have hrow : (p.eraseRow k).own.row = unbump k p.own.row := rfl
  constructor
  · intro j hj
    rw [hrow] at hj
    rw [hflag]
    split
    · exact h.above j (by grind [unbump])
    · exact h.above (j + 1) (by grind [unbump])
  · rw [hrow, hflag]
    rcases Nat.lt_or_gt_of_ne hown with hlt | hgt
    · rw [show unbump k p.own.row = p.own.row by grind [unbump], if_pos hlt]
      exact h.same
    · rw [show unbump k p.own.row = p.own.row - 1 by grind [unbump], if_neg (by omega),
        Nat.sub_add_cancel (by omega)]
      exact h.same

theorem deletel (h : Flagged p) {k : Nat} (hnone : ∀ ref c, p.curs ref = .ok c → c.row ≠ k)
    (hrun : p.deletel k = .ok q) : Flagged q := by
  obtain ⟨x, hx, -, hcurs, -, rfl⟩ := deletel_ok hnone hrun
  have hown : x.own = p.own := Except.ok.inj (hcurs .own)
  have hrows : x.rows = p.rows := by
    by_cases hv : p.visible k = true
    · rw [runIf_pos hv] at hx
      exact extend_rows hx
    · rw [runIf_neg hv] at hx
      rw [Except.ok.inj hx]
  refine eraseRow (h.of_rows (q := x.leaveMarks k) hrows (congrArg PageCursor.row hown)) ?_
  show x.own.row ≠ k
  rw [hown]
  exact hnone .own p.own p.curs_own

end Flagged

/-! ## Joins -/

section Join

variable {p x : Page R} {n : Nat} {c : CursRef} {cur : PageCursor}

theorem Flagged.moveCurs (h : Flagged p) (hcur : p.curs c = .ok cur) (dir : CmoveDir) :
    Flagged (p.moveCurs c cur dir) := by
  cases c with
  | own => exact Except.ok.inj hcur ▸ h.moveOwn dir
  | peer i => exact h.sameView (moveCurs_sameView p i cur dir)

theorem View.moveCurs (h : View n p) (hn : 3 ≤ n) (hend : p.own.row + 3 ≤ p.rows.length)
    (hcur : p.curs c = .ok cur) (dir : CmoveDir) : View n (p.moveCurs c cur dir) := by
  cases c with
  | own => exact Except.ok.inj hcur ▸ h.moveOwn hn hend dir
  | peer i => exact (moveCurs_sameView p i cur dir).view h

theorem Flagged.joinLines (h : Flagged p) (hD : p.Distinct) (hslots : p.peers.length = maxCursorNum)
    (hcur : p.curs c = .ok cur) (hx : p.joinLines c = .ok x) : Flagged x := by
  by_cases hfit : (Rope.writeCstr (p.strAt (cur.row + 1))).length + 1 ≤ spSize
  · obtain ⟨x', hx', -, -, q₁, hown, hview⟩ := joinLines_spec hD hslots hcur hfit
    obtain rfl : x' = x := Except.ok.inj (hx'.symm.trans hx)
    exact (joinOther_own (h.joinRows cur.row) hown).sameView hview
  · rw [joinLines_overflow hcur hfit] at hx
    cases hx

/-- The row that the own cursor leaves upwards is no longer marked as above it. -/
theorem moveCurs_notAbove (p : Page R) (dir : CmoveDir) (hup : (p.cursorMove cur dir).2 = .aUp)
    (hrow : cur.row < p.rows.length) : (p.moveCurs .own cur dir).notAbove cur.row = true := by
  obtain ⟨r, hr⟩ := exists_row hrow
  have hup' : (p.cursorMove cur dir).1.row + 1 = cur.row := by
    rcases p.cursorMove_row cur dir with ⟨-, h⟩ | ⟨h, -⟩ | ⟨h, -⟩
    · exact h
    · rw [hup] at h
      cases h
    · exact absurd hup h
  rw [notAbove_eq, moveCurs_own_flagAt, hup, if_pos rfl, noteUp_flagAt, if_neg (by omega), if_pos hup', flagAt,
    hr]
  rfl

omit [Rope R] in
/-- A window is stretched only by a join at a peer cursor, below the own one. -/
theorem View.not_stretches (h : View n p) (hn : 3 ≤ n) {k : Nat} (hown : p.own.row + 1 = k)
    (hflag : p.notAbove k = true) : ¬ p.Stretches k := by
  rintro ⟨rfl, -, hs⟩
  rcases hs with hs | hs
  · rw [hflag] at hs
    cases hs
  · have := h.size
    omega

/-- The own cursor, taken along by the join, leaves the row. -/
theorem joinOther_own_not_stretches (h : View n p) (hn : 3 ≤ n) (hD : p.Distinct)
    (hend : p.own.row + 3 ≤ p.rows.length) (hcur : p.curs c = .ok cur) (hne : c ≠ .own)
    (hown : cur.row + 1 = p.own.row) (hx : p.joinOther c .own p.own = .ok x) : ¬ x.Stretches (cur.row + 1) := by
  have hview := h.joinOther_own hn hend hx
  have hmove := h.moveOwn hn hend .up
  obtain ⟨-, hto, hrest⟩ := moveCurs_spec p.curs_own .up
  have h0 : p.own.row ≠ 0 := by omega
  have hup : p.cursorMove p.own .up = (⟨p.own.id, p.own.row - 1, p.cut (p.own.row - 1) p.own.pos⟩, .aUp) := by
    simp only [cursorMove, if_pos h0]
  simp only [joinOther, hcur, Except.ok_bind_eq, hown, hne, ne_eq, not_false_eq_true, and_self, if_true,
    bcursorMove_of_curs hD p.curs_own, curs_own, hrest c hne] at hx
  obtain rfl := Except.ok.inj hx
  refine hview.not_stretches hn ?_ ?_
  · show (p.moveCurs .own p.own .up).own.row + 1 = cur.row + 1
    rw [Except.ok.inj hto, hup]
    simp only
    omega
  · have := p.moveCurs_notAbove .up (by rw [hup]) (show p.own.row < p.rows.length by omega)
    rwa [← hown] at this

/-- A row that would stretch the window after the join would have done so before. -/
theorem joinLines_stretches (h : View n p) (hn : 3 ≤ n) (hD : p.Distinct)
    (hslots : p.peers.length = maxCursorNum) (hend : p.own.row + 3 ≤ p.rows.length) (hcur : p.curs c = .ok cur)
    (hx : p.joinLines c = .ok x) (hs : x.Stretches (cur.row + 1)) : p.Stretches (cur.row + 1) := by
  by_cases hfit : (Rope.writeCstr (p.strAt (cur.row + 1))).length + 1 ≤ spSize
  · obtain ⟨x', hx', -, -, q₁, hown, hview⟩ := joinLines_spec hD hslots hcur hfit
    obtain rfl : x' = x := Except.ok.inj (hx'.symm.trans hx)
    obtain ⟨htop, hbottom⟩ := p.joinRows_window cur.row
    have hown' : (p.joinRows cur.row).own = p.own := Except.ok.inj (p.joinRows_curs cur.row .own)
    have hs₁ : q₁.Stretches (cur.row + 1) := by
      unfold Stretches Page.notAbove at hs ⊢
      rwa [hview.top, hview.bottom, hview.own, hview.rows] at hs
    have hjoin : View n (p.joinRows cur.row) :=
      ⟨by rw [htop, hbottom]; exact h.size, by rw [htop, hown']; exact h.top_le,
        by rw [hbottom, hown']; exact h.lt_bottom⟩
    have hcur' := (p.joinRows_curs cur.row c).trans hcur
    by_cases htaken : c ≠ .own ∧ cur.row + 1 = (p.joinRows cur.row).own.row
    · refine absurd hs₁ (joinOther_own_not_stretches hjoin hn
        (distinct_congr (p.joinRows_curs cur.row) hD) ?_ hcur' htaken.1 htaken.2 hown)
      rw [hown', joinRows_length]
      exact hend
    · simp only [joinOther, hcur', Except.ok_bind_eq, if_neg htaken] at hown
      obtain rfl := Except.ok.inj hown
      unfold Stretches at hs₁ ⊢
      rwa [htop, hbottom, hown', joinRows_notAbove] at hs₁
  · rw [joinLines_overflow hcur hfit] at hx
    cases hx

/-- Page `x` is what a join at the start of row `k` of `p` leaves to `buffer_deletel`. -/
structure Joined (n : Nat) (p x : Page R) (k : Nat) : Prop where
  view : View n x
  own_le : x.own.row ≤ p.own.row
  length : x.rows.length = p.rows.length
  curs_ne : ∀ ref o, x.curs ref = .ok o → o.row ≠ k
  flagged : Flagged p → Flagged x
  stretches : x.Stretches k → p.Stretches k

theorem joinCursor_row_le (p : Page R) (c : CursRef) (cur : PageCursor) (ref : CursRef) (o : PageCursor) :
    (p.joinCursor c cur ref o).row ≤ o.row := by
  unfold joinCursor
  split
  · simp only [cursorMove]
    split <;> simp
  · exact Nat.le_refl _

/-- A row that would stretch the window after the cursor went to the row above would have before. -/
theorem moveCurs_stretches (hn : 3 ≤ n) (hcur : p.curs c = .ok cur) {dir : CmoveDir}
    (hup : (p.cursorMove cur dir).2 = .aUp) (hrow : cur.row < p.rows.length)
    (hview : View n (p.moveCurs c cur dir)) (hs : (p.moveCurs c cur dir).Stretches cur.row) :
    p.Stretches cur.row := by
  cases c with
  | own =>
      obtain rfl := Except.ok.inj hcur
      obtain ⟨-, hto, -⟩ := moveCurs_spec hcur dir
      refine absurd hs (hview.not_stretches hn ?_ (moveCurs_notAbove p dir hup hrow))
      rw [Except.ok.inj hto]
      rcases p.cursorMove_row p.own dir with ⟨-, h⟩ | ⟨h, -⟩ | ⟨h, -⟩
      · exact h
      · rw [hup] at h
        cases h
      · exact absurd hup h
  | peer i =>
      have hsame := moveCurs_sameView p i cur dir
      unfold Stretches Page.notAbove at hs ⊢
      rwa [hsame.top, hsame.bottom, hsame.own, hsame.rows] at hs

theorem joined (h : View n p) (hn : 3 ≤ n) (hD : p.Distinct) (hslots : p.peers.length = maxCursorNum)
    (hend : p.own.row + 3 ≤ p.rows.length) (hcur : p.curs c = .ok cur) (hpos : ¬ 0 < cur.pos)
    (h0 : cur.row ≠ 0) (hrow : cur.row < p.rows.length)
    (hx : (p.moveCurs c cur .left).joinLines c = .ok x) : Joined n p x cur.row := by
  obtain ⟨-, hmoved, hself, hrest⟩ := bcursorMove_left hD hcur hpos h0
  have hup : (p.cursorMove cur .left).2 = .aUp := by simp only [cursorMove, if_neg hpos, if_pos h0]
  have hD' := hmoved.distinct hD
  have hslots' := hmoved.slots.trans hslots
  have hview := h.moveCurs hn hend hcur .left
  have hown : (p.moveCurs c cur .left).own.row ≤ p.own.row := by
    cases c with
    | own =>
        obtain rfl := Except.ok.inj hcur
        rw [Except.ok.inj hself]
        exact Nat.sub_le ..
    | peer i => exact Nat.le_of_eq (congrArg PageCursor.row (moveCurs_sameView p i cur .left).own)
  have hend' : (p.moveCurs c cur .left).own.row + 3 ≤ (p.moveCurs c cur .left).rows.length := by
    rw [hmoved.rows_length]
    omega
  obtain ⟨hjoined, -, hcurs, hnone⟩ := joinLines_ok hD' hslots' hself hx
  have hrow' : cur.row - 1 + 1 = cur.row := by omega
  exact
    { view := hview.joinLines hn hD' hslots' hend' hself hx
      own_le := by
        rw [Except.ok.inj (hcurs .own _ (curs_own _))]
        exact Nat.le_trans (joinCursor_row_le ..) hown
      length := by rw [hjoined.rows_length, joinRows_length, hmoved.rows_length]
      curs_ne := by simpa only [hrow'] using hnone
      flagged := fun hf => (hf.moveCurs hcur .left).joinLines hD' hslots' hself hx
      stretches := fun hs => by
        have hs' := joinLines_stretches hview hn hD' hslots' hend' hself hx (by simpa only [hrow'] using hs)
        simp only [hrow'] at hs'
        exact moveCurs_stretches hn hcur hup hrow hview hs' }

end Join

end Page

end CoEditor
