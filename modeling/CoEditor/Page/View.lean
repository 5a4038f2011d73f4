-- SUMMARY: The window keeps its size around the own cursor under every page operation but one join.
import CoEditor.Page.Edits

/-!
# The view

`View n p` says that the window has `n` lines and the own cursor is in it, not
on its last line. With at least three lines every operation keeps such a view,
except that a join may stretch it: `buffer_deletel` first extends the window,
which takes a line that is then at its edge for one inside it.
-/

namespace CoEditor

variable {R : Type}

namespace Page

/-- The window has `n` lines, and the own cursor is on one of them but the last. -/
structure View (n : Nat) (p : Page R) : Prop where
  size : p.top + n = p.bottom + 1
  top_le : p.top ≤ p.own.row
  lt_bottom : p.own.row < p.bottom

/-- The deletion of row `k` makes the window one line too long: the row is the last one shown, and
    the window is extended at the other end or scrolled back. -/
def Stretches (p : Page R) (k : Nat) : Prop :=
  k = p.bottom ∧ p.top ≠ 0 ∧ (p.notAbove k = false ∨ p.own.row = p.top)

instance (p : Page R) (k : Nat) : Decidable (p.Stretches k) := by
  unfold Stretches
  infer_instance

theorem SameView.view {p q : Page R} {n : Nat} (h : SameView p q) (hv : View n p) : View n q where
  size := by rw [h.top, h.bottom]; exact hv.size
  top_le := by rw [h.top, h.own]; exact hv.top_le
  lt_bottom := by rw [h.bottom, h.own]; exact hv.lt_bottom

namespace View

variable {p q : Page R} {n : Nat}

/-! ## Scrolling and moving -/

theorem scroll (h : View n p) (dir : CmoveDir) : View n (p.scroll dir) := by
  obtain ⟨hsize, htop, hbottom⟩ := h
  cases dir with
  | left => exact ⟨hsize, htop, hbottom⟩
  | right => exact ⟨hsize, htop, hbottom⟩
  | up =>
      unfold Page.scroll
      dsimp only
      split
      · exact ⟨hsize, htop, hbottom⟩
      · constructor <;> simp only <;> omega
  | down =>
      unfold Page.scroll
      dsimp only
      split
      · exact ⟨hsize, htop, hbottom⟩
      · constructor <;> simp only <;> omega

variable [Rope R]

/-- The own cursor moves within the window, or the window with it. -/
theorem moveOwn (h : View n p) (hn : 3 ≤ n) (hend : p.own.row + 3 ≤ p.rows.length) (dir : CmoveDir) :
    View n (p.moveCurs .own p.own dir) := by
  obtain ⟨hsize, htop, hbottom⟩ := h
  constructor <;> cases dir <;>
    simp only [moveCurs, scrollBefore, scrollAfter, Page.scroll, noteUp, noteDown, modifyRow, setCurs,
      cursorMove, if_true] <;> grind

theorem bcursorMove (h : View n p) (hn : 3 ≤ n) (hend : p.own.row + 3 ≤ p.rows.length) {id : Int}
    {dir : CmoveDir} (hrun : p.bcursorMove id dir = .ok q) : View n q := by
  obtain ⟨ref, href, hrun⟩ := Except.bind_eq_ok.mp hrun
  obtain ⟨c, hc, hrun⟩ := Except.bind_eq_ok.mp hrun
  obtain rfl := Except.ok.inj hrun
  cases ref with
  | own =>
      obtain rfl := Except.ok.inj hc
      exact h.moveOwn hn hend dir
  | peer i => exact (moveCurs_sameView p i c dir).view h

/-! ## Putting a row in -/

omit [Rope R] in
theorem setOwn (h : View n p) {c : PageCursor} (hrow : c.row = p.own.row) : View n (p.setCurs c .own) :=
  ⟨h.size, hrow ▸ h.top_le, hrow ▸ h.lt_bottom⟩

omit [Rope R] in
theorem setCurs (h : View n p) {ref : CursRef} {c d : PageCursor} (hc : p.curs ref = .ok c)
    (hrow : d.row = c.row) : View n (p.setCurs d ref) := by
  cases ref with
  | own =>
      obtain rfl := Except.ok.inj hc
      exact h.setOwn hrow
  | peer i => exact (p.setCurs_sameView i d).view h

/-- A new row in the window makes it longer. -/
theorem newRow (h : View n p) (k : Nat) (ptr : Ptr) :
    View (if (p.newRow k ptr).visible k then n + 1 else n) (p.newRow k ptr) := by
  obtain ⟨hsize, htop, hbottom⟩ := h
  have hvis := p.newRow_visible k k ptr
  constructor
  · show bump k p.top + _ = bump k p.bottom + 1
    grind [bump]
  · exact bump_mono htop
  · exact bump_lt_bump hbottom

omit [Rope R] in
/-- Trimming takes away one line of the window, whatever the flags say. -/
theorem trim (h : View (n + 1) p) (hn : 3 ≤ n) {k : Nat} (hv : p.visible k = true)
    (hend : p.own.row + 1 < p.rows.length) : View n (p.trim k) := by
  obtain ⟨hsize, htop, hbottom⟩ := h
  constructor <;> simp only [Page.trim, hv, scrollFromOwn, Page.scroll, if_true] <;> grind

/-- A row put in and trimmed away again. -/
theorem newRow_trim (h : View n p) (hn : 3 ≤ n) (hend : p.own.row + 1 < p.rows.length) {k : Nat}
    (hk : k ≤ p.rows.length) (ptr : Ptr) : View n ((p.newRow k ptr).trim k) := by
  have hnew := h.newRow k ptr
  cases hv : (p.newRow k ptr).visible k with
  | true =>
      rw [hv, if_pos rfl] at hnew
      refine hnew.trim hn hv ?_
      rw [newRow_length p ptr hk]
      show bump k p.own.row + 1 < _
      grind [bump]
  | false =>
      rw [trim_of_not_visible _ hv]
      rwa [hv, if_neg (by simp)] at hnew

theorem homeUp (h : View n p) (hn : 3 ≤ n) (hend : p.own.row + 3 ≤ p.rows.length)
    (hrun : p.homeUp = .ok q) : View n q := by
  unfold Page.homeUp at hrun
  by_cases hhome : p.serverMode ∧ p.own.row ≠ 0
  · rw [runIf_pos hhome] at hrun
    exact h.bcursorMove hn hend hrun
  · rw [runIf_neg hhome] at hrun
    exact Except.ok.inj hrun ▸ h

theorem insertAbove (h : View n p) (hn : 3 ≤ n) (hend : p.own.row + 3 ≤ p.rows.length) {c : CursRef}
    {row : Nat} (hrow : row ≤ p.rows.length) {ptr : Ptr} (hrun : p.insertAbove c row ptr = .ok q) : View n q := by
  have hnew := h.newRow_trim hn (by omega) hrow ptr
  have hscroll : View n (((p.newRow row ptr).trim row).scrollIfOwn c) := by
    unfold scrollIfOwn
    split
    · exact hnew.scroll .up
    · exact hnew
  refine hscroll.homeUp hn ?_ hrun
  have hown : (((p.newRow row ptr).trim row).scrollIfOwn c).own = p.own.mapRow (bump row) := by
    have hcurs : (((p.newRow row ptr).trim row).scrollIfOwn c).curs .own = .ok (p.own.mapRow (bump row)) := by
      rw [scrollIfOwn_curs, trim_curs, newRow_curs]
      rfl
    exact Except.ok.inj hcurs
  have hlen : (((p.newRow row ptr).trim row).scrollIfOwn c).rows.length = p.rows.length + 1 := by
    rw [(scrollIfOwn_moved _ c).rows_length, trim_rows, newRow_length p ptr hrow]
  rw [hown, hlen, PageCursor.mapRow_row]
  grind [bump]

theorem newBelow (h : View n p) (row : Nat) (ptr : Ptr) :
    View (if (p.newBelow row ptr).visible (row + 1) then n + 1 else n) (p.newBelow row ptr) := by
  have hnew := h.newRow (row + 1) ptr
  unfold Page.newBelow
  split
  · exact ⟨hnew.size, hnew.top_le, hnew.lt_bottom⟩
  · exact hnew

/-- A split takes the own cursor along at most to the line below, which it can see. -/
theorem splitOther_own (h : View n p) (hn : 3 ≤ n) (hD : p.Distinct) (hend : p.own.row + 3 ≤ p.rows.length)
    {c : CursRef} {cur : PageCursor} (hcur : p.curs c = .ok cur) (hlast : cur.row ≠ p.last)
    (hrun : p.splitOther c .own p.own = .ok q) :
    View n q ∧ q.visible (cur.row + 1) = p.visible (cur.row + 1) := by
  simp only [splitOther, hcur, Except.ok_bind_eq] at hrun
  split at hrun
  · next hafter =>
      have hrow : cur.row = p.own.row := by
        simp only [after, decide_eq_true_eq] at hafter
        exact hafter.2.1
      generalize ho : ({ p.own with pos := p.own.pos - cur.pos } : PageCursor) = o at hrun
      have horow : o.row = p.own.row := by rw [← ho]
      have hoid : o.id = p.own.id := by rw [← ho]
      have hself := curs_setCurs_self p.curs_own o
      rw [← hoid, bcursorMove_of_curs ((setCurs_moved p.curs_own hoid).distinct hD) hself] at hrun
      obtain rfl := Except.ok.inj hrun
      have hview : View n ((p.setCurs o .own).moveCurs .own o .down) :=
        (h.setOwn horow).moveOwn hn (by show o.row + 3 ≤ _; rw [horow]; exact hend) .down
      have hown : ((p.setCurs o .own).moveCurs .own o .down).own.row = cur.row + 1 := by
        obtain ⟨-, hto, -⟩ := moveCurs_spec hself .down
        rw [Except.ok.inj hto, cursorMove, if_pos, hrow, horow]
        rw [horow, ← hrow]
        exact ⟨by show cur.row + 1 < p.rows.length; omega, hlast⟩
      have h₁ := hview.top_le
      have h₂ := hview.lt_bottom
      have h₃ := h.top_le
      have h₄ := h.lt_bottom
      refine ⟨hview, ?_⟩
      rw [Bool.eq_iff_iff, visible_iff, visible_iff]
      omega
  · obtain rfl := Except.ok.inj hrun
    exact ⟨h, rfl⟩

/-- The state of `bcursor_insert_line` just before `c->pos = 0`. -/
theorem splitIf (h : View n p) (hn : 3 ≤ n) (hD : p.Distinct) (hslots : p.peers.length = maxCursorNum)
    {c : CursRef} {cur : PageCursor} (hcur : p.curs c = .ok cur) (hrow : cur.row ≤ p.last)
    (hown : p.own.row ≤ p.last) (hlast : p.last + 3 ≤ p.rows.length) {ptr : Ptr} {x : Page R}
    (hrun : runIf (sizeT cur.pos ≠ p.len cur.row) (splitLine · c) (p.newBelow cur.row ptr) = .ok x) :
    View (if x.visible (cur.row + 1) then n + 1 else n) x := by
  have hnew := h.newBelow cur.row ptr
  by_cases hsplit : sizeT cur.pos ≠ p.len cur.row
  · rw [runIf_pos hsplit] at hrun
    have hcur' : (p.newBelow cur.row ptr).curs c = .ok cur := by
      rw [newBelow_curs, hcur]
      exact congrArg Except.ok cur.mapRow_bump_self
    obtain ⟨x', hrun', -, -, q₁, hown₁, hview⟩ :=
      splitLine_spec (newBelow_distinct hD cur.row ptr) ((p.newBelow_slots cur.row ptr).trans hslots) hcur'
    obtain rfl : x' = x := Except.ok.inj (hrun'.symm.trans hrun)
    have hcurs := (p.newBelow cur.row ptr).splitText_curs cur.row cur.pos
    have hbase : View (if (p.newBelow cur.row ptr).visible (cur.row + 1) then n + 1 else n)
        ((p.newBelow cur.row ptr).splitText cur.row cur.pos) := ⟨hnew.size, hnew.top_le, hnew.lt_bottom⟩
    have hlen : ((p.newBelow cur.row ptr).splitText cur.row cur.pos).rows.length = p.rows.length + 1 := by
      rw [← p.newBelow_length ptr (show cur.row < p.rows.length by omega)]
      simp [splitText, modifyRow]
    have hown' : ((p.newBelow cur.row ptr).splitText cur.row cur.pos).own.row = bump (cur.row + 1) p.own.row :=
      congrArg PageCursor.row (Except.ok.inj (p.newBelow_curs cur.row ptr .own))
    obtain ⟨hq₁, hvis⟩ := hbase.splitOther_own (by split <;> omega)
      (distinct_congr hcurs (newBelow_distinct hD cur.row ptr)) (by rw [hlen, hown']; grind [bump])
      ((hcurs c).trans hcur') (by
        show cur.row ≠ (p.newBelow cur.row ptr).last
        rw [newBelow_last p ptr hrow]
        omega) hown₁
    have hvis' : x'.visible (cur.row + 1) = (p.newBelow cur.row ptr).visible (cur.row + 1) := by
      rw [visible, hview.top, hview.bottom]
      exact hvis
    rw [hvis']
    exact hview.view hq₁
  · rw [runIf_neg hsplit] at hrun
    exact Except.ok.inj hrun ▸ hnew

theorem insertBelow (h : View n p) (hn : 3 ≤ n) (hD : p.Distinct) (hslots : p.peers.length = maxCursorNum)
    {c : CursRef} {cur : PageCursor} (hcur : p.curs c = .ok cur) (hrow : cur.row ≤ p.last)
    (hown : p.own.row ≤ p.last) (hlast : p.last + 3 ≤ p.rows.length) (hw : p.top < p.bottom) {ptr : Ptr}
    (hrun : p.insertBelow cur.id c cur.row cur.pos ptr = .ok q) : View n q := by
  obtain ⟨x, hx, hrun⟩ := Except.bind_eq_ok.mp hrun
  have hview := h.splitIf hn hD hslots hcur hrow hown hlast hx
  obtain ⟨x', hx', hmoved, hcur', hall, -⟩ := splitIf_spec hD hslots hcur ptr hw
  obtain rfl : x' = x := Except.ok.inj (hx'.symm.trans hx)
  simp only [hcur', Except.ok_bind_eq] at hrun
  have hset := hview.setCurs hcur' (d := { cur with pos := 0 }) rfl
  have hown' : x'.own.row ≤ p.last + 1 := by
    have hto := Except.ok.inj (hall .own _ (p.newBelow_curs cur.row ptr .own))
    have hle := belowCursor_row_le p c cur ptr .own (p.own.mapRow (bump (cur.row + 1)))
    rw [hto]
    rw [PageCursor.mapRow_row] at hle
    grind [bump]
  have hlen : x'.rows.length = p.rows.length + 1 := by
    rw [hmoved.rows_length, rowsBelow_length p cur.pos ptr (by omega)]
  have hrow' : (x'.setCurs { cur with pos := 0 } c).own.row = x'.own.row := by
    cases c with
    | own => rw [Except.ok.inj hcur']; rfl
    | peer i => rfl
  have hlen' : (x'.setCurs { cur with pos := 0 } c).rows.length = p.rows.length + 1 := by
    rw [← hlen]
    cases c <;> rfl
  have htrim : View n ((x'.setCurs { cur with pos := 0 } c).trim (cur.row + 1)) := by
    cases hv : (x'.setCurs { cur with pos := 0 } c).visible (cur.row + 1) with
    | true =>
        have hv' : x'.visible (cur.row + 1) = true := by
          rw [← hv]
          cases c <;> rfl
        rw [if_pos hv'] at hset
        exact hset.trim hn hv (by rw [hrow', hlen']; omega)
    | false =>
        rw [trim_of_not_visible _ hv]
        have hv' : ¬ x'.visible (cur.row + 1) = true := by
          rw [Bool.not_eq_true, ← hv]
          cases c <;> rfl
        rwa [if_neg hv'] at hset
  refine htrim.bcursorMove hn ?_ hrun
  have hown₂ := congrArg PageCursor.row
    (Except.ok.inj (trim_curs (x'.setCurs { cur with pos := 0 } c) (cur.row + 1) .own))
  rw [hown₂, hrow', trim_rows, hlen']
  omega

/-! ## Joining rows -/

/-- A join takes the own cursor along at most to the line above. -/
theorem joinOther_own (h : View n p) (hn : 3 ≤ n) (hend : p.own.row + 3 ≤ p.rows.length) {c : CursRef}
    (hrun : p.joinOther c .own p.own = .ok q) : View n q := by
  obtain ⟨cur, -, hrun⟩ := Except.bind_eq_ok.mp hrun
  split at hrun
  · obtain ⟨x, hx, hrun⟩ := Except.bind_eq_ok.mp hrun
    obtain ⟨o, ho, hrun⟩ := Except.bind_eq_ok.mp hrun
    obtain ⟨cur', -, hrun⟩ := Except.bind_eq_ok.mp hrun
    obtain rfl := Except.ok.inj ho
    obtain rfl := Except.ok.inj hrun
    exact (h.bcursorMove hn hend hx).setOwn rfl
  · exact Except.ok.inj hrun ▸ h

theorem joinLines (h : View n p) (hn : 3 ≤ n) (hD : p.Distinct) (hslots : p.peers.length = maxCursorNum)
    (hend : p.own.row + 3 ≤ p.rows.length) {c : CursRef} {cur : PageCursor} (hcur : p.curs c = .ok cur)
    (hrun : p.joinLines c = .ok q) : View n q := by
  by_cases hfit : (Rope.writeCstr (p.strAt (cur.row + 1))).length + 1 ≤ spSize
  · obtain ⟨x, hx, -, -, q₁, hown, hview⟩ := joinLines_spec hD hslots hcur hfit
    obtain rfl : x = q := Except.ok.inj (hx.symm.trans hrun)
    obtain ⟨htop, hbottom⟩ := p.joinRows_window cur.row
    have hrow : (p.joinRows cur.row).own = p.own := Except.ok.inj (p.joinRows_curs cur.row .own)
    have hjoin : View n (p.joinRows cur.row) :=
      ⟨by rw [htop, hbottom]; exact h.size, by rw [htop, hrow]; exact h.top_le,
        by rw [hbottom, hrow]; exact h.lt_bottom⟩
    exact hview.view (hjoin.joinOther_own hn (by rw [hrow, joinRows_length]; exact hend) hown)
  · rw [joinLines_overflow hcur hfit] at hrun
    cases hrun

/-! ## Taking a row out -/

omit [Rope R] in
/-- Where the window is after a row was taken out. -/
theorem leaveErase (h : View n p) {k : Nat} (h0 : 0 < k) (hown : p.own.row ≠ k) :
    View (if p.top < k ∧ k < p.bottom then n - 1 else n) ((p.leaveMarks k).eraseRow k) := by
  obtain ⟨hsize, htop, hbottom⟩ := h
  have h₁ : ((p.leaveMarks k).eraseRow k).top = unbump k (if p.top = k then k - 1 else p.top) := rfl
  have h₂ : ((p.leaveMarks k).eraseRow k).bottom = unbump k (if p.bottom = k then k + 1 else p.bottom) := rfl
  have h₃ : ((p.leaveMarks k).eraseRow k).own.row = unbump k p.own.row := rfl
  constructor
  · rw [h₁, h₂]
    grind [unbump]
  · rw [h₁, h₃]
    grind [unbump]
  · rw [h₂, h₃]
    grind [unbump]

omit [Rope R] in
theorem scrollFromOwn (h : View n p) : View n p.scrollFromOwn := by
  unfold Page.scrollFromOwn
  dsimp only
  split <;> split
  · exact (h.scroll .down).scroll .up
  · exact h.scroll .down
  · exact h.scroll .up
  · exact h

omit [Rope R] in
/-- Extending makes the window longer, except at the end of the chain. -/
theorem extend (h : View n p) {k : Nat} (hrun : p.extend k = .ok q) :
    View (n + 1) q ∨ View n q ∧ ¬ p.bottom + 1 < p.rows.length := by
  obtain ⟨top, bottom, rfl, hor⟩ := extend_eq hrun
  obtain ⟨hsize, htop, hbottom⟩ := h
  rcases hor with ⟨-, -, rfl, rfl⟩ | ⟨h0, -, rfl, rfl⟩ | ⟨hlt, -, rfl, rfl⟩
  · left
    refine scrollFromOwn ⟨?_, ?_, ?_⟩ <;> simp only <;> omega
  · left
    refine scrollFromOwn ⟨?_, ?_, ?_⟩ <;> simp only <;> omega
  · right
    exact ⟨scrollFromOwn ⟨hsize, htop, hbottom⟩, hlt⟩

/-- A deletion leaves the window at least as long as it was, except at the end of the chain. -/
theorem deletel (h : View n p) {k : Nat} (h0 : 0 < k) (hnone : ∀ ref c, p.curs ref = .ok c → c.row ≠ k)
    (hrun : p.deletel k = .ok q) :
    ∃ m, View m q ∧ (n ≤ m ∨ m + 1 = n ∧ p.visible k = true ∧ ¬ p.bottom + 1 < p.rows.length) := by
  obtain ⟨x, hx, -, hcurs, -, rfl⟩ := deletel_ok hnone hrun
  have hown : x.own.row ≠ k := hnone .own x.own ((hcurs .own).symm.trans x.curs_own)
  by_cases hv : p.visible k = true
  · rw [runIf_pos hv] at hx
    rcases h.extend hx with hx | ⟨hx, hlt⟩
    · refine ⟨_, hx.leaveErase h0 hown, .inl ?_⟩
      split <;> omega
    · refine ⟨_, hx.leaveErase h0 hown, ?_⟩
      have := hx.size
      have := hx.lt_bottom
      have := hx.top_le
      split
      · exact .inr ⟨by omega, hv, hlt⟩
      · exact .inl (Nat.le_refl n)
  · rw [runIf_neg hv] at hx
    obtain rfl := Except.ok.inj hx
    refine ⟨_, h.leaveErase h0 hown, .inl ?_⟩
    rw [visible_iff] at hv
    split <;> omega

omit [Rope R] in
/-- Where a row of the window is after the window was extended for its deletion. -/
theorem extend_inside (h : View n p) (hn : 3 ≤ n) {k : Nat} (hv : p.visible k = true) (h0 : 0 < k)
    (hlt : p.bottom + 1 < p.rows.length) (hflag : k < p.own.row → p.notAbove k = false)
    (hrun : p.extend k = .ok q) : (q.top < k ∧ k < q.bottom) ↔ ¬ p.Stretches k := by
  obtain ⟨top, bottom, rfl, hor⟩ := extend_eq hrun
  obtain ⟨hsize, htop, hbottom⟩ := h
  rw [visible_iff] at hv
  simp only [Page.scrollFromOwn, Page.scroll, Stretches]
  rcases hor with ⟨-, habove, rfl, rfl⟩ | ⟨htop0, habove, rfl, rfl⟩ | ⟨hlt', -⟩
  · grind
  · grind
  · exact absurd hlt hlt'

/-- Otherwise the deletion keeps the window as long as it was. -/
theorem deletel_exact (h : View n p) (hn : 3 ≤ n) {k : Nat} (h0 : 0 < k)
    (hnone : ∀ ref c, p.curs ref = .ok c → c.row ≠ k)
    (hlt : p.visible k = true → p.bottom + 1 < p.rows.length)
    (hflag : k < p.own.row → p.notAbove k = false) (hrun : p.deletel k = .ok q) :
    View (if p.Stretches k then n + 1 else n) q := by
  obtain ⟨x, hx, -, hcurs, -, rfl⟩ := deletel_ok hnone hrun
  have hown : x.own.row ≠ k := hnone .own x.own ((hcurs .own).symm.trans x.curs_own)
  by_cases hv : p.visible k = true
  · rw [runIf_pos hv] at hx
    have hinside := h.extend_inside hn hv h0 (hlt hv) hflag hx
    rcases h.extend hx with hview | ⟨-, hlt'⟩
    · have herase := hview.leaveErase h0 hown
      by_cases hs : p.Stretches k
      · rw [if_neg (fun hin => hinside.mp hin hs)] at herase
        rwa [if_pos hs]
      · rw [if_pos (hinside.mpr hs)] at herase
        rwa [if_neg hs]
    · exact absurd (hlt hv) hlt'
  · rw [runIf_neg hv] at hx
    obtain rfl := Except.ok.inj hx
    have herase := h.leaveErase h0 hown
    rw [visible_iff] at hv
    have := h.lt_bottom
    have := h.top_le
    rw [if_neg (by omega)] at herase
    rwa [if_neg]
    rintro ⟨rfl, -⟩
    omega

end View

end Page

end CoEditor
