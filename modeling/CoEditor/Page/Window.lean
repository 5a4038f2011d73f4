-- SUMMARY: Scrolling, trimming and extending the window act on a buffer as they do on its page.
import CoEditor.Page.Rep

/-!
# The window of a page

Each of the four moves of a window edge touches one flag, and `scroll`, `trim`
and `extend` are made of them. They keep to the page as long as the window is
not shrunk to nothing, which `Rep` rules out.
-/

namespace CoEditor

variable {R : Type}

/-- The memory of `b` is laid out as `p` says, and the window is not empty. -/
structure Rep (b : Buffer R) (p : Page R) : Prop extends Layout b p where
  window : p.top ≤ p.bottom

namespace Layout

variable {b : Buffer R} {p : Page R}

/-! ## Moving an edge of the window -/

theorem raiseBottom (h : Layout b p) (h0 : 0 < p.bottom) :
    ∃ b', b.raiseBottom = .ok b' ∧ Layout b' { p with bottom := p.bottom - 1 } := by
  obtain ⟨r, hr⟩ := Page.exists_row h.bottom_lt
  have hlt := h.bottom_lt
  have hset := h.setWindow p.top (p.bottom - 1) hr h.top_lt (by omega) (by
    intro i hi
    rw [Bool.eq_iff_iff, Page.visible_iff, Page.visible_iff]
    simp only
    omega)
  have hoff : ({ p with top := p.top, bottom := p.bottom - 1 } : Page R).visible p.bottom = false := by
    rw [Bool.eq_false_iff, Ne, Page.visible_iff]
    simp only
    omega
  have hprev : prevAt p.ptrs p.bottom = p.ptrs[p.bottom - 1]? := by simp [prevAt, Nat.ne_of_gt h0]
  rw [hoff, ← h.top, ← hprev] at hset
  refine ⟨_, ?_, hset⟩
  simp [Buffer.raiseBottom, h.bottom, Page.ptrs_of_row hr, Buffer.modifyLineAt, Buffer.lineAt,
    h.modifyLine hr, Buffer.line, Heap.get?_set_self (h.cell _ r hr), Page.lineOf]

theorem lowerTop (h : Layout b p) (h1 : p.top + 1 < p.rows.length) :
    ∃ b', b.lowerTop = .ok b' ∧ Layout b' { p with top := p.top + 1 } := by
  obtain ⟨r, hr⟩ := Page.exists_row h.top_lt
  have hset := h.setWindow (p.top + 1) p.bottom hr h1 h.bottom_lt (by
    intro i hi
    rw [Bool.eq_iff_iff, Page.visible_iff, Page.visible_iff]
    simp only
    omega)
  have hoff : ({ p with top := p.top + 1, bottom := p.bottom } : Page R).visible p.top = false := by
    rw [Bool.eq_false_iff, Ne, Page.visible_iff]
    simp only
    omega
  rw [hoff, ← h.bottom] at hset
  refine ⟨_, ?_, hset⟩
  simp [Buffer.lowerTop, h.top, Page.ptrs_of_row hr, Buffer.modifyLineAt, Buffer.lineAt,
    h.modifyLine hr, Buffer.line, Heap.get?_set_self (h.cell _ r hr), Page.lineOf]

theorem raiseTop (h : Layout b p) (hw : p.top ≤ p.bottom + 1) (h0 : 0 < p.top) :
    ∃ b', b.raiseTop = .ok b' ∧ Layout b' { p with top := p.top - 1 } := by
  obtain ⟨r, hr⟩ := Page.exists_row h.top_lt
  have hlt := h.top_lt
  obtain ⟨s, hs⟩ := Page.exists_row (p := p) (i := p.top - 1) (by omega)
  have hset := h.setWindow (p.top - 1) p.bottom hs (by omega) h.bottom_lt (by
    intro i hi
    rw [Bool.eq_iff_iff, Page.visible_iff, Page.visible_iff]
    simp only
    omega)
  have hon : ({ p with top := p.top - 1, bottom := p.bottom } : Page R).visible (p.top - 1) = true := by
    rw [Page.visible_iff]
    simp only
    omega
  have hprev : prevAt p.ptrs p.top = p.ptrs[p.top - 1]? := by simp [prevAt, Nat.ne_of_gt h0]
  rw [hon, ← h.bottom] at hset
  refine ⟨_, ?_, hset⟩
  have hline : ({ b with top := some s.ptr } : Buffer R).line s.ptr =
      .ok (p.lineOf (p.top - 1) s) := h.line hs
  simp [Buffer.raiseTop, h.top, Page.ptrs_of_row hr, Buffer.lineAt, h.line hr, Page.lineOf, hprev,
    Page.ptrs_of_row hs, Buffer.modifyLineAt, Buffer.modifyLine, hline]

theorem lowerBottom (h : Layout b p) (hw : p.top ≤ p.bottom + 1) (h1 : p.bottom + 1 < p.rows.length) :
    ∃ b', b.lowerBottom = .ok b' ∧ Layout b' { p with bottom := p.bottom + 1 } := by
  obtain ⟨r, hr⟩ := Page.exists_row h.bottom_lt
  obtain ⟨s, hs⟩ := Page.exists_row h1
  have hset := h.setWindow p.top (p.bottom + 1) hs h.top_lt h1 (by
    intro i hi
    rw [Bool.eq_iff_iff, Page.visible_iff, Page.visible_iff]
    simp only
    omega)
  have hon : ({ p with top := p.top, bottom := p.bottom + 1 } : Page R).visible (p.bottom + 1) = true := by
    rw [Page.visible_iff]
    simp only
    omega
  rw [hon, ← h.top] at hset
  refine ⟨_, ?_, hset⟩
  have hline : ({ b with bottom := some s.ptr } : Buffer R).line s.ptr =
      .ok (p.lineOf (p.bottom + 1) s) := h.line hs
  simp [Buffer.lowerBottom, h.bottom, Page.ptrs_of_row hr, Buffer.lineAt, h.line hr, Page.lineOf,
    Page.ptrs_of_row hs, Buffer.modifyLineAt, Buffer.modifyLine, hline]

/-- A mark points to the line of row `j` exactly when it is at `j`. -/
theorem mark_eq (h : Layout b p) {i j : Nat} {r : Row R} (hi : i < p.rows.length)
    (hr : p.rows[j]? = some r) : p.ptrs[i]? = some r.ptr ↔ i = j := by
  rw [← Page.ptrs_of_row hr, h.ptr_inj hi]

theorem prev_eq_none {i : Nat} (hi : i < p.rows.length) : prevAt p.ptrs i = none ↔ i = 0 := by
  cases i with
  | zero => simp
  | succ i => simp; omega

theorem next_eq_none {i : Nat} (hi : i < p.rows.length) :
    p.ptrs[i + 1]? = none ↔ i + 1 = p.rows.length := by
  simp
  omega

theorem own_ok (h : Layout b p) : ∃ r, p.rows[p.own.row]? = some r ∧
    b.own = .ok ⟨p.own.id, r.ptr, p.own.pos⟩ := by
  obtain ⟨r, hr⟩ := Page.exists_row (h.curs_lt .own p.own rfl)
  exact ⟨r, hr, by simp [Buffer.own, h.own, Page.cursor_of_row hr]⟩

end Layout

/-! ## Scrolling, trimming, extending -/

namespace Rep

variable {b : Buffer R} {p : Page R}

theorem scroll (h : Rep b p) (dir : CmoveDir) : Sim Rep (bufferScroll b dir) (.ok (p.scroll dir)) := by
  obtain ⟨o, ho, hown⟩ := h.own_ok
  obtain ⟨t, ht⟩ := Page.exists_row h.top_lt
  obtain ⟨m, hm⟩ := Page.exists_row h.bottom_lt
  have hw := h.window
  have hn := h.bottom_lt
  cases dir with
  | up =>
      simp only [bufferScroll, Page.scroll, h.bottom, h.top, h.lineAt hm, h.lineAt ht, hown,
        Except.ok_bind_eq, Page.lineOf, Layout.prev_eq_none h.bottom_lt,
        Layout.prev_eq_none h.top_lt]
      by_cases hb0 : p.bottom = 0
      · simp only [hb0, true_or, if_true]
        exact .ok h
      by_cases ht0 : p.top = 0
      · simp only [hb0, ht0, true_or, or_true, if_true, if_false]
        exact .ok h
      have hown₁ : some o.ptr = p.ptrs[p.bottom]? ↔ p.own.row = p.bottom := by
        rw [← Page.ptrs_of_row ho, h.ptr_inj (Page.lt_of_row ho)]
      have hown₂ : some o.ptr = prevAt p.ptrs p.bottom ↔ p.own.row + 1 = p.bottom := by
        rw [prevAt, if_neg hb0, ← Page.ptrs_of_row ho, h.ptr_inj (Page.lt_of_row ho)]
        omega
      simp only [hb0, ht0, false_or, if_false, hown₁, hown₂]
      by_cases hedge : p.own.row = p.bottom ∨ p.own.row + 1 = p.bottom
      · simp only [hedge, if_true]
        exact .ok h
      · simp only [hedge, if_false]
        refine Sim.bind_ok (.of_exists (h.raiseBottom (by omega))) fun b₁ h₁ => ?_
        refine .of_exists ?_
        obtain ⟨b₂, hb₂, h₂⟩ := h₁.raiseTop (by simp only; omega) (by simp only; omega)
        exact ⟨b₂, hb₂, { h₂ with window := by simp only; omega }⟩
  | down =>
      simp only [bufferScroll, Page.scroll, h.bottom, h.top, h.lineAt hm, h.lineAt ht, hown,
        Except.ok_bind_eq, Page.lineOf, Layout.next_eq_none h.bottom_lt,
        Layout.next_eq_none h.top_lt]
      by_cases ht1 : p.top + 1 = p.rows.length
      · simp only [ht1, true_or, if_true]
        exact .ok h
      by_cases hb1 : p.bottom + 1 = p.rows.length
      · simp only [hb1, ht1, true_or, or_true, if_true, if_false]
        exact .ok h
      have hown₁ : some o.ptr = p.ptrs[p.top]? ↔ p.own.row = p.top := by
        rw [← Page.ptrs_of_row ho, h.ptr_inj (Page.lt_of_row ho)]
      have hown₂ : some o.ptr = p.ptrs[p.top + 1]? ↔ p.own.row = p.top + 1 := by
        rw [← Page.ptrs_of_row ho, h.ptr_inj (Page.lt_of_row ho)]
      simp only [hb1, ht1, false_or, if_false, hown₁, hown₂]
      by_cases hedge : p.own.row = p.top ∨ p.own.row = p.top + 1
      · simp only [hedge, if_true]
        exact .ok h
      · simp only [hedge, if_false]
        refine Sim.bind_ok (.of_exists (h.lowerTop (by omega))) fun b₁ h₁ => ?_
        refine .of_exists ?_
        obtain ⟨b₂, hb₂, h₂⟩ := h₁.lowerBottom (by simp only; omega) (by simp only; omega)
        exact ⟨b₂, hb₂, { h₂ with window := by simp only; omega }⟩
  | left => exact .ok h
  | right => exact .ok h

theorem scrollFromOwn (h : Rep b p) : Sim Rep (CoEditor.scrollFromOwn b) (.ok p.scrollFromOwn) := by
  obtain ⟨o, ho, hown⟩ := h.own_ok
  unfold CoEditor.scrollFromOwn Page.scrollFromOwn
  rw [hown, Except.ok_bind_eq]
  refine Sim.bind_ok (Sim.runIf_ok (d := p.bottom = p.own.row) ?_ h fun _ => h.scroll .down) fun b₁ h₁ => ?_
  · rw [h.bottom, h.mark_eq h.bottom_lt ho]
  · have hrows : (if p.bottom = p.own.row then p.scroll .down else p).rows = p.rows := by
      split <;> simp
    have hown₁ : (if p.bottom = p.own.row then p.scroll .down else p).own = p.own := by
      split <;> simp
    refine .runIf_ok ?_ h₁ fun _ => h₁.scroll .up
    rw [h₁.top, h₁.mark_eq h₁.top_lt (by rw [hrows]; exact ho), hown₁]

theorem trim (h : Rep b p) {k : Nat} {r : Row R} (hr : p.rows[k]? = some r) (hw : p.top < p.bottom) :
    Sim Rep (bufferTrim b r.ptr) (.ok (p.trim k)) := by
  obtain ⟨o, ho, hown⟩ := h.own_ok
  have hn := h.bottom_lt
  have hbottom : b.bottom = some o.ptr ↔ p.bottom = p.own.row := by
    rw [h.bottom, h.mark_eq h.bottom_lt ho]
  have htop : b.top = some o.ptr ↔ p.top = p.own.row := by
    rw [h.top, h.mark_eq h.top_lt ho]
  have hraise : Sim Rep b.raiseBottom (.ok { p with bottom := p.bottom - 1 }) := by
    obtain ⟨b', hb', h'⟩ := h.raiseBottom (by omega)
    exact .of_exists ⟨b', hb', { h' with window := by simp only; omega }⟩
  have hlower : Sim Rep b.lowerTop (.ok { p with top := p.top + 1 }) := by
    obtain ⟨b', hb', h'⟩ := h.lowerTop (by omega)
    exact .of_exists ⟨b', hb', { h' with window := by simp only; omega }⟩
  simp only [bufferTrim, Page.trim, h.line hr, Page.lineOf, hown, Except.ok_bind_eq, Page.notAbove, hr,
    Option.any_some]
  by_cases hv : p.visible k = true
  · simp only [hv, if_true, Bool.true_eq_false, if_false]
    refine Sim.bind_ok ?_ fun b₁ h₁ => scrollFromOwn h₁
    cases hwhere : r.where_ <;> simp [hbottom, htop] <;> split <;> assumption
  · simp only [hv, if_true]
    exact .ok h

theorem extend (h : Rep b p) {k : Nat} {r : Row R} (hr : p.rows[k]? = some r) :
    Sim Rep (bufferExtend b r.ptr) (p.extend k) := by
  obtain ⟨t, ht⟩ := Page.exists_row h.top_lt
  obtain ⟨m, hm⟩ := Page.exists_row h.bottom_lt
  have hw := h.window
  have hn := h.bottom_lt
  have hlower (h1 : p.bottom + 1 < p.rows.length) :
      Sim Rep b.lowerBottom (.ok { p with bottom := p.bottom + 1 }) := by
    obtain ⟨b', hb', h'⟩ := h.lowerBottom (by omega) h1
    exact .of_exists ⟨b', hb', { h' with window := by simp only; omega }⟩
  have hraise (h0 : p.top ≠ 0) : Sim Rep b.raiseTop (.ok { p with top := p.top - 1 }) := by
    obtain ⟨b', hb', h'⟩ := h.raiseTop (by omega) (by omega)
    exact .of_exists ⟨b', hb', { h' with window := by simp only; omega }⟩
  -- behind the last line of the chain there is nothing to come on the screen
  have hend (h1 : p.bottom + 1 = p.rows.length) : b.lowerBottom = .error .nullDeref := by
    have hnext : p.ptrs[p.bottom + 1]? = none := (Layout.next_eq_none hn).mpr h1
    simp [Buffer.lowerBottom, h.bottom, h.lineAt hm, Page.lineOf, hnext, Buffer.modifyLineAt]
  simp only [bufferExtend, Page.extend, h.line hr, Page.lineOf, Except.ok_bind_eq, Page.notAbove, hr,
    Option.any_some, h.bottom, h.lineAt hm, h.top, h.lineAt ht, Layout.prev_eq_none h.top_lt,
    Layout.next_eq_none hn, ne_eq]
  refine Sim.bind ?_ fun b₁ p₁ h₁ => scrollFromOwn h₁
  by_cases hwhere : r.where_ = .above
  · simp only [hwhere, reduceCtorEq, or_self, if_false, not_true, decide_false, Bool.false_eq_true]
    by_cases h0 : p.top = 0
    · simp only [h0, not_true, if_false, Page.lowerBottom]
      by_cases h1 : p.bottom + 1 < p.rows.length
      · simpa only [h1, if_true, h0] using hlower h1
      · simp only [h1, if_false, hend (by omega)]
        exact .error
    · simpa only [h0, not_false_eq_true, if_true, Except.pure_eq_ok] using hraise h0
  · have hbelow : r.where_ = .same ∨ r.where_ = .bellow := by
      cases hrw : r.where_ <;> simp_all
    simp only [hbelow, hwhere, if_true, not_false_eq_true, decide_true]
    by_cases h1 : p.bottom + 1 < p.rows.length
    · simpa only [h1, Nat.ne_of_lt h1, not_false_eq_true, if_true, Except.pure_eq_ok] using hlower h1
    · have h2 : p.bottom + 1 = p.rows.length := by omega
      simp only [h2, Nat.lt_irrefl, not_true, if_false]
      exact .ok h

end Rep

end CoEditor
