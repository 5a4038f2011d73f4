-- SUMMARY: Finding and moving cursors act on a buffer as they do on its page.
import CoEditor.Page.Splice

/-!
# Cursors of a page

A cursor of the buffer and its cursor on the page have the same id and column,
and the pointer of the one leads to the row of the other.
-/

namespace CoEditor

variable {R : Type}

/-- A search only looks at the elements of the list. -/
theorem findIdx?_congr {α : Type} {f g : α → Bool} {l : List α} (hfg : ∀ x ∈ l, f x = g x) :
    l.findIdx? f = l.findIdx? g := by
  induction l with
  | nil => rfl
  | cons x l ih =>
      rw [List.findIdx?_cons, List.findIdx?_cons, hfg x (by simp), ih fun y hy => hfg y (by simp [hy])]

theorem Marks.setCurs {b : Buffer R} {p : Page R} (h : Marks b p) {c : Cursor} {c' : PageCursor}
    (hc : p.cursor c' = some c) (ref : CursRef) : Marks (b.setCurs c ref) (p.setCurs c' ref) := by
  have hrow : c'.row < p.rows.length := by
    obtain ⟨q, hq, -⟩ := Option.map_eq_some_iff.mp hc
    simpa using (List.getElem?_eq_some_iff.mp hq).1
  have hcurs_lt : ∀ ref' d, (p.setCurs c' ref).curs ref' = .ok d → d.row < p.rows.length := by
    intro ref' d hd
    rcases Page.setCurs_curs hd with rfl | hd
    · exact hrow
    · exact h.curs_lt ref' d hd
  cases ref with
  | own => exact { h with own := hc.symm, curs_lt := hcurs_lt }
  | peer i =>
      exact
        { h with
          peers := by
            show b.peerCurss.set i _ = (p.peers.set i (some c')).map (·.bind p.cursor)
            rw [h.peers, List.map_set, Option.bind_some, hc]
          curs_lt := hcurs_lt }

namespace Layout

variable {b : Buffer R} {p : Page R}

/-! ## Finding -/

theorem cursor_row {c : Cursor} {c' : PageCursor} (hc : p.cursor c' = some c) :
    ∃ r, p.rows[c'.row]? = some r ∧ c = ⟨c'.id, r.ptr, c'.pos⟩ := by
  rw [Page.cursor, Page.ptrs_getElem?, Option.map_map, Option.map_eq_some_iff] at hc
  obtain ⟨r, hr, rfl⟩ := hc
  exact ⟨r, hr, rfl⟩

theorem curs (h : Layout b p) (ref : CursRef) :
    Sim (fun c c' => p.cursor c' = some c) (b.curs ref) (p.curs ref) := by
  cases ref with
  | own =>
      obtain ⟨r, hr, hown⟩ := h.own_ok
      rw [Buffer.curs, hown]
      exact .ok (Page.cursor_of_row hr)
  | peer i =>
      simp only [Buffer.curs, Page.curs, h.peers, List.getElem?_map]
      cases hi : p.peers[i]? with
      | none => exact .error
      | some o =>
          cases o with
          | none => exact .error
          | some c =>
              have hlt := h.curs_lt (.peer i) c (by simp [Page.curs, hi])
              obtain ⟨r, hr⟩ := Page.exists_row hlt
              simp only [Option.map_some, Option.join_some, Option.bind_some, Page.cursor_of_row hr]
              exact .ok (Page.cursor_of_row hr)

theorem curs_ok (h : Layout b p) {ref : CursRef} {c' : PageCursor} (hc : p.curs ref = .ok c') :
    ∃ c, b.curs ref = .ok c ∧ p.cursor c' = some c := by
  have hsim := h.curs ref
  rw [hc] at hsim
  exact hsim.of_ok_right

theorem bcursorFind (h : Layout b p) (id : Int) : CoEditor.bcursorFind b id = .ok (p.find id) := by
  obtain ⟨r, hr, hown⟩ := h.own_ok
  simp only [CoEditor.bcursorFind, hown, Except.ok_bind_eq, Page.find]
  have hpeers : (b.peerCurss.findIdx? fun o => o.any fun c => c.id = id) =
      p.peers.findIdx? fun o => o.any fun c => c.id = id := by
    rw [h.peers, List.findIdx?_map]
    refine findIdx?_congr fun o ho => ?_
    cases o with
    | none => rfl
    | some c =>
        obtain ⟨i, hi⟩ := List.getElem?_of_mem ho
        obtain ⟨r, hr⟩ := Page.exists_row (h.curs_lt (.peer i) c (Page.curs_peer.mpr hi))
        simp [Page.cursor_of_row hr]
  rw [hpeers]
  split <;> rfl

theorem setCurs (h : Layout b p) {c : Cursor} {c' : PageCursor} (hc : p.cursor c' = some c)
    (ref : CursRef) : Layout (b.setCurs c ref) (p.setCurs c' ref) :=
  { h.toMarks.setCurs hc ref with
    nodup := by cases ref <;> exact h.nodup
    cell := by cases ref <;> exact h.cell }

/-! ## Moving -/

/-- A row has a line before it exactly when it is not the first. -/
theorem prev_cases {i : Nat} (hi : i < p.rows.length) :
    (i = 0 ∧ prevAt p.ptrs i = none) ∨
      ∃ s, i ≠ 0 ∧ p.rows[i - 1]? = some s ∧ prevAt p.ptrs i = some s.ptr := by
  cases i with
  | zero => exact .inl ⟨rfl, rfl⟩
  | succ j =>
      obtain ⟨s, hs⟩ := Page.exists_row (show j < p.rows.length by omega)
      exact .inr ⟨s, by omega, hs, by rw [prevAt_succ, Page.ptrs_of_row hs]⟩

theorem next_cases {i : Nat} (hi : i < p.rows.length) :
    (¬ i + 1 < p.rows.length ∧ p.ptrs[i + 1]? = none) ∨
      ∃ s, i + 1 < p.rows.length ∧ p.rows[i + 1]? = some s ∧ p.ptrs[i + 1]? = some s.ptr := by
  by_cases hlt : i + 1 < p.rows.length
  · obtain ⟨s, hs⟩ := Page.exists_row hlt
    exact .inr ⟨s, hlt, hs, Page.ptrs_of_row hs⟩
  · exact .inl ⟨hlt, (next_eq_none hi).mpr (by omega)⟩

variable [Rope R]

theorem len_of_row {i : Nat} {r : Row R} (hr : p.rows[i]? = some r) :
    p.len i = Rope.charCount r.str := by simp [Page.len, hr]

theorem cursorMove (h : Layout b p) {c : Cursor} {c' : PageCursor} (hc : p.cursor c' = some c)
    (dir : CmoveDir) :
    Sim (fun x y => p.cursor y.1 = some x.1 ∧ x.2 = y.2) (CoEditor.cursorMove b c dir)
      (.ok (p.cursorMove c' dir)) := by
  obtain ⟨r, hr, rfl⟩ := cursor_row hc
  have hlt := Page.lt_of_row hr
  have hfirst : r.ptr = b.first ↔ c'.row = 0 := by
    obtain ⟨f, hf, hb⟩ := h.first_row
    rw [hb, h.row_ptr_inj hr hf]
  have hlast : some r.ptr = b.last ↔ c'.row = p.last := by
    rw [h.last, eq_comm, h.mark_eq h.last_lt hr, eq_comm]
  cases dir with
  | up =>
      simp only [CoEditor.cursorMove, Page.cursorMove, h.line hr, Except.ok_bind_eq, Page.lineOf, hfirst, ne_eq]
      rcases prev_cases hlt with ⟨h0, hprev⟩ | ⟨s, h0, hs, hprev⟩
      · simp only [h0, not_true, if_false]
        exact .ok ⟨hc, rfl⟩
      · simp only [hprev, h0, not_false_eq_true, if_true, h.line hs, Except.ok_bind_eq, Page.lineOf]
        exact .ok ⟨by rw [Page.cursor_of_row hs]; simp [Page.cut, len_of_row hs], rfl⟩
  | down =>
      simp only [CoEditor.cursorMove, Page.cursorMove, h.line hr, Except.ok_bind_eq, Page.lineOf, hlast, ne_eq]
      rcases next_cases hlt with ⟨h1, hnext⟩ | ⟨s, h1, hs, hnext⟩
      · simp only [hnext, h1, false_and, if_false]
        exact .ok ⟨hc, rfl⟩
      · by_cases hl : c'.row = p.last
        · simp only [hnext, h1, true_and]
          simp only [hl, not_true, if_false]
          exact .ok ⟨hc, rfl⟩
        · simp only [hnext, h1, hl, not_false_eq_true, and_self, if_true, h.line hs, Except.ok_bind_eq, Page.lineOf]
          exact .ok ⟨by rw [Page.cursor_of_row hs]; simp [Page.cut, len_of_row hs], rfl⟩
  | left =>
      simp only [CoEditor.cursorMove, Page.cursorMove, h.line hr, Except.ok_bind_eq, Page.lineOf, hfirst, ne_eq]
      by_cases hpos : 0 < c'.pos
      · simp only [hpos, if_true]
        exact .ok ⟨Page.cursor_of_row hr, rfl⟩
      · simp only [hpos, if_false]
        rcases prev_cases hlt with ⟨h0, hprev⟩ | ⟨s, h0, hs, hprev⟩
        · simp only [h0, not_true, if_false]
          exact .ok ⟨hc, rfl⟩
        · simp only [hprev, h0, not_false_eq_true, if_true, h.line hs, Except.ok_bind_eq, Page.lineOf]
          exact .ok ⟨by rw [Page.cursor_of_row hs]; simp [len_of_row hs], rfl⟩
  | right =>
      simp only [CoEditor.cursorMove, Page.cursorMove, h.line hr, Except.ok_bind_eq, Page.lineOf, hlast, ne_eq,
        len_of_row hr]
      by_cases hpos : sizeT c'.pos < Rope.charCount r.str
      · simp only [hpos, if_true]
        exact .ok ⟨Page.cursor_of_row hr, rfl⟩
      · simp only [hpos, if_false]
        rcases next_cases hlt with ⟨h1, hnext⟩ | ⟨s, h1, hs, hnext⟩
        · simp only [hnext, h1, false_and, if_false]
          exact .ok ⟨hc, rfl⟩
        · by_cases hl : c'.row = p.last
          · simp only [hnext, h1, true_and]
            simp only [hl, not_true, if_false]
            exact .ok ⟨hc, rfl⟩
          · simp only [hnext, h1, hl, not_false_eq_true, and_self, if_true, h.line hs, Except.ok_bind_eq]
            exact .ok ⟨Page.cursor_of_row hs, rfl⟩

end Layout

/-! ## Scrolling along -/

namespace Page

variable [Rope R]

theorem cursorMove_aUp {p : Page R} {c : PageCursor} {dir : CmoveDir}
    (h : (p.cursorMove c dir).2 = .aUp) : (p.cursorMove c dir).1.row + 1 = c.row := by
  cases dir <;> simp only [cursorMove] at h ⊢ <;> grind

theorem cursorMove_aDown {p : Page R} {c : PageCursor} {dir : CmoveDir}
    (h : (p.cursorMove c dir).2 = .aDown) : (p.cursorMove c dir).1.row = c.row + 1 := by
  cases dir <;> simp only [cursorMove] at h ⊢ <;> grind

end Page

namespace Rep

variable {b : Buffer R} {p : Page R}

theorem setCurs (h : Rep b p) {c : Cursor} {c' : PageCursor} (hc : p.cursor c' = some c)
    (ref : CursRef) : Rep (b.setCurs c ref) (p.setCurs c' ref) :=
  { h.toLayout.setCurs hc ref with
    window := by cases ref <;> exact h.window }

theorem modifyRow (h : Rep b p) {k : Nat} {r : Row R} (hr : p.rows[k]? = some r)
    {f : Line R → Line R} (g : Row R → Row R) (hg : ∀ r, (g r).ptr = r.ptr)
    (hfg : f (p.lineOf k r) = p.lineOf k (g r)) :
    Sim Rep (b.modifyLine r.ptr f) (.ok (p.modifyRow k g)) := by
  refine .of_exists ⟨_, h.modifyLine hr f, ?_⟩
  rw [hfg]
  exact { h.setRow hr g hg with window := h.window }

theorem modifyRow_rows (p : Page R) {k : Nat} (g : Row R → Row R) {r : Row R}
    (hr : p.rows[k]? = some r) : (p.modifyRow k g).rows[k]? = some (g r) := by
  simp [Page.modifyRow, hr]

theorem modifyRow_rows_ne (p : Page R) {k i : Nat} (g : Row R → Row R) (hik : k ≠ i) :
    (p.modifyRow k g).rows[i]? = p.rows[i]? := by
  simp [Page.modifyRow, hik]

theorem noteUp (h : Rep b p) {row : Nat} {r : Row R} (hr : p.rows[row]? = some r)
    (hnext : row + 1 < p.rows.length) : Sim Rep (CoEditor.noteUp b r.ptr) (.ok (p.noteUp row)) := by
  obtain ⟨s, hs⟩ := Page.exists_row hnext
  simp only [CoEditor.noteUp, h.line hr, Except.ok_bind_eq, Page.lineOf, Page.ptrs_of_row hs,
    Buffer.modifyLineAt]
  refine (h.modifyRow hs ({ · with where_ := .bellow }) (fun _ => rfl) rfl).bind_ok fun b₁ h₁ => ?_
  refine h₁.modifyRow ?_ ({ · with where_ := .same }) (fun _ => rfl) rfl
  rw [modifyRow_rows_ne _ _ (by omega)]
  exact hr

theorem noteDown (h : Rep b p) {row : Nat} {r : Row R} (hr : p.rows[row]? = some r)
    (hprev : 0 < row) : Sim Rep (CoEditor.noteDown b r.ptr) (.ok (p.noteDown row)) := by
  rcases Layout.prev_cases (Page.lt_of_row hr) with ⟨h0, -⟩ | ⟨s, h0, hs, hprev⟩
  · omega
  simp only [CoEditor.noteDown, h.line hr, Except.ok_bind_eq, Page.lineOf, hprev, Buffer.modifyLineAt]
  refine (h.modifyRow hs ({ · with where_ := .above }) (fun _ => rfl) rfl).bind_ok fun b₁ h₁ => ?_
  refine h₁.modifyRow ?_ ({ · with where_ := .same }) (fun _ => rfl) rfl
  rw [modifyRow_rows_ne _ _ (by omega)]
  exact hr

theorem scrollBefore (h : Rep b p) (c : CursRef) {row : Nat} {r : Row R}
    (hr : p.rows[row]? = some r) :
    Sim Rep (CoEditor.scrollBefore b c r.ptr) (.ok (p.scrollBefore c row)) := by
  unfold CoEditor.scrollBefore Page.scrollBefore
  by_cases hc : c = .own
  · simp only [hc, if_true]
    refine Sim.bind_ok (Sim.runIf_ok (d := p.top = row) ?_ h fun _ => h.scroll .up) fun b₁ h₁ => ?_
    · rw [h.top, h.mark_eq h.top_lt hr]
    · refine .runIf_ok ?_ h₁ fun _ => h₁.scroll .down
      have hrows : (if p.top = row then p.scroll .up else p).rows = p.rows := by split <;> simp
      rw [h₁.bottom, h₁.mark_eq h₁.bottom_lt (by rw [hrows]; exact hr)]
  · simp only [hc, if_false]
    exact .ok h

theorem scrollAfter (h : Rep b p) (c : CursRef) {row : Nat} {r : Row R}
    (hr : p.rows[row]? = some r) {res : CmoveRes} (hup : res = .aUp → row + 1 < p.rows.length)
    (hdown : res = .aDown → 0 < row) :
    Sim Rep (CoEditor.scrollAfter b c r.ptr res) (.ok (p.scrollAfter c row res)) := by
  unfold CoEditor.scrollAfter Page.scrollAfter
  by_cases hc : c = .own
  · simp only [hc, if_true]
    refine Sim.bind_ok (Sim.runIf_ok (d := res = .aUp ∧ p.top = row) ?_ h fun _ => h.scroll .up)
      fun b₁ h₁ => ?_
    · rw [h.top, h.mark_eq h.top_lt hr]
    generalize hp₁ : (if res = .aUp ∧ p.top = row then p.scroll .up else p) = p₁ at h₁ ⊢
    have hrows₁ : p₁.rows = p.rows := by subst hp₁; split <;> simp
    refine Sim.bind_ok (Sim.runIf_ok (d := res = .aDown ∧ p₁.bottom = row) ?_ h₁
      fun _ => h₁.scroll .down) fun b₂ h₂ => ?_
    · rw [h₁.bottom, h₁.mark_eq h₁.bottom_lt (by rw [hrows₁]; exact hr)]
    generalize hp₂ : (if res = .aDown ∧ p₁.bottom = row then p₁.scroll .down else p₁) = p₂ at h₂ ⊢
    have hrows₂ : p₂.rows = p.rows := by subst hp₂; split <;> simp [hrows₁]
    refine Sim.bind_ok (Sim.runIf_ok (d := res = .aUp) Iff.rfl h₂ fun hres =>
      h₂.noteUp (by rw [hrows₂]; exact hr) (by rw [hrows₂]; exact hup hres)) fun b₃ h₃ => ?_
    refine .runIf_ok Iff.rfl h₃ fun hres => ?_
    simp only [hres, reduceCtorEq, if_false] at h₃ ⊢
    exact h₃.noteDown (by rw [hrows₂]; exact hr) (hdown hres)
  · simp only [hc, if_false]
    exact .ok h

variable [Rope R]

/-- A cursor moves, and the window with it. -/
theorem moveCurs (h : Rep b p) (ref : CursRef) {c : Cursor} {c' : PageCursor}
    (hc : p.cursor c' = some c) (dir : CmoveDir) :
    Sim (fun x q => Rep x.1 q) (CoEditor.moveCurs b ref c dir) (.ok (p.moveCurs ref c' dir)) := by
  obtain ⟨r, hr, rfl⟩ := Layout.cursor_row hc
  unfold CoEditor.moveCurs Page.moveCurs
  refine (h.scrollBefore ref hr).bind_ok fun b₁ h₁ => ?_
  generalize hp₁ : p.scrollBefore ref c'.row = p₁ at h₁ ⊢
  have hrows₁ : p₁.rows = p.rows := by subst hp₁; exact Page.scrollBefore_rows ..
  have hc₁ : p₁.cursor c' = some ⟨c'.id, r.ptr, c'.pos⟩ := Page.cursor_of_row (by rw [hrows₁]; exact hr)
  refine (h₁.cursorMove hc₁ dir).bind_ok fun x hx => ?_
  obtain ⟨hx, hres⟩ := hx
  obtain ⟨s, hs, hx₁⟩ := Layout.cursor_row hx
  have h₂ := h₁.setCurs hx ref
  have hs₂ : (p₁.setCurs (p₁.cursorMove c' dir).1 ref).rows[(p₁.cursorMove c' dir).1.row]? = some s := by
    cases ref <;> exact hs
  simp only [hx₁, hres] at h₂ ⊢
  rw [h₂.line hs₂, Except.ok_bind_eq]
  refine (h₂.scrollAfter ref hs₂ ?_ ?_).bind_left fun _ _ h₃ => .ok h₃
  · intro hup
    have := Page.cursorMove_aUp hup
    have := Page.lt_of_row (hrows₁ ▸ hr)
    cases ref <;> simp only [Page.setCurs] <;> omega
  · intro hdown
    have := Page.cursorMove_aDown hdown
    omega

theorem uiUpdate (h : Rep b p) (seen : Bool) : Rep (b.uiUpdate seen) p := by
  unfold Buffer.uiUpdate
  split
  · exact { h with }
  · exact h
  · split
    · exact { h with }
    · exact h

theorem bcursorMove (h : Rep b p) (id : Int) (dir : CmoveDir) :
    Sim (fun x q => Rep x.1 q ∧ x.2 = .update) (CoEditor.bcursorMove b id dir)
      (p.bcursorMove id dir) := by
  unfold CoEditor.bcursorMove Page.bcursorMove
  rw [h.bcursorFind id, Except.ok_bind_eq]
  refine Sim.bind (.refl (p.findCurs id)) fun ref _ hrefl => ?_
  subst hrefl
  refine (h.curs ref).bind fun c c' hc => ?_
  obtain ⟨r, hr, hcr⟩ := Layout.cursor_row hc
  have hline : b.line c.ownLine = .ok (p.lineOf c'.row r) := by rw [hcr]; exact h.line hr
  rw [hline, Except.ok_bind_eq]
  refine (h.moveCurs ref hc dir).bind_ok fun x hx => .ok ⟨hx.uiUpdate _, rfl⟩

theorem bcursorMove_fst (h : Rep b p) (id : Int) (dir : CmoveDir) :
    Sim Rep (Prod.fst <$> CoEditor.bcursorMove b id dir) (p.bcursorMove id dir) :=
  (h.bcursorMove id dir).map_left fun _ _ hx => hx.1

end Rep

end CoEditor
