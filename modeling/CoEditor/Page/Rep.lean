-- SUMMARY: When a page describes a buffer, and how the two change together under single updates.
import CoEditor.Page.Frame

/-!
# Pages describe buffers

`Layout b p` says that the chain of lines in the memory of `b` is the list of
rows of `p`: the cell of row `i` holds exactly the line the page computes for
it, and every pointer of `b` leads to the row the page names by position.
-/

namespace CoEditor

variable {R : Type}

namespace Page

@[simp] theorem ptrs_length (p : Page R) : p.ptrs.length = p.rows.length := by simp [ptrs]

theorem ptrs_getElem? (p : Page R) (i : Nat) : p.ptrs[i]? = p.rows[i]?.map Row.ptr := by simp [ptrs]

theorem ptrs_of_row {p : Page R} {i : Nat} {r : Row R} (hr : p.rows[i]? = some r) :
    p.ptrs[i]? = some r.ptr := by simp [ptrs_getElem?, hr]

theorem exists_row {p : Page R} {i : Nat} (hi : i < p.rows.length) : ∃ r, p.rows[i]? = some r :=
  ⟨_, List.getElem?_eq_getElem hi⟩

theorem lt_of_row {p : Page R} {i : Nat} {r : Row R} (hr : p.rows[i]? = some r) :
    i < p.rows.length := (List.getElem?_eq_some_iff.mp hr).1

theorem visible_iff (p : Page R) (k : Nat) : p.visible k = true ↔ p.top ≤ k ∧ k ≤ p.bottom := by
  simp [visible]

/-- The line that row `r` at position `i` stands for. -/
def lineOf (p : Page R) (i : Nat) (r : Row R) : Line R :=
  { id := r.id
    str := r.str
    prev := prevAt p.ptrs i
    next := p.ptrs[i + 1]?
    onScreen := p.visible i
    where_ := r.where_ }

/-- The cursor that `c` stands for. -/
def cursor (p : Page R) (c : PageCursor) : Option Cursor :=
  p.ptrs[c.row]?.map fun q => ⟨c.id, q, c.pos⟩

theorem cursor_of_row {p : Page R} {c : PageCursor} {r : Row R} (hr : p.rows[c.row]? = some r) :
    p.cursor c = some ⟨c.id, r.ptr, c.pos⟩ := by simp [cursor, ptrs_of_row hr]

@[simp] theorem modifyRow_ptrs (p : Page R) (k : Nat) (f : Row R → Row R)
    (hf : ∀ r, (f r).ptr = r.ptr) : (p.modifyRow k f).ptrs = p.ptrs := by
  apply List.ext_getElem?
  intro i
  simp only [ptrs, modifyRow, List.getElem?_map, List.getElem?_modify]
  cases p.rows[i]? with
  | none => rfl
  | some r =>
      by_cases hk : k = i
      · simp [hk, hf]
      · simp [hk]

end Page

/-- The fields of `b` are those of `p`, and its pointers lead to the rows that `p` names. -/
structure Marks (b : Buffer R) (p : Page R) : Prop where
  id : b.id = p.id
  ver : b.ver = p.ver
  numLines : b.numLines = p.numLines
  lineIdCnt : b.lineIdCnt = p.lineIdCnt
  height : b.height = p.height
  width : b.width = p.width
  serverMode : b.serverMode = p.serverMode
  first : p.ptrs[0]? = some b.first
  last : b.last = p.ptrs[p.last]?
  top : b.top = p.ptrs[p.top]?
  bottom : b.bottom = p.ptrs[p.bottom]?
  last_lt : p.last < p.rows.length
  top_lt : p.top < p.rows.length
  bottom_lt : p.bottom < p.rows.length
  own : b.ownCurs = p.cursor p.own
  peers : b.peerCurss = p.peers.map (·.bind p.cursor)
  curs_lt : ∀ ref c, p.curs ref = .ok c → c.row < p.rows.length

/-- The memory of `b` is laid out as `p` says. -/
structure Layout (b : Buffer R) (p : Page R) : Prop extends Marks b p where
  nodup : p.ptrs.Nodup
  cell : ∀ i r, p.rows[i]? = some r → b.heap.get? r.ptr = some (p.lineOf i r)

/-- The lines in memory are `rows`, linked in this order, with flags of any kind. -/
structure Chained (h : Heap (Line R)) (rows : List (Row R)) : Prop where
  linked : Linked h (rows.map Row.ptr)
  cell : ∀ (i : Nat) (r : Row R), rows[i]? = some r →
    ∃ l, h.get? r.ptr = some l ∧ l.id = r.id ∧ l.str = r.str

/-- The memory of `b` is laid out as `p` says, but for the flags. -/
structure Loose (b : Buffer R) (p : Page R) : Prop extends Marks b p where
  chained : Chained b.heap p.rows

/-- The memory has room for the chain. -/
theorem Chained.length_le {h : Heap (Line R)} {rows : List (Row R)} (hc : Chained h rows) :
    rows.length ≤ h.cells.length := by
  have hsub : rows.map Row.ptr ⊆ List.range h.cells.length := by
    intro q hq
    obtain ⟨i, hi⟩ := List.getElem?_of_mem hq
    obtain ⟨l, hl⟩ := hc.linked.live hi
    exact List.mem_range.mpr (Heap.lt_of_get? hl)
  simpa using List.Nodup.length_le_of_subset hc.linked.nodup hsub

namespace Layout

variable {b : Buffer R} {p : Page R}

/-! ## Reading -/

theorem line (h : Layout b p) {i : Nat} {r : Row R} (hr : p.rows[i]? = some r) :
    b.line r.ptr = .ok (p.lineOf i r) := by simp [Buffer.line, h.cell i r hr]

theorem lineAt (h : Layout b p) {i : Nat} {r : Row R} (hr : p.rows[i]? = some r) :
    b.lineAt p.ptrs[i]? = .ok (p.lineOf i r) := by
  rw [Page.ptrs_of_row hr]
  exact h.line hr

theorem modifyLine (h : Layout b p) {i : Nat} {r : Row R} (hr : p.rows[i]? = some r)
    (f : Line R → Line R) :
    b.modifyLine r.ptr f = .ok { b with heap := b.heap.set r.ptr (f (p.lineOf i r)) } := by
  simp [Buffer.modifyLine, h.line hr]

/-- Equal pointers are equal positions. -/
theorem ptr_inj (h : Layout b p) {i j : Nat} (hi : i < p.rows.length) :
    p.ptrs[i]? = p.ptrs[j]? ↔ i = j :=
  List.getElem?_inj (by simpa using hi) h.nodup

theorem row_ptr_inj (h : Layout b p) {i j : Nat} {r s : Row R} (hr : p.rows[i]? = some r)
    (hs : p.rows[j]? = some s) : r.ptr = s.ptr ↔ i = j := by
  rw [← h.ptr_inj (Page.lt_of_row hr), Page.ptrs_of_row hr, Page.ptrs_of_row hs]
  simp

theorem first_row (h : Layout b p) : ∃ r, p.rows[0]? = some r ∧ b.first = r.ptr := by
  have hf := h.first
  rw [Page.ptrs_getElem?, Option.map_eq_some_iff] at hf
  obtain ⟨r, hr, hp⟩ := hf
  exact ⟨r, hr, hp.symm⟩

theorem linked (h : Layout b p) : Linked b.heap p.ptrs where
  nodup := h.nodup
  cell := by
    intro i q hq
    rw [Page.ptrs_getElem?, Option.map_eq_some_iff] at hq
    obtain ⟨r, hr, rfl⟩ := hq
    exact ⟨_, h.cell i r hr, rfl, rfl⟩

theorem loose (h : Layout b p) : Loose b p :=
  { h.toMarks with
    chained := ⟨h.linked, fun i r hr => ⟨_, h.cell i r hr, rfl, rfl⟩⟩ }

/-! ## Writing -/

theorem get?_set (h : Layout b p) {k i : Nat} {r s : Row R} (hr : p.rows[k]? = some r)
    (hs : p.rows[i]? = some s) (x : Line R) :
    (b.heap.set r.ptr x).get? s.ptr = some (if i = k then x else p.lineOf i s) := by
  rw [Heap.get?_set (h.cell k r hr), h.cell i s hs]
  by_cases hik : i = k
  · rw [if_pos ((h.row_ptr_inj hs hr).mpr hik), if_pos hik]
  · rw [if_neg (fun e => hik ((h.row_ptr_inj hs hr).mp e)), if_neg hik]

/-- Only the window moves: one row changes its flag and the marks follow. -/
theorem setWindow (h : Layout b p) (top bottom : Nat) {k : Nat} {r : Row R} (hr : p.rows[k]? = some r)
    (htop : top < p.rows.length) (hbottom : bottom < p.rows.length)
    (hsame : ∀ i, i ≠ k → ({ p with top, bottom } : Page R).visible i = p.visible i) :
    Layout
      { b with
        heap := b.heap.set r.ptr
          { p.lineOf k r with onScreen := ({ p with top, bottom } : Page R).visible k }
        top := p.ptrs[top]?
        bottom := p.ptrs[bottom]? }
      { p with top, bottom } :=
  { h with
    cell := by
      intro i s hs
      rw [h.get?_set hr hs]
      by_cases hik : i = k
      · subst hik
        obtain rfl : r = s := Option.some.inj (hr.symm.trans hs)
        simp [Page.lineOf, Page.ptrs]
      · rw [if_neg hik]
        simp [Page.lineOf, Page.ptrs, hsame i hik]
    top := rfl
    bottom := rfl
    top_lt := htop
    bottom_lt := hbottom
    curs_lt := by
      intro ref c hc
      refine h.curs_lt ref c ?_
      cases ref <;> exact hc }

/-- A row changes its text or its flag in place. -/
theorem setRow (h : Layout b p) {k : Nat} {r : Row R} (hr : p.rows[k]? = some r)
    (f : Row R → Row R) (hf : ∀ r, (f r).ptr = r.ptr) :
    Layout { b with heap := b.heap.set r.ptr (p.lineOf k (f r)) } (p.modifyRow k f) := by
  have hptrs : (p.modifyRow k f).ptrs = p.ptrs := Page.modifyRow_ptrs p k f hf
  have hlen : (p.modifyRow k f).rows.length = p.rows.length := by simp [Page.modifyRow]
  have hcursor : (p.modifyRow k f).cursor = p.cursor := by
    funext c
    simp [Page.cursor, hptrs]
  exact
    { h with
      nodup := by rw [hptrs]; exact h.nodup
      cell := by
        intro i s hs
        simp only [Page.modifyRow, List.getElem?_modify, Option.map_eq_map,
          Option.map_eq_some_iff] at hs
        obtain ⟨t, ht, rfl⟩ := hs
        have hline : ∀ u, (p.modifyRow k f).lineOf i u = p.lineOf i u := by
          intro u
          rw [Page.lineOf, hptrs]
          rfl
        by_cases hki : k = i
        · subst hki
          obtain rfl : r = t := Option.some.inj (hr.symm.trans ht)
          simp [hf, hline, h.get?_set hr hr]
        · simp only [hki, if_false, hline]
          rw [h.get?_set hr ht, if_neg (fun e => hki e.symm)]
      first := by rw [hptrs]; exact h.first
      last := by rw [hptrs]; exact h.last
      top := by rw [hptrs]; exact h.top
      bottom := by rw [hptrs]; exact h.bottom
      last_lt := by rw [hlen]; exact h.last_lt
      top_lt := by rw [hlen]; exact h.top_lt
      bottom_lt := by rw [hlen]; exact h.bottom_lt
      own := by rw [hcursor]; exact h.own
      peers := by rw [hcursor]; exact h.peers
      curs_lt := by
        intro ref c hc
        rw [hlen]
        refine h.curs_lt ref c ?_
        cases ref <;> exact hc }

end Layout

end CoEditor
