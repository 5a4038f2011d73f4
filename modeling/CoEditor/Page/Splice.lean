-- SUMMARY: Putting a line into the chain and taking one out, on a buffer and on its page.
import CoEditor.Page.Window

/-!
# Splicing rows

`line_new` puts a row in and `line_free` takes one out. The other rows, the
marks and the cursors keep their lines and change their positions.
-/

namespace CoEditor

variable {R : Type}

/-! ## Assigning through a pointer that may be `NULL` -/

theorem Buffer.lineIf_congr {b b' : Buffer R} (hb : b'.heap = b.heap) (o : Option Ptr) :
    b'.lineIf o = b.lineIf o := by
  cases o with
  | none => rfl
  | some q => simp [Buffer.lineIf, Buffer.line, hb]

theorem Buffer.modifyLineIf_ok (b : Buffer R) (f : Line R → Line R) (o : Option Ptr)
    (ho : ∀ q, o = some q → ∃ l, b.heap.get? q = some l) :
    ∃ heap, b.modifyLineIf f o = .ok { b with heap } ∧
      ∀ q l, b.heap.get? q = some l → heap.get? q = some (if o = some q then f l else l) := by
  cases o with
  | none => exact ⟨b.heap, rfl, fun q l hq => by simpa using hq⟩
  | some p =>
      obtain ⟨m, hm⟩ := ho p rfl
      refine ⟨b.heap.set p (f m), by simp [Buffer.modifyLineIf, Buffer.modifyLine, Buffer.line, hm], ?_⟩
      intro q l hq
      by_cases hqp : q = p
      · subst hqp
        obtain rfl : m = l := Option.some.inj (hm.symm.trans hq)
        simp [Heap.get?_set_self hm]
      · have hpq : p ≠ q := fun e => hqp e.symm
        rw [Heap.get?_set_ne hqp, hq]
        simp [hpq]

namespace Layout

variable {b : Buffer R} {p : Page R}

/-- The cells follow from the links and from what the lines carry. -/
theorem cell_of_linked {h : Heap (Line R)} (hL : Linked h p.ptrs)
    (hpay : ∀ i r, p.rows[i]? = some r → ∃ x, h.get? r.ptr = some x ∧ x.id = r.id ∧ x.str = r.str ∧
      x.onScreen = p.visible i ∧ x.where_ = r.where_) :
    ∀ i r, p.rows[i]? = some r → h.get? r.ptr = some (p.lineOf i r) := by
  intro i r hr
  obtain ⟨x, hx, hid, hstr, hon, hwhere⟩ := hpay i r hr
  obtain ⟨y, hy, hprev, hnext⟩ := hL.cell i r.ptr (Page.ptrs_of_row hr)
  obtain rfl : x = y := Option.some.inj (hx.symm.trans hy)
  rw [hx]
  cases x
  simp_all [Page.lineOf]

theorem prevAt_eq (h : Layout b p) {k i : Nat} {r : Row R} (hk : k ≤ p.rows.length)
    (hr : p.rows[i]? = some r) : prevAt p.ptrs k = some r.ptr ↔ i + 1 = k := by
  cases k with
  | zero => simp
  | succ k =>
      rw [prevAt_succ, h.mark_eq hk hr]
      omega

theorem ptrAt_eq (h : Layout b p) {k i : Nat} {r : Row R} (hr : p.rows[i]? = some r) :
    p.ptrs[k]? = some r.ptr ↔ i = k := by
  rw [← Page.ptrs_of_row hr, eq_comm, h.ptr_inj (Page.lt_of_row hr)]

theorem lineIf (h : Layout b p) (i : Nat) :
    b.lineIf p.ptrs[i]? = .ok (p.rows[i]?.map (p.lineOf i)) := by
  cases hr : p.rows[i]? with
  | none => simp [Page.ptrs_getElem?, hr, Buffer.lineIf]
  | some r => simp [Page.ptrs_of_row hr, Buffer.lineIf, h.line hr]

theorem live (h : Layout b p) {i : Nat} {q : Ptr} (hq : p.ptrs[i]? = some q) :
    ∃ l, b.heap.get? q = some l := h.linked.live hq

end Layout

/-! ## Putting a row in -/

namespace Page

variable [Rope R]

@[simp] theorem newRow_rows (p : Page R) (k : Nat) (ptr : Ptr) : (p.newRow k ptr).rows =
    p.rows.insertIdx k ⟨ptr, p.lineIdCnt, Rope.new, p.newWhere k⟩ := rfl

theorem newRow_ptrs (p : Page R) (k : Nat) (ptr : Ptr) :
    (p.newRow k ptr).ptrs = p.ptrs.insertIdx k ptr := by
  simp [ptrs, List.map_insertIdx]

theorem newRow_length (p : Page R) {k : Nat} (ptr : Ptr) (hk : k ≤ p.rows.length) :
    (p.newRow k ptr).rows.length = p.rows.length + 1 := by
  simp [List.length_insertIdx, hk]

theorem newRow_visible (p : Page R) (k i : Nat) (ptr : Ptr) :
    (p.newRow k ptr).visible i = true ↔ bump k p.top ≤ i ∧ i ≤ bump k p.bottom := visible_iff _ _

/-- The line allocated for the row put in at position `k`. -/
def newLine (p : Page R) (k : Nat) (ptr : Ptr) : Line R :=
  { id := p.lineIdCnt
    str := Rope.new
    prev := prevAt p.ptrs k
    next := p.ptrs[k]?
    onScreen := (p.newRow k ptr).visible k
    where_ := p.newWhere k }

omit [Rope R] in
theorem mapMarks_curs (p : Page R) (f : Nat → Nat) (ref : CursRef) :
    (p.mapMarks f).curs ref = PageCursor.mapRow f <$> p.curs ref := by
  cases ref with
  | own => rfl
  | peer i =>
      simp only [curs, mapMarks, List.getElem?_map]
      cases p.peers[i]? with
      | none => rfl
      | some o => cases o <;> rfl

theorem newRow_curs (p : Page R) (k : Nat) (ptr : Ptr) (ref : CursRef) :
    (p.newRow k ptr).curs ref = PageCursor.mapRow (bump k) <$> p.curs ref := by
  rw [← mapMarks_curs]
  cases ref <;> rfl

theorem newRow_cursor (p : Page R) (k : Nat) (ptr : Ptr) (c : PageCursor) :
    (p.newRow k ptr).cursor (c.mapRow (bump k)) = p.cursor c := by
  simp [cursor, newRow_ptrs, getElem?_insertIdx_bump]

end Page

namespace Rep

variable [Rope R] {b : Buffer R} {p : Page R}

/-- `line_new` computes the flag that the new row has in the window, and the flag the page gives it. -/
theorem newFlags_eq (h : Rep b p) {k : Nat} (hk : k ≤ p.rows.length) (ptr : Ptr) :
    ∃ x y, b.lineIf (prevAt p.ptrs k) = .ok x ∧ b.lineIf p.ptrs[k]? = .ok y ∧
      newFlags x y = ((p.newRow k ptr).visible k, p.newWhere k) := by
  have hw := h.window
  have hbottom := h.bottom_lt
  refine ⟨if k = 0 then none else p.rows[k - 1]?.map (p.lineOf (k - 1)), _, ?_, h.lineIf k, ?_⟩
  · cases k with
    | zero => rfl
    | succ j => simpa using h.lineIf j
  · cases k with
    | zero =>
        obtain ⟨r, hr⟩ := Page.exists_row (Nat.lt_of_le_of_lt (Nat.zero_le _) hbottom)
        have hoff : (p.newRow 0 ptr).visible 0 = false := by
          rw [Bool.eq_false_iff, Ne, Page.newRow_visible]
          simp [bump]
        simp [hr, newFlags, Page.newWhere, hoff]
    | succ j =>
        obtain ⟨r, hr⟩ := Page.exists_row (show j < p.rows.length by omega)
        cases hs : p.rows[j + 1]? with
        | none =>
            have hlen : p.rows.length ≤ j + 1 := List.getElem?_eq_none_iff.mp hs
            have hoff : (p.newRow (j + 1) ptr).visible (j + 1) = false := by
              rw [Bool.eq_false_iff, Ne, Page.newRow_visible]
              grind [bump]
            simp [hr, hs, newFlags, Page.newWhere, hoff]
        | some s =>
            have hon : (if p.visible j = p.visible (j + 1) then p.visible j else false) =
                (p.newRow (j + 1) ptr).visible (j + 1) := by
              have hj := p.visible_iff j
              have hj' := p.visible_iff (j + 1)
              have hnew := p.newRow_visible (j + 1) (j + 1) ptr
              rw [Bool.eq_iff_iff, hnew]
              grind [bump]
            simp only [Nat.add_one_ne_zero, if_false, Nat.add_sub_cancel, hr, Option.map_some, newFlags,
              Page.lineOf, hon, Page.newWhere, hs, Page.notAbove, Option.any_some]
            cases r.where_ <;> cases s.where_ <;> simp

/-- The memory after `line_new` at position `k`. -/
theorem lineNew_ok (h : Rep b p) {k : Nat} (hk : k ≤ p.rows.length) :
    ∃ heap, lineNewCnt b (prevAt p.ptrs k) p.ptrs[k]? =
        .ok ({ b with lineIdCnt := b.lineIdCnt + 1, heap }, b.heap.cells.length) ∧
      heap.get? b.heap.cells.length = some (p.newLine k b.heap.cells.length) ∧
      ∀ i r, p.rows[i]? = some r → heap.get? r.ptr =
        some { p.lineOf i r with
          prev := if i = k then some b.heap.cells.length else prevAt p.ptrs i
          next := if i + 1 = k then some b.heap.cells.length else p.ptrs[i + 1]? } := by
  obtain ⟨x, y, hx, hy, hflags⟩ := h.newFlags_eq hk b.heap.cells.length
  have hx' : ({ b with lineIdCnt := b.lineIdCnt + 1 } : Buffer R).lineIf (prevAt p.ptrs k) = .ok x :=
    (Buffer.lineIf_congr rfl _).trans hx
  have hy' : ({ b with lineIdCnt := b.lineIdCnt + 1 } : Buffer R).lineIf p.ptrs[k]? = .ok y :=
    (Buffer.lineIf_congr rfl _).trans hy
  have hprev : ∀ q, prevAt p.ptrs k = some q → ∃ l, b.heap.get? q = some l := by
    intro q hq
    cases k with
    | zero => simp at hq
    | succ j => exact h.live (prevAt_succ p.ptrs j ▸ hq)
  have hnext : ∀ q, p.ptrs[k]? = some q → ∃ l, b.heap.get? q = some l := fun q hq => h.live hq
  -- the new cell is none of the old ones, so the two assignments leave it alone
  have hfresh : ∀ q l, b.heap.get? q = some l → q ≠ b.heap.cells.length := fun q l hq =>
    Nat.ne_of_lt (Heap.lt_of_get? hq)
  generalize hnew : p.newLine k b.heap.cells.length = new
  obtain ⟨heap₁, hm₁, hget₁⟩ := Buffer.modifyLineIf_ok
    { b with lineIdCnt := b.lineIdCnt + 1, heap := (b.heap.malloc new).1 }
    ({ · with next := some b.heap.cells.length }) (prevAt p.ptrs k) (fun q hq => by
      obtain ⟨l, hl⟩ := hprev q hq
      exact ⟨l, Heap.get?_malloc_of_get? hl⟩)
  obtain ⟨heap₂, hm₂, hget₂⟩ := Buffer.modifyLineIf_ok
    { b with lineIdCnt := b.lineIdCnt + 1, heap := heap₁ }
    ({ · with prev := some b.heap.cells.length }) p.ptrs[k]? (fun q hq => by
      obtain ⟨l, hl⟩ := hnext q hq
      exact ⟨_, hget₁ q l (Heap.get?_malloc_of_get? hl)⟩)
  refine ⟨heap₂, ?_, ?_, ?_⟩
  · rw [Page.newLine, ← h.lineIdCnt] at hnew
    simp only [lineNewCnt, lineNew, hx', hy', Except.ok_bind_eq, hflags, Heap.malloc, hnew]
    simp only [Heap.malloc] at hm₁ hm₂
    rw [hm₁, Except.ok_bind_eq, hm₂]
    rfl
  · have h₁ := hget₁ _ new (Heap.get?_malloc_self b.heap new)
    have hp : prevAt p.ptrs k ≠ some b.heap.cells.length := fun e => by
      obtain ⟨l, hl⟩ := hprev _ e
      exact hfresh _ l hl rfl
    rw [show (b.heap.malloc new).2 = b.heap.cells.length from rfl, if_neg hp] at h₁
    have hn : p.ptrs[k]? ≠ some b.heap.cells.length := fun e => by
      obtain ⟨l, hl⟩ := hnext _ e
      exact hfresh _ l hl rfl
    rw [hget₂ _ new h₁, if_neg hn]
  · intro i r hr
    rw [hget₂ _ _ (hget₁ _ _ (Heap.get?_malloc_of_get? (h.cell i r hr)))]
    simp only [h.prevAt_eq hk hr, h.ptrAt_eq hr]
    by_cases hik : i = k
    · have hik' : i + 1 ≠ k := by omega
      simp [hik, Page.lineOf]
    · by_cases hik' : i + 1 = k
      · simp [hik, hik', Page.lineOf]
      · simp [hik, hik', Page.lineOf]

theorem newRow (h : Rep b p) {k : Nat} (hk : k ≤ p.rows.length) :
    ∃ heap, lineNewCnt b (prevAt p.ptrs k) p.ptrs[k]? =
        .ok ({ b with lineIdCnt := b.lineIdCnt + 1, heap }, b.heap.cells.length) ∧
      Rep
        { b with
          lineIdCnt := b.lineIdCnt + 1
          heap := heap
          first := if k = 0 then b.heap.cells.length else b.first }
        (p.newRow k b.heap.cells.length) := by
  obtain ⟨heap, hnew, hll, hold⟩ := h.lineNew_ok hk
  refine ⟨heap, hnew, ?_⟩
  have hfresh : b.heap.cells.length ∉ p.ptrs := by
    intro hmem
    obtain ⟨i, hi⟩ := List.getElem?_of_mem hmem
    obtain ⟨l, hl⟩ := h.live hi
    exact absurd (Heap.lt_of_get? hl) (Nat.lt_irrefl _)
  generalize hq : b.heap.cells.length = q at *
  have hlinked : Linked heap (p.newRow k q).ptrs := by
    rw [Page.newRow_ptrs]
    refine h.linked.insert (by simpa using hk) hfresh ⟨_, hll, rfl, rfl⟩ ?_
    intro i s x hs hx
    rw [Page.ptrs_getElem?, Option.map_eq_some_iff] at hs
    obtain ⟨r, hr, rfl⟩ := hs
    obtain rfl : p.lineOf i r = x := Option.some.inj ((h.cell i r hr).symm.trans hx)
    exact ⟨_, hold i r hr, rfl, rfl⟩
  have hlen := Page.newRow_length p q hk
  have hw := h.window
  have hvis : ∀ i, (p.newRow k q).visible (bump k i) = p.visible i := by
    intro i
    rw [Bool.eq_iff_iff, Page.newRow_visible, Page.visible_iff]
    grind [bump]
  exact
    { h with
      lineIdCnt := by simp [Page.newRow, Page.insertRow, Page.mapMarks, h.lineIdCnt]
      nodup := hlinked.nodup
      cell := by
        refine Layout.cell_of_linked hlinked fun j r hr => ?_
        rw [Page.newRow_rows] at hr
        rcases Nat.lt_trichotomy j k with hlt | rfl | hgt
        · rw [List.getElem?_insertIdx_of_lt hlt] at hr
          refine ⟨_, hold j r hr, rfl, rfl, ?_, rfl⟩
          simp only [Page.lineOf]
          rw [← hvis j, bump, if_neg (by omega)]
        · rw [List.getElem?_insertIdx_self, if_pos hk] at hr
          obtain rfl := Option.some.inj hr
          exact ⟨_, hll, rfl, rfl, rfl, rfl⟩
        · rw [List.getElem?_insertIdx_of_gt hgt] at hr
          refine ⟨_, hold (j - 1) r hr, rfl, rfl, ?_, rfl⟩
          simp only [Page.lineOf]
          rw [← hvis (j - 1), bump, if_pos (by omega)]
          congr 1
          omega
      first := by
        rw [Page.newRow_ptrs]
        by_cases hk0 : k = 0
        · simp [hk0]
        · rw [List.getElem?_insertIdx_of_lt (by omega), if_neg hk0]
          exact h.first
      last := by rw [Page.newRow_ptrs]; exact h.last.trans (getElem?_insertIdx_bump ..).symm
      top := by rw [Page.newRow_ptrs]; exact h.top.trans (getElem?_insertIdx_bump ..).symm
      bottom := by rw [Page.newRow_ptrs]; exact h.bottom.trans (getElem?_insertIdx_bump ..).symm
      last_lt := by rw [hlen]; exact bump_lt h.last_lt
      top_lt := by rw [hlen]; exact bump_lt h.top_lt
      bottom_lt := by rw [hlen]; exact bump_lt h.bottom_lt
      own := h.own.trans (p.newRow_cursor k q p.own).symm
      peers := by
        rw [h.peers]
        simp only [Page.newRow, Page.insertRow, Page.mapMarks, List.map_map]
        refine List.map_congr_left fun o _ => ?_
        cases o with
        | none => rfl
        | some c => exact (p.newRow_cursor k q c).symm
      curs_lt := by
        intro ref c hc
        rw [Page.newRow_curs] at hc
        obtain ⟨c₀, hc₀, rfl⟩ := Except.map_eq_ok.mp hc
        rw [hlen]
        exact bump_lt (h.curs_lt ref c₀ hc₀)
      window := bump_mono hw }

end Rep

/-! ## Taking a row out -/

namespace Page

theorem eraseRow_ptrs (p : Page R) (k : Nat) : (p.eraseRow k).ptrs = p.ptrs.eraseIdx k := by
  simp [ptrs, eraseRow, List.eraseIdx_map]

theorem eraseRow_curs (p : Page R) (k : Nat) (ref : CursRef) :
    (p.eraseRow k).curs ref = PageCursor.mapRow (unbump k) <$> p.curs ref := by
  rw [← mapMarks_curs]
  cases ref <;> rfl

theorem eraseRow_cursor (p : Page R) {k : Nat} {c : PageCursor} (hc : c.row ≠ k) :
    (p.eraseRow k).cursor (c.mapRow (unbump k)) = p.cursor c := by
  simp [cursor, eraseRow_ptrs, getElem?_eraseIdx_unbump _ hc]

end Page

namespace Layout

variable {b : Buffer R} {p : Page R}

/-- The memory after `line_free` of row `k`. -/
theorem lineFree_ok (h : Layout b p) {k : Nat} {r : Row R} (hr : p.rows[k]? = some r) :
    ∃ heap, lineFree b r.ptr = .ok { b with heap } ∧
      ∀ i s, i ≠ k → p.rows[i]? = some s → heap.get? s.ptr =
        some { p.lineOf i s with
          prev := if i = k + 1 then prevAt p.ptrs k else prevAt p.ptrs i
          next := if i + 1 = k then p.ptrs[k + 1]? else p.ptrs[i + 1]? } := by
  have hk := Page.lt_of_row hr
  have hprev : ∀ q, prevAt p.ptrs k = some q → ∃ l, b.heap.get? q = some l := by
    intro q hq
    cases k with
    | zero => simp at hq
    | succ j => exact h.live (prevAt_succ p.ptrs j ▸ hq)
  obtain ⟨heap₁, hm₁, hget₁⟩ := Buffer.modifyLineIf_ok b ({ · with next := p.ptrs[k + 1]? })
    (prevAt p.ptrs k) hprev
  obtain ⟨heap₂, hm₂, hget₂⟩ := Buffer.modifyLineIf_ok { b with heap := heap₁ }
    ({ · with prev := prevAt p.ptrs k }) p.ptrs[k + 1]? (fun q hq => by
      obtain ⟨l, hl⟩ := h.live hq
      exact ⟨_, hget₁ q l hl⟩)
  refine ⟨heap₂.free r.ptr, ?_, ?_⟩
  · simp only [lineFree, h.line hr, Except.ok_bind_eq, Page.lineOf]
    rw [hm₁, Except.ok_bind_eq, hm₂]
    rfl
  · intro i s hik hs
    have hne : s.ptr ≠ r.ptr := fun e => hik ((h.row_ptr_inj hs hr).mp e)
    rw [Heap.get?_free_ne hne, hget₂ _ _ (hget₁ _ _ (h.cell i s hs))]
    simp only [h.prevAt_eq (Nat.le_of_lt hk) hs, h.ptrAt_eq hs]
    by_cases hnext : i = k + 1
    · subst hnext
      have hik' : k + 1 + 1 ≠ k := by omega
      simp [hik', Page.lineOf]
    · by_cases hik' : i + 1 = k
      · simp [hnext, hik', Page.lineOf]
      · simp [hnext, hik', Page.lineOf]

end Layout

namespace Rep

variable {b : Buffer R} {p : Page R}

/-- A row that no mark and no cursor is on can be freed. -/
theorem eraseRow (h : Rep b p) {k : Nat} {r : Row R} (hr : p.rows[k]? = some r) (h0 : 0 < k)
    (hlast : p.last ≠ k) (htop : p.top ≠ k) (hbottom : p.bottom ≠ k)
    (hcurs : ∀ ref c, p.curs ref = .ok c → c.row ≠ k) :
    Sim Rep (lineFree b r.ptr) (.ok (p.eraseRow k)) := by
  have hk := Page.lt_of_row hr
  obtain ⟨heap, hfree, hold⟩ := h.lineFree_ok hr
  refine .of_exists ⟨_, hfree, ?_⟩
  have hlinked : Linked heap (p.eraseRow k).ptrs := by
    rw [Page.eraseRow_ptrs]
    refine h.linked.erase (by simpa using hk) ?_
    intro i s x hik hs hx
    rw [Page.ptrs_getElem?, Option.map_eq_some_iff] at hs
    obtain ⟨t, ht, rfl⟩ := hs
    obtain rfl : p.lineOf i t = x := Option.some.inj ((h.cell i t ht).symm.trans hx)
    exact ⟨_, hold i t hik ht, rfl, rfl⟩
  have hlen : (p.eraseRow k).rows.length = p.rows.length - 1 := by
    simp [Page.eraseRow, List.length_eraseIdx, hk]
  have hw := h.window
  have hvis : ∀ i, i ≠ k → (p.eraseRow k).visible (unbump k i) = p.visible i := by
    intro i hik
    rw [Bool.eq_iff_iff, Page.visible_iff, Page.visible_iff]
    show unbump k p.top ≤ unbump k i ∧ unbump k i ≤ unbump k p.bottom ↔ _
    grind [unbump]
  have hown : p.own.row ≠ k := hcurs .own p.own rfl
  have hpeer : ∀ c, some c ∈ p.peers → c.row ≠ k := by
    intro c hc
    obtain ⟨i, hi⟩ := List.getElem?_of_mem hc
    exact hcurs (.peer i) c (by simp [Page.curs, hi])
  exact
    { h with
      nodup := hlinked.nodup
      cell := by
        refine Layout.cell_of_linked hlinked fun j s hs => ?_
        by_cases hlt : j < k
        · simp only [Page.eraseRow, List.getElem?_eraseIdx_of_lt hlt] at hs
          refine ⟨_, hold j s (by omega) hs, rfl, rfl, ?_, rfl⟩
          simp only [Page.lineOf]
          rw [← hvis j (by omega), unbump, if_neg (by omega)]
        · simp only [Page.eraseRow, List.getElem?_eraseIdx_of_ge (Nat.le_of_not_lt hlt)] at hs
          refine ⟨_, hold (j + 1) s (by omega) hs, rfl, rfl, ?_, rfl⟩
          simp only [Page.lineOf]
          rw [← hvis (j + 1) (by omega), unbump, if_pos (by omega), Nat.add_sub_cancel]
      first := by
        rw [Page.eraseRow_ptrs, List.getElem?_eraseIdx_of_lt h0]
        exact h.first
      last := by rw [Page.eraseRow_ptrs]; exact h.last.trans (getElem?_eraseIdx_unbump _ hlast).symm
      top := by rw [Page.eraseRow_ptrs]; exact h.top.trans (getElem?_eraseIdx_unbump _ htop).symm
      bottom := by
        rw [Page.eraseRow_ptrs]
        exact h.bottom.trans (getElem?_eraseIdx_unbump _ hbottom).symm
      last_lt := by rw [hlen]; exact unbump_lt h.last_lt hlast hk
      top_lt := by rw [hlen]; exact unbump_lt h.top_lt htop hk
      bottom_lt := by rw [hlen]; exact unbump_lt h.bottom_lt hbottom hk
      own := h.own.trans (p.eraseRow_cursor hown).symm
      peers := by
        rw [h.peers]
        simp only [Page.eraseRow, Page.mapMarks, List.map_map]
        refine List.map_congr_left fun o ho => ?_
        cases o with
        | none => rfl
        | some c => exact (p.eraseRow_cursor (hpeer c ho)).symm
      curs_lt := by
        intro ref c hc
        rw [Page.eraseRow_curs] at hc
        obtain ⟨c₀, hc₀, rfl⟩ := Except.map_eq_ok.mp hc
        rw [hlen]
        exact unbump_lt (h.curs_lt ref c₀ hc₀) (hcurs ref c₀ hc₀) hk
      window := unbump_mono hw }

end Rep

end CoEditor
