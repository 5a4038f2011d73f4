-- SUMMARY: The invariants of reachable buffers: the chain of lines, and the window as long as no join stretches it.
import CoEditor.Session.Observe

/-!
# Invariants of reachable buffers

Both invariants speak of the buffer in memory. `ps` are the addresses of the
lines in the order of the chain.
-/

namespace CoEditor

variable {R : Type} [Rope R]

/-! ## The chain of lines -/

/-- The lines at `ps` are the chain of `b`; line `k` is `last`, and only empty padding lines follow it. -/
structure LineList (b : Buffer R) (ps : List Ptr) (k : Nat) : Prop where
  linked : Linked b.heap ps
  first : ps[0]? = some b.first
  idsNodup : (ps.map fun q => b.idOf (some q)).Nodup
  ids : ∀ q ∈ ps, ∃ l, b.heap.get? q = some l ∧ l.id < b.lineIdCnt
  numLines : b.numLines = ps.length
  last : ps[k]? = b.last
  padding : (k : Int) + b.height = ps.length
  blank : ∀ i q l, k < i → ps[i]? = some q → b.heap.get? q = some l → Rope.chars l.str = []
  cursors : ∀ ref c, b.curs ref = .ok c → ∃ i ≤ k, ps[i]? = some c.ownLine

theorem Rep.lineList {b : Buffer R} {p : Page R} (h : Rep b p) (hp : p.Good) : LineList b p.ptrs p.last where
  linked := h.linked
  first := h.first
  idsNodup := by
    have hids : (p.ptrs.map fun q => b.idOf (some q)) = (p.rows.map Row.id).map some := by
      apply List.ext_getElem?
      intro i
      cases hr : p.rows[i]? with
      | none => simp [Page.ptrs_getElem?, hr]
      | some r =>
          have hid := h.idOf i
          rw [Page.ptrs_of_row hr] at hid
          simp [Page.ptrs_of_row hr, hid, Page.idAt, hr]
    rw [hids]
    exact hp.idsNodup.map fun _ _ => Option.some.inj
  ids := by
    intro q hq
    obtain ⟨i, hi⟩ := List.getElem?_of_mem hq
    rw [Page.ptrs_getElem?, Option.map_eq_some_iff] at hi
    obtain ⟨r, hr, rfl⟩ := hi
    refine ⟨_, h.cell i r hr, ?_⟩
    rw [h.lineIdCnt]
    exact (hp.doc.ids (r.id, r.str) (List.mem_map_of_mem (List.mem_of_getElem? hr))).2
  numLines := by
    rw [h.numLines, Page.ptrs_length, ← Page.doc_length]
    exact hp.doc.numLines
  last := h.last.symm
  padding := by
    rw [h.height, Page.ptrs_length, ← Page.doc_length]
    exact hp.doc.last
  blank := by
    intro i q l hi hq hl
    rw [Page.ptrs_getElem?, Option.map_eq_some_iff] at hq
    obtain ⟨r, hr, rfl⟩ := hq
    obtain rfl := Option.some.inj (hl.symm.trans (h.cell i r hr))
    exact hp.doc.blank i (r.id, r.str) hi (by rw [Page.doc_getElem?, hr]; rfl)
  cursors := by
    intro ref c hc
    have hsim := h.curs ref
    rw [hc] at hsim
    obtain ⟨c', hc', hcur⟩ := hsim.of_ok_left
    obtain ⟨r, hr, rfl⟩ := Layout.cursor_row hcur
    exact ⟨c'.row, hp.curs_le hc', Page.ptrs_of_row hr⟩

/-- The chain of lines of a reachable buffer is in order. -/
theorem lines_wellformed {b : Buffer R} (hb : Reachable b) : ∃ ps k, LineList b ps k := by
  obtain ⟨d, p, hrep, hsound, -⟩ := hb.sound
  exact ⟨p.ptrs, p.last, hrep.lineList hsound.toGood⟩

theorem lines_wellformed_ab : ∃ b : Buffer ListRope, bufferFromFile (bytes "ab\nc") 1 3 6 false = .ok b ∧
    ∃ ps k, LineList b ps k := by
  have hrun : returns (bufferFromFile (R := ListRope) (bytes "ab\nc") 1 3 6 false) (fun _ => true) = true := by
    decide +kernel
  obtain ⟨b, hb, -⟩ := exists_of_returns hrun
  exact ⟨b, hb, lines_wellformed (.load (by decide) hb)⟩

/-! ## The window -/

/-- The window of `b` shows the lines from `i` to `j`, a full screen of them, and the own cursor, on line
    `o`, among them. -/
structure Viewport (b : Buffer R) (ps : List Ptr) (i o j : Nat) : Prop where
  linked : Linked b.heap ps
  first : ps[0]? = some b.first
  top : b.top = ps[i]?
  bottom : b.bottom = ps[j]?
  bottom_lt : j < ps.length
  size : (j : Int) - i + 1 = b.height
  onScreen : ∀ k q l, ps[k]? = some q → b.heap.get? q = some l → (l.onScreen = true ↔ i ≤ k ∧ k ≤ j)
  own : ∃ c, b.ownCurs = some c ∧ ps[o]? = some c.ownLine
  above : i ≤ o
  below : o ≤ j

omit [Rope R] in
theorem Rep.viewport {b : Buffer R} {p : Page R} (h : Rep b p) {n : Nat} (hn : (n : Int) = p.height)
    (hframed : p.Framed n) : Viewport b p.ptrs p.top p.own.row p.bottom where
  linked := h.linked
  first := h.first
  top := h.top
  bottom := h.bottom
  bottom_lt := by rw [Page.ptrs_length]; exact h.bottom_lt
  size := by
    have hsize := hframed.view.size
    rw [h.height]
    omega
  onScreen := by
    intro k q l hq hl
    rw [Page.ptrs_getElem?, Option.map_eq_some_iff] at hq
    obtain ⟨r, hr, rfl⟩ := hq
    obtain rfl := Option.some.inj (hl.symm.trans (h.cell k r hr))
    exact p.visible_iff k
  own := by
    obtain ⟨r, hr⟩ := Page.exists_row (h.curs_lt .own p.own rfl)
    exact ⟨_, by rw [h.own, Page.cursor_of_row hr], Page.ptrs_of_row hr⟩
  above := hframed.view.top_le
  below := Nat.le_of_lt hframed.view.lt_bottom

/-- With an exact window an edit at an existing cursor fails only for lack of room in the scratch pad. -/
theorem HoldsExact.edit_error {b : Buffer R} {d : Doc R} (h : HoldsExact b d) (h3 : 3 ≤ b.height) {id : Int}
    (hid : d.curs id ≠ none) {op : Op} (hop : op.EditsAt id) {e : Fault} (herr : op.run b = .error e) :
    e = .overflow ∧ op = .del id ∧ ¬ b.JoinFits id := by
  obtain ⟨hmove, hinsert, hline⟩ := h.sound.holds.returns id hid
  cases op with
  | new | copyOwn | free => exact hop.elim
  | move i dir =>
      obtain rfl : i = id := hop
      obtain ⟨x, hx⟩ := hmove dir
      cases hx.symm.trans herr
  | insert i chr =>
      obtain rfl : i = id := hop
      obtain ⟨x, hx⟩ := hinsert chr
      cases hx.symm.trans herr
  | insertLine i =>
      obtain rfl : i = id := hop
      obtain ⟨x, hx⟩ := hline
      cases hx.symm.trans herr
  | del i =>
      obtain rfl : i = id := hop
      obtain ⟨p, hrep, hexact, rfl⟩ := h
      obtain ⟨he, hfits⟩ := hexact.bcursorDel_error (hrep.height ▸ h3) hid
        (((hrep.run hexact.toGood (.del i)).error_iff e).mp herr)
      exact ⟨he, rfl, mt (hrep.joinFits_iff i).mp hfits⟩

/-- As long as no join stretches it, the window shows exactly a full screen around the own cursor, and
    no edit follows a `NULL`. -/
theorem viewport_exact {b : Buffer R} (hb : Reached (fun b op => ¬ op.Stretching b) b) (h3 : 3 ≤ b.height) :
    (∃ ps i o j, Viewport b ps i o j) ∧
      ∀ id (op : Op) e, HasCurs b id → op.EditsAt id → op.run b = .error e → e = .overflow := by
  obtain ⟨d, hexact⟩ := hb.exact fun _ _ h => h
  refine ⟨?_, fun id op e hid hop herr =>
    (hexact.edit_error h3 ((hexact.sound.hasCurs id).mp hid) hop herr).1⟩
  obtain ⟨p, hrep, hp, rfl⟩ := hexact
  obtain ⟨n, hn, hframed⟩ := hp.framed (hrep.height ▸ h3)
  exact ⟨p.ptrs, p.top, p.own.row, p.bottom, hrep.viewport hn hframed⟩

theorem viewport_exact_ab : ∃ b : Buffer ListRope, bufferFromFile (bytes "ab\nc") 1 3 6 false = .ok b ∧
    (∃ ps i o j, Viewport b ps i o j) ∧
      ∀ id (op : Op) e, HasCurs b id → op.EditsAt id → op.run b = .error e → e = .overflow := by
  have hrun : returns (bufferFromFile (R := ListRope) (bytes "ab\nc") 1 3 6 false)
      (fun b => decide (3 ≤ b.height)) = true := by decide +kernel
  obtain ⟨b, hb, h3⟩ := exists_of_returns hrun
  exact ⟨b, hb, viewport_exact (.load (by decide) hb) (of_decide_eq_true h3)⟩

/-- The pointer to the line after another one. -/
def Buffer.nextOf (b : Buffer R) (q : Option Ptr) : Option Ptr := (q.bind b.heap.get?).bind Line.next

omit [Rope R] in
theorem Viewport.nextOf {b : Buffer R} {ps : List Ptr} {i o j : Nat} (h : Viewport b ps i o j) {k : Nat}
    (hk : k < ps.length) : b.nextOf ps[k]? = ps[k + 1]? := by
  obtain ⟨l, hl, -, hnext⟩ := h.linked.cell k ps[k] (List.getElem?_eq_getElem hk)
  rw [Buffer.nextOf, List.getElem?_eq_getElem hk, Option.bind_some, hl]
  exact hnext

/-- Two peers break lines at the end of the window, and one of them joins its line again: then four lines
    are shown on a screen of three. -/
theorem viewport_stretched : ∃ b : Buffer ListRope, Reachable b ∧ b.height = 3 ∧
    (b.chain.filter fun x => x.2.onScreen).length = 4 ∧ ¬ ∃ ps i o j, Viewport b ps i o j := by
  have htest : returns (bufferFromFile (R := ListRope) (bytes "\n") 1 3 6 true) (fun b =>
      (replay b [.new 26 0 0, .new 30 3 0, .move 26 .right, .insertLine 26, .insertLine 30, .free 30, .del 26]).any
        fun b => decide (b.height = 3 ∧ (b.chain.filter fun x => x.2.onScreen).length = 4 ∧
          b.nextOf (b.nextOf b.top) ≠ b.bottom)) = true := by
    decide +kernel
  obtain ⟨b₀, hb₀, htest⟩ := exists_of_returns htest
  obtain ⟨b, hb, hP⟩ := (Option.any_eq_true _ _).mp htest
  obtain ⟨h3, hfour, hne⟩ := of_decide_eq_true hP
  refine ⟨b, (Reached.load (by decide) hb₀).replay hb, h3, hfour, ?_⟩
  rintro ⟨ps, i, o, j, hv⟩
  have hsize := hv.size
  have hlt := hv.bottom_lt
  refine hne ?_
  rw [hv.top, hv.nextOf (by omega), hv.nextOf (by omega), hv.bottom]
  congr 1
  omega

end CoEditor
