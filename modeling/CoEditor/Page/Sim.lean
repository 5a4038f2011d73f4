-- SUMMARY: Every buffer operation acts on a buffer as the page operation of its name acts on its page.
import CoEditor.Page.Cursors
import CoEditor.Page.Edits

/-!
# Buffers follow their pages

One theorem for each operation: run on a buffer and on the page that describes
it, the operation stops at the same fault or ends in a buffer that the new page
describes.
-/

namespace CoEditor

variable {R : Type} [Rope R]

namespace Rep

variable {b : Buffer R} {p : Page R}

/-! ## Characters -/

omit [Rope R] in
/-- Two cursors are on one line exactly when they are on one row. -/
theorem same_line (h : Rep b p) {c d : Cursor} {c' d' : PageCursor} (hc : p.cursor c' = some c)
    (hd : p.cursor d' = some d) : c.ownLine = d.ownLine ↔ c'.row = d'.row := by
  obtain ⟨r, hr, rfl⟩ := Layout.cursor_row hc
  obtain ⟨s, hs, rfl⟩ := Layout.cursor_row hd
  exact h.row_ptr_inj hr hs

omit [Rope R] in
theorem nudge (h : Rep b p) (c ref : CursRef) {cur o : Cursor} {cur' o' : PageCursor} (d : Int)
    (hcur : p.cursor cur' = some cur) (ho : p.cursor o' = some o) :
    p.cursor (Page.nudge c cur' d ref o') = some (CoEditor.nudge c cur d ref o) := by
  have hline := h.same_line hcur ho
  obtain ⟨r, hr, rfl⟩ := Layout.cursor_row hcur
  obtain ⟨s, hs, rfl⟩ := Layout.cursor_row ho
  simp only [Page.nudge, CoEditor.nudge, Page.after, decide_eq_true_eq]
  simp only at hline
  simp only [hline]
  split
  · exact Page.cursor_of_row hs
  · exact Page.cursor_of_row hs

omit [Rope R] in
theorem nudgeOthers (h : Rep b p) {c : CursRef} {cur : Cursor} {cur' : PageCursor} (d : Int)
    (hc : b.curs c = .ok cur) (hcur : p.cursor cur' = some cur) :
    Sim Rep (CoEditor.nudgeOthers b c d) (.ok (p.nudgeOthers c cur' d)) := by
  obtain ⟨r, hr, hown⟩ := h.own_ok
  have hown' : p.cursor p.own = some ⟨p.own.id, r.ptr, p.own.pos⟩ := Page.cursor_of_row hr
  have hrow : ∀ ref o, (Page.nudge c cur' d ref o).row = o.row := by
    intro ref o
    unfold Page.nudge
    split <;> rfl
  simp only [CoEditor.nudgeOthers, hc, hown, Except.ok_bind_eq]
  refine .ok
    { h with
      own := (h.nudge c .own d hcur hown').symm
      peers := ?_
      curs_lt := ?_ }
  · show b.peerCurss.mapIdx _ = (p.peers.mapIdx fun i o => o.map (Page.nudge c cur' d (.peer i))).map
      fun o => o.bind p.cursor
    apply List.ext_getElem?
    intro i
    simp only [h.peers, List.getElem?_mapIdx, List.getElem?_map]
    cases hi : p.peers[i]? with
    | none => rfl
    | some o =>
        cases o with
        | none => rfl
        | some o' =>
            obtain ⟨s, hs⟩ := Page.exists_row (h.curs_lt (.peer i) o' (Page.curs_peer.mpr hi))
            have ho := Page.cursor_of_row hs
            simp [ho, h.nudge c (.peer i) d hcur ho]
  · intro ref o ho
    cases ref with
    | own =>
        obtain rfl : Page.nudge c cur' d .own p.own = o := Except.ok.inj ho
        rw [hrow]
        exact h.curs_lt .own p.own rfl
    | peer i =>
        rw [Page.curs_peer] at ho
        simp only [Page.nudgeOthers, List.getElem?_mapIdx, Option.map_eq_some_iff] at ho
        obtain ⟨_, hi, o', rfl, rfl⟩ := ho
        rw [hrow]
        exact h.curs_lt (.peer i) o' (Page.curs_peer.mpr hi)

omit [Rope R] in
/-- The text of the line of a cursor changes, the cursor moves by `d` columns, and the cursors
    after it are nudged. -/
theorem typeAt (h : Rep b p) {c : CursRef} {cur' : PageCursor} {r : Row R} (d : Int)
    (hc' : p.curs c = .ok cur') (hr : p.rows[cur'.row]? = some r) (str : R → R) :
    Sim Rep
      (do
        let b ← b.modifyLine r.ptr fun l => { l with str := str r.str }
        CoEditor.nudgeOthers (b.setCurs ⟨cur'.id, r.ptr, cur'.pos + d⟩ c) c d)
      (.ok (((p.modifyRow cur'.row fun s => { s with str := str s.str }).setCurs
        { cur' with pos := cur'.pos + d } c).nudgeOthers c { cur' with pos := cur'.pos + d } d)) := by
  refine (h.modifyRow hr (fun s => { s with str := str s.str }) (fun _ => rfl) rfl).bind_ok fun b₁ h₁ => ?_
  have hr₁ := modifyRow_rows p (fun s => { s with str := str s.str }) hr
  have hcur₁ := Page.cursor_of_row (c := { cur' with pos := cur'.pos + d }) hr₁
  have h₂ := h₁.setCurs hcur₁ c
  have hc₁ : (p.modifyRow cur'.row fun s => { s with str := str s.str }).curs c = .ok cur' :=
    (Page.curs_congr rfl rfl c).trans hc'
  obtain ⟨cur₂, hb₂, hcur₂⟩ := h₂.curs_ok (Page.curs_setCurs_self hc₁ { cur' with pos := cur'.pos + d })
  exact h₂.nudgeOthers d hb₂ hcur₂

theorem bcursorInsert (h : Rep b p) (id : Int) (chr : UInt8) :
    Sim (fun x y => Rep x.1 y.1 ∧ x.2 = y.2) (CoEditor.bcursorInsert b id chr)
      (p.bcursorInsert id chr) := by
  unfold CoEditor.bcursorInsert Page.bcursorInsert
  rw [h.bcursorFind id, Except.ok_bind_eq]
  cases p.find id with
  | none => exact .ok ⟨h, rfl⟩
  | some c =>
      simp only [cursorInsert, bind_assoc]
      refine (h.curs c).bind' fun cur cur' hc hc' hcur => ?_
      obtain ⟨r, hr, rfl⟩ := Layout.cursor_row hcur
      simp only [h.line hr, Except.ok_bind_eq, Page.lineOf, h.width, Layout.len_of_row hr]
      by_cases hfull : sizeT (p.width - 1) ≤ Rope.charCount r.str
      · simp only [hfull, if_true]
        exact .ok ⟨h.uiUpdate true, rfl⟩
      · have htype := h.typeAt 1 hc' hr fun str => Rope.insert str (sizeT cur'.pos) (hstr chr)
        simp only [hfull, if_false, bind_assoc, Except.pure_eq_ok, Except.ok_bind_eq, true_or, runIf, if_true]
        rw [← bind_assoc]
        exact htype.bind_ok fun b₁ h₁ => .ok ⟨h₁.uiUpdate true, rfl⟩

/-! ## Lines -/

omit [Rope R] in
theorem trimIfSeen (h : Rep b p) {k : Nat} {r : Row R} (hr : p.rows[k]? = some r)
    (hw : p.visible k = true → p.top < p.bottom) :
    Sim Rep (CoEditor.trimIfSeen b r.ptr) (.ok (p.trim k)) := by
  simp only [CoEditor.trimIfSeen, h.line hr, Except.ok_bind_eq, Page.lineOf]
  by_cases hv : p.visible k = true
  · rw [runIf_pos hv]
    exact h.trim hr (hw hv)
  · rw [runIf_neg hv, p.trim_of_not_visible (by simpa using hv)]
    exact .ok h

omit [Rope R] in
theorem scrollIfOwn (h : Rep b p) (c : CursRef) :
    Sim Rep (runIf (c = .own) (bufferScroll · .up) b) (.ok (p.scrollIfOwn c)) :=
  .runIf_ok Iff.rfl h fun _ => h.scroll .up

theorem homeUp (h : Rep b p) : Sim Rep (CoEditor.homeUp b) p.homeUp := by
  obtain ⟨r, hr, hown⟩ := h.own_ok
  obtain ⟨f, hf, hfirst⟩ := h.first_row
  simp only [CoEditor.homeUp, hown, Except.ok_bind_eq, Page.homeUp]
  refine .runIf ?_ h fun _ => h.bcursorMove_fst p.own.id .up
  rw [h.serverMode, hfirst, Ne, h.row_ptr_inj hr hf]

omit [Rope R] in
theorem setNumLines (h : Rep b p) (n : Int) : Rep { b with numLines := n } { p with numLines := n } :=
  { h with
    numLines := rfl
    curs_lt := fun ref c hc => h.curs_lt ref c ((Page.curs_congr rfl rfl ref).symm.trans hc) }

theorem newRow_row (p : Page R) {k : Nat} (ptr : Ptr) (hk : k ≤ p.rows.length) :
    (p.newRow k ptr).rows[k]? = some ⟨ptr, p.lineIdCnt, Rope.new, p.newWhere k⟩ := by
  rw [Page.newRow_rows, List.getElem?_insertIdx_self, if_pos hk]

/-- A line is put in above the line of a cursor. -/
theorem insertAbove (h : Rep b p) (c : CursRef) {cur : PageCursor} {r : Row R}
    (hr : p.rows[cur.row]? = some r) :
    Sim (fun x q => Rep x.1 q ∧ x.2 ∈ q.ptrs) (CoEditor.insertAbove b c ⟨cur.id, r.ptr, cur.pos⟩ (p.lineOf cur.row r))
      (p.insertAbove c cur.row b.heap.cells.length) := by
  have hk := Nat.le_of_lt (Page.lt_of_row hr)
  obtain ⟨heap, hnew, h₁⟩ := h.newRow hk
  obtain ⟨f, hf, hfirst⟩ := h.first_row
  rw [Page.ptrs_of_row hr] at hnew
  have hbuf : ∀ b₀ : Buffer R, b₀ = { b with lineIdCnt := b.lineIdCnt + 1, heap } →
      (if r.ptr = b₀.first then { b₀ with first := b.heap.cells.length } else b₀) =
        { b with
          lineIdCnt := b.lineIdCnt + 1
          heap := heap
          first := if cur.row = 0 then b.heap.cells.length else b.first } := by
    rintro b₀ rfl
    have hiff : r.ptr = b.first ↔ cur.row = 0 := by rw [hfirst, h.row_ptr_inj hr hf]
    by_cases h0 : cur.row = 0
    · simp only [hiff.mpr h0, h0, if_true]
    · simp only [mt hiff.mp h0, h0, if_false]
  simp only [CoEditor.insertAbove, Page.lineOf, hnew, Except.ok_bind_eq, hbuf _ rfl]
  unfold Page.insertAbove
  refine (h₁.trimIfSeen (newRow_row p _ hk) fun hv => ?_).bind_ok fun b₂ h₂ => ?_
  · rw [Page.newRow_visible] at hv
    show bump _ _ < bump _ _
    have hw := h.window
    grind [bump]
  · refine (h₂.scrollIfOwn c).bind_ok fun b₃ h₃ => h₃.homeUp.and_eq.bind_left fun b₄ q hq => .ok ⟨hq.1, ?_⟩
    -- the new line stays where it was put
    have hptrs : q.ptrs = (p.newRow cur.row b.heap.cells.length).ptrs := by
      rw [Page.homeUp_ptrs hq.2.2, (Page.scrollIfOwn_moved _ c).toKept.ptrs, (Page.trim_kept _ cur.row).ptrs]
    rw [hptrs]
    exact List.mem_of_getElem? (Page.ptrs_of_row (newRow_row p _ hk))

/-! ## Loops over the cursors -/

omit [Rope R] in
theorem forCurs {S : Buffer R → Page R → Prop} (hS : ∀ b p, S b p → Rep b p)
    {f : Buffer R → CursRef → Cursor → Except Fault (Buffer R)}
    {g : Page R → CursRef → PageCursor → Except Fault (Page R)}
    (hfg : ∀ b p ref c c', S b p → p.curs ref = .ok c' → p.cursor c' = some c →
      Sim S (f b ref c) (g p ref c'))
    (h : S b p) : Sim S (CoEditor.forCurs f b) (p.forCurs g) := by
  obtain ⟨r, hr, hown⟩ := (hS b p h).own_ok
  simp only [CoEditor.forCurs, hown, Except.ok_bind_eq, Page.forCurs]
  refine (hfg _ _ .own _ _ h rfl (Page.cursor_of_row hr)).bind fun b₁ p₁ h₁ => ?_
  refine Sim.foldlM _ (fun b₂ p₂ i h₂ => ?_) h₁
  simp only [(hS b₂ p₂ h₂).peers, List.getElem?_map]
  cases hi : p₂.peers[i]? with
  | none => exact .ok h₂
  | some o =>
      cases o with
      | none => exact .ok h₂
      | some c' =>
          have hc' := Page.curs_peer.mpr hi
          obtain ⟨s, hs⟩ := Page.exists_row ((hS b₂ p₂ h₂).curs_lt (.peer i) c' hc')
          have hc := Page.cursor_of_row hs
          simp only [Option.map_some, Option.join_some, Option.bind_some, hc]
          exact hfg _ _ _ _ _ h₂ hc' hc

theorem splitOther (h : Rep b p) (c ref : CursRef) {o : Cursor} {o' : PageCursor}
    (ho : p.cursor o' = some o) : Sim Rep (CoEditor.splitOther b c ref o) (p.splitOther c ref o') := by
  simp only [CoEditor.splitOther, standsAfter, bind_assoc, Page.splitOther]
  refine (h.curs c).bind' fun cur cur' hc _ hcur => ?_
  have hline := h.same_line hcur ho
  obtain ⟨r, hr, rfl⟩ := Layout.cursor_row hcur
  obtain ⟨s, hs, rfl⟩ := Layout.cursor_row ho
  simp only [Except.pure_eq_ok, Except.ok_bind_eq, hc, Page.after]
  simp only at hline
  simp only [hline, decide_eq_true_eq]
  split
  · have hset := h.setCurs (c := ⟨o'.id, s.ptr, o'.pos - cur'.pos⟩)
      (Page.cursor_of_row (c := { o' with pos := o'.pos - cur'.pos }) hs) ref
    exact (hset.bcursorMove o'.id .down).bind_left fun x q hx => .ok hx.1
  · exact .ok h

theorem joinOther (h : Rep b p) (c ref : CursRef) {o : Cursor} {o' : PageCursor}
    (ho : p.cursor o' = some o) : Sim Rep (CoEditor.joinOther b c ref o) (p.joinOther c ref o') := by
  simp only [CoEditor.joinOther, Page.joinOther]
  refine (h.curs c).bind' fun cur cur' hc _ hcur => ?_
  obtain ⟨r, hr, rfl⟩ := Layout.cursor_row hcur
  obtain ⟨s, hs, rfl⟩ := Layout.cursor_row ho
  have hnext : p.ptrs[cur'.row + 1]? = some s.ptr ↔ cur'.row + 1 = o'.row := by
    rw [h.ptrAt_eq hs, eq_comm]
  simp only [h.line hr, Except.ok_bind_eq, Page.lineOf, hnext]
  split
  · refine (h.bcursorMove o'.id .up).bind fun x p₁ hx => ?_
    refine (hx.1.curs ref).bind fun o₁ o₁' ho₁ => ?_
    refine (hx.1.curs c).bind fun cur₁ cur₁' hcur₁ => ?_
    obtain ⟨r₁, hr₁, rfl⟩ := Layout.cursor_row hcur₁
    obtain ⟨s₁, hs₁, rfl⟩ := Layout.cursor_row ho₁
    exact .ok (hx.1.setCurs (Page.cursor_of_row (c := { o₁' with pos := o₁'.pos + cur₁'.pos }) hs₁) ref)
  · exact .ok h

/-- With no cursor on row `k` nobody has to leave its line. -/
theorem leaveAll_noop (h : Rep b p) {k : Nat} {r : Row R} (hr : p.rows[k]? = some r)
    (hnone : ∀ ref c, p.curs ref = .ok c → c.row ≠ k) : CoEditor.leaveAll b r.ptr = .ok b := by
  have hsim : Sim (fun b' p' => b' = b ∧ p' = p) (CoEditor.leaveAll b r.ptr)
      (p.forCurs fun q _ o => q.leaveRow k o) := by
    refine forCurs (fun b' p' h' => by rw [h'.1, h'.2]; exact h) ?_ ⟨rfl, rfl⟩
    rintro b' p' ref c c' ⟨rfl, rfl⟩ hc' hc
    obtain ⟨s, hs, rfl⟩ := Layout.cursor_row hc
    have hne := hnone ref c' hc'
    rw [leaveLine, runIf_neg (mt (h.row_ptr_inj hs hr).mp hne), Page.leaveRow, runIf_neg hne]
    exact .ok ⟨rfl, rfl⟩
  rw [Page.leaveRow_noop hnone] at hsim
  obtain ⟨b', hrun, rfl, -⟩ := hsim.of_ok_right
  exact hrun

/-! ## Splitting a line -/

theorem splitText (h : Rep b p) {k : Nat} {r s : Row R} (pos : Int) (hr : p.rows[k]? = some r)
    (hs : p.rows[k + 1]? = some s) :
    Sim Rep
      (do
        let b ← b.modifyLine r.ptr fun l => { l with
          str := Rope.del r.str (sizeT pos) (sizeSub (Rope.charCount (Rope.copy r.str)) (sizeT pos)) }
        b.modifyLine s.ptr fun l => { l with str := Rope.del (Rope.copy r.str) 0 (sizeT pos) })
      (.ok (p.splitText k pos)) := by
  simp only [Page.splitText, hr, Option.map_some, Option.getD_some]
  refine (h.modifyRow hr (fun t => { t with
    str := Rope.del t.str (sizeT pos) (sizeSub (Rope.charCount (Rope.copy r.str)) (sizeT pos)) })
    (fun _ => rfl) rfl).bind_ok fun b₁ h₁ => ?_
  refine h₁.modifyRow ?_ (fun t => { t with str := Rope.del (Rope.copy r.str) 0 (sizeT pos) })
    (fun _ => rfl) rfl
  rw [modifyRow_rows_ne _ _ (by omega)]
  exact hs

theorem splitLine (h : Rep b p) {c : CursRef} {cur' : PageCursor} (hc' : p.curs c = .ok cur')
    {r s : Row R} (hr : p.rows[cur'.row]? = some r) (hs : p.rows[cur'.row + 1]? = some s) :
    Sim Rep (CoEditor.splitLine b c s.ptr) (p.splitLine c) := by
  obtain ⟨cur, hc, hcur⟩ := h.curs_ok hc'
  obtain ⟨r', hr', rfl⟩ := Layout.cursor_row hcur
  simp only [CoEditor.splitLine, Page.splitLine, hc, hc', Except.ok_bind_eq, h.line hs, Page.lineOf,
    prevAt_succ, Page.ptrs_of_row hr, Buffer.modifyLineAt, Buffer.lineAt, h.line hr]
  rw [← bind_assoc]
  exact (h.splitText cur'.pos hr hs).bind_ok fun b₁ h₁ =>
    forCurs (fun _ _ h => h) (fun b p ref o o' h _ ho => h.splitOther c ref ho) h₁

omit [Rope R] in
theorem setLast (h : Rep b p) {k : Nat} {r : Row R} (hr : p.rows[k]? = some r) :
    Rep { b with last := some r.ptr } { p with last := k } :=
  { h with
    last := (Page.ptrs_of_row hr).symm
    last_lt := Page.lt_of_row hr
    curs_lt := fun ref c hc => h.curs_lt ref c ((Page.curs_congr rfl rfl ref).symm.trans hc) }

/-- `line_new` right below row `row`, with the change of `last` that goes with it. -/
theorem newBelow (h : Rep b p) {row : Nat} {r : Row R} (hr : p.rows[row]? = some r) :
    ∃ heap, lineNewCnt b (some r.ptr) p.ptrs[row + 1]? =
        .ok ({ b with lineIdCnt := b.lineIdCnt + 1, heap }, b.heap.cells.length) ∧
      Rep (if some r.ptr = b.last then
          { b with lineIdCnt := b.lineIdCnt + 1, heap := heap, last := some b.heap.cells.length }
        else { b with lineIdCnt := b.lineIdCnt + 1, heap := heap }) (p.newBelow row b.heap.cells.length) := by
  have hk : row + 1 ≤ p.rows.length := Page.lt_of_row hr
  obtain ⟨heap, hnew, h₁⟩ := h.newRow hk
  rw [prevAt_succ, Page.ptrs_of_row hr] at hnew
  rw [if_neg (Nat.succ_ne_zero row)] at h₁
  refine ⟨heap, hnew, ?_⟩
  have hlast : some r.ptr = b.last ↔ row = p.last := by
    rw [h.last, eq_comm, h.mark_eq h.last_lt hr, eq_comm]
  unfold Page.newBelow
  by_cases hl : row = p.last
  · rw [if_pos (hlast.mpr hl), if_pos hl]
    exact h₁.setLast (newRow_row p b.heap.cells.length hk)
  · rw [if_neg (mt hlast.mp hl), if_neg hl]
    exact h₁

theorem newBelow_row (p : Page R) {row : Nat} (ptr : Ptr) (hk : row + 1 ≤ p.rows.length) :
    ∃ s, (p.newBelow row ptr).rows[row + 1]? = some s ∧ s.ptr = ptr :=
  ⟨_, by rw [Page.newBelow_rows, newRow_row p ptr hk], rfl⟩

/-- A line is put in below the line of a cursor. -/
theorem insertBelow (h : Rep b p) (hD : p.Distinct) (hslots : p.peers.length = maxCursorNum)
    (hw : p.top < p.bottom) {c : CursRef} {cur : PageCursor} (hcur : p.curs c = .ok cur)
    {r : Row R} (hr : p.rows[cur.row]? = some r) :
    Sim (fun x q => Rep x.1 q ∧ x.2 ∈ q.ptrs) (CoEditor.insertBelow b cur.id c ⟨cur.id, r.ptr, cur.pos⟩ (p.lineOf cur.row r))
      (p.insertBelow cur.id c cur.row cur.pos b.heap.cells.length) := by
  have hk : cur.row + 1 ≤ p.rows.length := Page.lt_of_row hr
  obtain ⟨heap, hnew, h₁⟩ := h.newBelow hr
  obtain ⟨s, hs, hptr⟩ := newBelow_row p b.heap.cells.length hk
  simp only [CoEditor.insertBelow, Page.lineOf, hnew, Except.ok_bind_eq]
  generalize (if some r.ptr = b.last then
    { b with lineIdCnt := b.lineIdCnt + 1, heap := heap, last := some b.heap.cells.length }
    else { b with lineIdCnt := b.lineIdCnt + 1, heap := heap }) = b₁ at h₁ ⊢
  generalize b.heap.cells.length = ptr at h₁ hs hptr ⊢
  obtain ⟨x, hrun, hmoved, hself, -, hvis⟩ := Page.splitIf_spec hD hslots hcur ptr hw
  have hsplit : Sim Rep (runIf (sizeT cur.pos ≠ Rope.charCount r.str) (CoEditor.splitLine · c ptr) b₁)
      (runIf (sizeT cur.pos ≠ p.len cur.row) (Page.splitLine · c) (p.newBelow cur.row ptr)) := by
    refine .runIf (by rw [Layout.len_of_row hr]) h₁ fun _ => ?_
    have hrow : cur.mapRow (bump (cur.row + 1)) = cur := by
      rw [PageCursor.mapRow, bump, if_neg (by omega)]
    have hcur₁ : (p.newBelow cur.row ptr).curs c = .ok cur := by
      rw [Page.newBelow_curs, hcur]
      exact congrArg Except.ok hrow
    have hr₁ : (p.newBelow cur.row ptr).rows[cur.row]? = some r := by
      rw [Page.newBelow_rows, Page.newRow_rows, List.getElem?_insertIdx_of_lt (by omega)]
      exact hr
    have hsim := h₁.splitLine hcur₁ hr₁ hs
    rwa [hptr] at hsim
  rw [hrun] at hsplit
  have hx : x.ptrs[cur.row + 1]? = some ptr := by
    rw [hmoved.ptrs, Page.rowsBelow_ptrs, Page.ptrs_of_row hs, hptr]
  rw [Page.ptrs_getElem?, Option.map_eq_some_iff] at hx
  obtain ⟨t, ht, htptr⟩ := hx
  simp only [Page.insertBelow, hrun, hself, Except.ok_bind_eq]
  refine hsplit.bind_ok fun b₂ h₂ => ?_
  obtain ⟨cur₂, hb₂, hcur₂⟩ := h₂.curs_ok hself
  obtain ⟨u, hu, rfl⟩ := Layout.cursor_row hcur₂
  have h₃ := h₂.setCurs (Page.cursor_of_row (c := { cur with pos := 0 }) hu) c
  have ht₃ : (x.setCurs { cur with pos := 0 } c).rows[cur.row + 1]? = some t := by cases c <;> exact ht
  have hvis₃ : (x.setCurs { cur with pos := 0 } c).visible (cur.row + 1) = true →
      (x.setCurs { cur with pos := 0 } c).top < (x.setCurs { cur with pos := 0 } c).bottom := by
    intro hv
    have hlt := hvis (by rw [← hv]; cases c <;> rfl)
    cases c <;> exact Nat.lt_of_succ_lt hlt
  have htrim := h₃.trimIfSeen ht₃ hvis₃
  rw [htptr] at htrim
  simp only [hb₂, Except.ok_bind_eq]
  refine htrim.bind_ok fun b₄ h₄ => (h₄.bcursorMove cur.id .down).and_eq.bind_left fun y q hq => .ok ⟨hq.1.1, ?_⟩
  rw [Page.bcursorMove_ptrs hq.2.2, (Page.trim_kept _ _).ptrs, ← htptr]
  exact List.mem_of_getElem? (Page.ptrs_of_row ht₃)

/-- Insert a line at a cursor. The new line is the next cell of the memory. -/
theorem bcursorInsertLine (h : Rep b p) (hD : p.Distinct) (hslots : p.peers.length = maxCursorNum)
    (hw : p.top < p.bottom) (id : Int) :
    Sim (fun x q => Rep x.1 q ∧ x.2 = .update) (CoEditor.bcursorInsertLine b id)
      (p.bcursorInsertLine id b.heap.cells.length) := by
  have h₁ := h.setNumLines (p.numLines + 1)
  have hD₁ : ({ p with numLines := p.numLines + 1 } : Page R).Distinct :=
    Page.distinct_congr (fun ref => Page.curs_congr rfl rfl ref) hD
  simp only [CoEditor.bcursorInsertLine, Page.bcursorInsertLine, h.numLines]
  rw [h₁.bcursorFind id, Except.ok_bind_eq]
  refine Sim.bind' (.refl _) fun c _ hc hc' hrefl => ?_
  subst hrefl
  refine (h₁.curs c).bind' fun cur cur' _ hcur hrow => ?_
  obtain ⟨r, hr, rfl⟩ := Layout.cursor_row hrow
  obtain ⟨cur'', hcur'', rfl⟩ := Page.curs_of_findCurs hc'
  obtain rfl : cur'' = cur' := Except.ok.inj (hcur''.symm.trans hcur)
  rw [h₁.line hr, Except.ok_bind_eq]
  have hbranch : Sim (fun x q => Rep x.1 q ∧ x.2 ∈ q.ptrs)
      (if cur''.pos = 0 then CoEditor.insertAbove { b with numLines := p.numLines + 1 } c
          ⟨cur''.id, r.ptr, cur''.pos⟩ (Page.lineOf { p with numLines := p.numLines + 1 } cur''.row r)
        else CoEditor.insertBelow { b with numLines := p.numLines + 1 } cur''.id c
          ⟨cur''.id, r.ptr, cur''.pos⟩ (Page.lineOf { p with numLines := p.numLines + 1 } cur''.row r))
      (if cur''.pos = 0 then Page.insertAbove { p with numLines := p.numLines + 1 } c cur''.row
          b.heap.cells.length
        else Page.insertBelow { p with numLines := p.numLines + 1 } cur''.id c cur''.row cur''.pos
          b.heap.cells.length) := by
    split
    · exact h₁.insertAbove c hr
    · exact h₁.insertBelow hD₁ hslots hw hcur hr
  refine hbranch.bind_left fun x p₁ hx => ?_
  obtain ⟨h₂, hmem⟩ := hx
  obtain ⟨i, hi⟩ := List.getElem?_of_mem hmem
  obtain ⟨s, hs, hptr⟩ := Option.map_eq_some_iff.mp ((Page.ptrs_getElem? p₁ i).symm.trans hi)
  rw [← hptr, h₂.line hs]
  exact .ok ⟨h₂.uiUpdate _, rfl⟩

/-! ## Joining two lines and deleting one -/

theorem joinLines (h : Rep b p) {c : CursRef} {cur' : PageCursor} (hc' : p.curs c = .ok cur')
    {s : Row R} (hs : p.rows[cur'.row + 1]? = some s) :
    Sim Rep (CoEditor.joinLines b c) (p.joinLines c) := by
  obtain ⟨cur, hc, hcur⟩ := h.curs_ok hc'
  obtain ⟨r, hr, rfl⟩ := Layout.cursor_row hcur
  have hlast : p.ptrs[cur'.row + 1]? = b.last ↔ cur'.row + 1 = p.last := by
    rw [h.last, h.ptr_inj (Page.lt_of_row hs)]
  have h₁ : Rep (if p.ptrs[cur'.row + 1]? = b.last then { b with last := some r.ptr } else b)
      (p.raiseLast cur'.row) := by
    unfold Page.raiseLast
    by_cases hl : cur'.row + 1 = p.last
    · rw [if_pos (hlast.mpr hl), if_pos hl]
      exact h.setLast hr
    · rw [if_neg (mt hlast.mp hl), if_neg hl]
      exact h
  have hrows : (p.raiseLast cur'.row).rows = p.rows := by
    unfold Page.raiseLast
    split <;> rfl
  simp only [CoEditor.joinLines, Page.joinLines, hc, hc', Except.ok_bind_eq, h.line hr, Page.lineOf]
  generalize (if p.ptrs[cur'.row + 1]? = b.last then { b with last := some r.ptr } else b) = b₁ at h₁ ⊢
  have hnext : b₁.lineAt p.ptrs[cur'.row + 1]? =
      .ok ((p.raiseLast cur'.row).lineOf (cur'.row + 1) s) := by
    rw [Page.ptrs_of_row hs]
    exact h₁.line (by rw [hrows]; exact hs)
  rw [hnext, Except.ok_bind_eq, Page.strAt_of_row hs]
  simp only [Page.lineOf]
  refine Sim.bind' (.refl _) fun t _ ht _ hrefl => ?_
  subst hrefl
  obtain rfl : Rope.writeCstr s.str = t := by
    simp only [Buffer.writeSp] at ht
    split at ht
    · exact Except.ok.inj ht
    · cases ht
  have htext : Sim Rep
      (runIf (0 < (Rope.writeCstr s.str).length) (fun b => b.modifyLine r.ptr fun l => { l with
        str := Rope.insert r.str (Rope.charCount r.str) (Rope.writeCstr s.str) }) b₁)
      (.ok (p.joinRows cur'.row)) := by
    have hstr : (p.raiseLast cur'.row).strAt (cur'.row + 1) = s.str := by
      rw [Page.strAt, hrows, hs]
      rfl
    simp only [Page.joinRows, Page.joinText, hstr]
    refine .runIf_ok Iff.rfl h₁ fun _ => ?_
    exact h₁.modifyRow (by rw [hrows]; exact hr) (fun u => { u with
      str := Rope.insert u.str (Rope.charCount u.str) (Rope.writeCstr s.str) }) (fun _ => rfl) rfl
  exact htext.bind_ok fun b₂ h₂ =>
    forCurs (fun _ _ h => h) (fun b p ref o o' h _ ho => h.joinOther c ref ho) h₂

omit [Rope R] in
theorem setTop (h : Rep b p) {k : Nat} {r : Row R} (hr : p.rows[k]? = some r) (h0 : 0 < k)
    (htop : p.top = k) : Sim Rep (CoEditor.setTop b (prevAt p.ptrs k)) (.ok { p with top := k - 1 }) := by
  have hw := h.window
  obtain ⟨b₁, hrun, h₁⟩ := h.raiseTop (by omega) (by omega)
  have hb : b.top = some r.ptr := by rw [h.top, htop, Page.ptrs_of_row hr]
  simp only [Buffer.raiseTop, hb, Buffer.lineAt, h.line hr, Except.ok_bind_eq, Page.lineOf] at hrun
  rw [htop] at h₁
  exact .of_exists ⟨b₁, hrun, { h₁ with window := by simp only; omega }⟩

omit [Rope R] in
theorem setBottom (h : Rep b p) {k : Nat} {r : Row R} (hr : p.rows[k]? = some r)
    (h1 : k + 1 < p.rows.length) (hbottom : p.bottom = k) :
    Sim Rep (CoEditor.setBottom b p.ptrs[k + 1]?) (.ok { p with bottom := k + 1 }) := by
  have hw := h.window
  obtain ⟨b₁, hrun, h₁⟩ := h.lowerBottom (by omega) (by omega)
  have hb : b.bottom = some r.ptr := by rw [h.bottom, hbottom, Page.ptrs_of_row hr]
  simp only [Buffer.lowerBottom, hb, Buffer.lineAt, h.line hr, Except.ok_bind_eq, Page.lineOf] at hrun
  rw [hbottom] at h₁
  exact .of_exists ⟨b₁, hrun, { h₁ with window := by simp only; omega }⟩

omit [Rope R] in
/-- The marks on a line that goes move to its neighbours. -/
theorem leaveMarks (h : Rep b p) {k : Nat} {r : Row R} (hr : p.rows[k]? = some r) (h0 : 0 < k)
    (h1 : k + 1 < p.rows.length) :
    Sim Rep
      (do
        let b ← runIf (b.top = some r.ptr) (CoEditor.setTop · (prevAt p.ptrs k)) b
        let b ← runIf (b.bottom = some r.ptr) (CoEditor.setBottom · p.ptrs[k + 1]?) b
        pure (if b.last = some r.ptr then { b with last := prevAt p.ptrs k } else b))
      (.ok (p.leaveMarks k)) := by
  refine Sim.bind_ok (Sim.runIf_ok (d := p.top = k) ?_ h fun htop => h.setTop hr h0 htop) fun b₁ h₁ => ?_
  · rw [h.top, h.mark_eq h.top_lt hr]
  generalize hp₁ : (if p.top = k then { p with top := k - 1 } else p) = p₁ at h₁
  have hrows₁ : p₁.rows = p.rows := by subst hp₁; split <;> rfl
  have hptrs₁ : p₁.ptrs = p.ptrs := by rw [Page.ptrs, hrows₁, Page.ptrs]
  have hr₁ : p₁.rows[k]? = some r := by rw [hrows₁]; exact hr
  refine Sim.bind_ok (Sim.runIf_ok (d := p₁.bottom = k) ?_ h₁ fun hbottom => by
    simpa only [hptrs₁] using h₁.setBottom hr₁ (by rw [hrows₁]; exact h1) hbottom) fun b₂ h₂ => ?_
  · rw [h₁.bottom, h₁.mark_eq h₁.bottom_lt hr₁]
  generalize hp₂ : (if p₁.bottom = k then { p₁ with bottom := k + 1 } else p₁) = p₂ at h₂
  have hrows₂ : p₂.rows = p.rows := by subst hp₂; split <;> simp [hrows₁]
  have hr₂ : p₂.rows[k]? = some r := by rw [hrows₂]; exact hr
  obtain ⟨t, ht⟩ := Page.exists_row (p := p₂) (i := k - 1) (by rw [hrows₂]; omega)
  have hprev : prevAt p.ptrs k = some t.ptr := by
    have hptr := Page.ptrs_of_row ht
    rw [prevAt, if_neg (by omega), ← hptr, Page.ptrs, Page.ptrs, hrows₂]
  have hlast : b₂.last = some r.ptr ↔ p₂.last = k := by
    rw [h₂.last, h₂.mark_eq h₂.last_lt hr₂]
  have hmarks : p.leaveMarks k = if p₂.last = k then { p₂ with last := k - 1 } else p₂ := by
    subst hp₂ hp₁
    unfold Page.leaveMarks
    clear h h₁ h₂
    by_cases htop : p.top = k <;> by_cases hbottom : p.bottom = k <;> by_cases hlast' : p.last = k <;>
      simp [htop, hbottom, hlast']
  rw [hmarks, hprev]
  by_cases hl : p₂.last = k
  · rw [if_pos (hlast.mpr hl), if_pos hl]
    exact .ok (h₂.setLast ht)
  · rw [if_neg (mt hlast.mp hl), if_neg hl]
    exact .ok h₂

/-- Deletion of a line that no cursor is on and that has a line on either side. -/
theorem deletel (h : Rep b p) {k : Nat} {r : Row R} (hr : p.rows[k]? = some r) (h0 : 0 < k)
    (h1 : k + 1 < p.rows.length) (hnone : ∀ ref c, p.curs ref = .ok c → c.row ≠ k) :
    Sim Rep (CoEditor.bufferDeletel b r.ptr) (p.deletel k) := by
  rw [Page.deletel_eq hnone, map_eq_pure_bind]
  simp only [CoEditor.bufferDeletel, h.line hr, Except.ok_bind_eq, Page.lineOf]
  refine Sim.bind' (.runIf Iff.rfl h fun _ => h.extend hr) fun b₁ x _ hx h₁ => ?_
  have hcurs : ∀ ref, x.curs ref = p.curs ref := by
    intro ref
    by_cases hv : p.visible k = true
    · rw [runIf_pos hv] at hx
      exact Page.extend_curs hx ref
    · rw [runIf_neg hv] at hx
      obtain rfl := Except.ok.inj hx
      rfl
  have hrows : x.rows = p.rows := by
    by_cases hv : p.visible k = true
    · rw [runIf_pos hv] at hx
      exact Page.extend_rows hx
    · rw [runIf_neg hv] at hx
      obtain rfl := Except.ok.inj hx
      rfl
  have hptrs : x.ptrs = p.ptrs := by rw [Page.ptrs, hrows, Page.ptrs]
  have hrx : x.rows[k]? = some r := by rw [hrows]; exact hr
  have hmarks := h₁.leaveMarks hrx h0 (by rw [hrows]; exact h1)
  rw [hptrs] at hmarks
  have hprev : prevAt p.ptrs k ≠ none := mt (Layout.prev_eq_none (Page.lt_of_row hr)).mp (by omega)
  have hnone' : ∀ ref c, (x.leaveMarks k).curs ref = .ok c → c.row ≠ k := by
    intro ref c hc
    rw [Page.leaveMarks_curs, hcurs] at hc
    exact hnone ref c hc
  have hrest : ∀ b₂, Rep b₂ (x.leaveMarks k) → Sim Rep
      (do
        let b ← runIf (prevAt p.ptrs k ≠ none) (CoEditor.leaveAll · r.ptr) b₂
        lineFree b r.ptr)
      (.ok ((x.leaveMarks k).eraseRow k)) := by
    intro b₂ h₂
    rw [runIf_pos hprev, h₂.leaveAll_noop hrx hnone', Except.ok_bind_eq]
    refine h₂.eraseRow hrx h0 ?_ ?_ ?_ hnone'
    · show (if x.last = k then k - 1 else x.last) ≠ k
      split <;> omega
    · show (if x.top = k then k - 1 else x.top) ≠ k
      split <;> omega
    · show (if x.bottom = k then k + 1 else x.bottom) ≠ k
      split <;> omega
  have hall := hmarks.bind_ok hrest
  simpa only [bind_assoc, Except.pure_eq_ok, Except.ok_bind_eq] using hall

/-- Delete the character before a cursor, or join its line to the one above. -/
theorem bcursorDel (h : Rep b p) (hD : p.Distinct) (hslots : p.peers.length = maxCursorNum)
    (hrow : ∀ ref c, p.curs ref = .ok c → c.row + 1 < p.rows.length) (id : Int) :
    Sim (fun x y => Rep x.1 y.1 ∧ x.2 = y.2) (CoEditor.bcursorDel b id) (p.bcursorDel id) := by
  unfold CoEditor.bcursorDel Page.bcursorDel
  rw [h.bcursorFind id, Except.ok_bind_eq]
  refine Sim.bind' (.refl _) fun c _ _ hfind hrefl => ?_
  subst hrefl
  refine (h.curs c).bind' fun cur cur' hc hc' hcur => ?_
  obtain ⟨r, hr, rfl⟩ := Layout.cursor_row hcur
  rw [h.line hr, Except.ok_bind_eq]
  by_cases hpos : 0 < cur'.pos
  · have htype := h.typeAt (-1) hc' hr fun str => Rope.del str (sizeT (cur'.pos - 1)) 1
    have hpos0 : cur'.pos ≠ 0 := by omega
    simp only [hpos, if_true, cursorDel, hc, Except.ok_bind_eq, hpos0, if_false, h.line hr, bind_assoc,
      Page.lineOf, true_or, runIf, Except.pure_eq_ok]
    rw [← bind_assoc]
    refine htype.bind_ok fun b₁ h₁ => ?_
    have hr₁ := modifyRow_rows p (fun s => { s with str := Rope.del s.str (sizeT (cur'.pos - 1)) 1 }) hr
    have hline := h₁.line (i := cur'.row) (r := { r with str := Rope.del r.str (sizeT (cur'.pos - 1)) 1 }) (by cases c <;> exact hr₁)
    rw [hline]
    exact .ok ⟨h₁.uiUpdate _, rfl⟩
  · simp only [hpos, if_false]
    obtain ⟨f, hf, hfirst⟩ := h.first_row
    have hiff : r.ptr = b.first ↔ cur'.row = 0 := by rw [hfirst, h.row_ptr_inj hr hf]
    simp only [hiff]
    by_cases h0 : cur'.row = 0
    · simp only [h0, if_true]
      exact .ok ⟨h, rfl⟩
    simp only [h0, if_false, h.numLines]
    have h₁ := h.setNumLines (p.numLines - 1)
    have hD₁ : ({ p with numLines := p.numLines - 1 } : Page R).Distinct :=
      Page.distinct_congr (fun ref => Page.curs_congr rfl rfl ref) hD
    have hc₁ : ({ p with numLines := p.numLines - 1 } : Page R).curs c = .ok cur' :=
      (Page.curs_congr rfl rfl c).trans hc'
    obtain ⟨cur'', hcur'', rfl⟩ := Page.curs_of_findCurs hfind
    obtain rfl : cur'' = cur' := Except.ok.inj (hcur''.symm.trans hc')
    obtain ⟨hleft, hmoved, hto, -⟩ := Page.bcursorMove_left hD₁ hc₁ hpos h0
    refine (h₁.bcursorMove cur''.id .left).bind' fun x p₁ _ hp₁ hx => ?_
    obtain rfl := Except.ok.inj (hleft.symm.trans hp₁)
    generalize Page.moveCurs { p with numLines := p.numLines - 1 } c cur'' .left = p₁ at hmoved hto hx
    have hlen₁ : p₁.rows.length = p.rows.length := hmoved.rows_length
    have hlt := hrow c cur'' hc'
    obtain ⟨s, hs⟩ := Page.exists_row (p := p₁) (i := cur''.row - 1 + 1) (by omega)
    refine (hx.1.joinLines hto hs).bind' fun b₂ p₂ _ hp₂ h₂ => ?_
    obtain ⟨hmoved₂, hto₂, -, hnone⟩ := Page.joinLines_ok (hmoved.distinct hD₁)
      (hmoved.slots.trans hslots) hto hp₂
    have hlen₂ : p₂.rows.length = p.rows.length := by
      rw [hmoved₂.rows_length, Page.joinRows_length, hlen₁]
    obtain ⟨cur₂, hb₂, hcur₂⟩ := h₂.curs_ok hto₂
    obtain ⟨t, ht, rfl⟩ := Layout.cursor_row hcur₂
    obtain ⟨u, hu⟩ := Page.exists_row (p := p₂) (i := cur''.row - 1 + 1) (by omega)
    simp only [hb₂, hto₂, Except.ok_bind_eq, h₂.line ht, Page.lineOf, Page.ptrs_of_row hu]
    refine (h₂.deletel hu (by omega) (by omega) hnone).bind' fun b₃ p₃ _ hp₃ h₃ => ?_
    -- the cursor is still there
    obtain ⟨x₃, -, -, hcurs₃, -, rfl⟩ := Page.deletel_ok hnone hp₃
    obtain ⟨c₃, hto₃⟩ : ∃ c₃, ((x₃.leaveMarks (cur''.row - 1 + 1)).eraseRow (cur''.row - 1 + 1)).curs c = .ok c₃ :=
      ⟨_, by rw [Page.eraseRow_curs, Page.leaveMarks_curs, hcurs₃, hto₂]; rfl⟩
    obtain ⟨cur₃, hb₃, hcur₃⟩ := h₃.curs_ok hto₃
    obtain ⟨t₃, ht₃, rfl⟩ := Layout.cursor_row hcur₃
    simp only [hb₃, Except.ok_bind_eq, h₃.line ht₃]
    exact .ok ⟨h₃.uiUpdate _, rfl⟩

/-! ## Adding and removing cursors -/

end Rep

omit [Rope R] in
theorem Chained.blineFindFrom {b : Buffer R} {p : Page R} (hc : Chained b.heap p.rows)
    (hfirst : p.ptrs[0]? = some b.first) (id : Int) :
    ∀ (k fuel : Nat), k < p.rows.length → k < fuel →
      CoEditor.blineFindFrom b id fuel p.ptrs[k]? =
        .ok ((p.blineFindFrom id k).bind fun j => p.ptrs[j]?) := by
  have hline : ∀ {i r}, p.rows[i]? = some r → ∃ l, b.line r.ptr = .ok l ∧ l.id = r.id ∧ l.prev = prevAt p.ptrs i := by
    intro i r hr
    obtain ⟨l, hl, hid, -⟩ := hc.cell i r hr
    obtain ⟨l', hl', hprev, -⟩ := hc.linked.cell i r.ptr (Page.ptrs_of_row hr)
    obtain rfl := Option.some.inj (hl.symm.trans hl')
    exact ⟨l, by simp [Buffer.line, hl], hid, hprev⟩
  intro k
  induction k with
  | zero =>
      intro fuel hk hfuel
      obtain ⟨n, rfl⟩ : ∃ n, fuel = n + 1 := ⟨fuel - 1, by omega⟩
      obtain ⟨f, hf⟩ := Page.exists_row hk
      obtain ⟨l, hl, hlid, -⟩ := hline hf
      rw [Page.ptrs_of_row hf, Option.some.injEq] at hfirst
      rw [Page.ptrs_of_row hf]
      simp only [CoEditor.blineFindFrom, hl, hlid, Except.ok_bind_eq, Page.blineFindFrom,
        Page.idAt, hf, Option.map_some, Option.some.injEq, ← hfirst, ne_eq, not_true, if_false]
      by_cases hid : id = f.id
      · simp [hid, Page.ptrs_of_row hf]
      · have hid' : ¬ f.id = id := fun e => hid e.symm
        simp [hid, hid']
  | succ k ih =>
      intro fuel hk hfuel
      obtain ⟨n, rfl⟩ : ∃ n, fuel = n + 1 := ⟨fuel - 1, by omega⟩
      obtain ⟨r, hr⟩ := Page.exists_row hk
      obtain ⟨l, hl, hlid, hprev⟩ := hline hr
      have hne : r.ptr ≠ b.first := by
        intro e
        have hr' := Page.ptrs_of_row hr
        rw [e, ← hfirst] at hr'
        exact absurd ((List.getElem?_inj (by simpa using hk) hc.linked.nodup).mp hr') (Nat.succ_ne_zero k)
      rw [Page.ptrs_of_row hr]
      simp only [CoEditor.blineFindFrom, hl, hlid, hprev, Except.ok_bind_eq, Page.blineFindFrom,
        Page.idAt, hr, Option.map_some, Option.some.injEq, hne, ne_eq, not_false_eq_true, if_true, prevAt_succ]
      by_cases hid : id = r.id
      · simp [hid, Page.ptrs_of_row hr]
      · have hid' : ¬ r.id = id := fun e => hid e.symm
        simp only [hid, hid', if_false]
        exact ih n (by omega) (by omega)

omit [Rope R] in
theorem Chained.blineFind {b : Buffer R} {p : Page R} (hc : Chained b.heap p.rows)
    (hfirst : p.ptrs[0]? = some b.first) (hlast : b.last = p.ptrs[p.last]?) (hlt : p.last < p.rows.length) (id : Int) :
    CoEditor.blineFind b id = .ok ((p.blineFind id).bind fun j => p.ptrs[j]?) := by
  have hle := hc.length_le
  rw [CoEditor.blineFind, hlast]
  exact hc.blineFindFrom hfirst id p.last _ hlt (by omega)

namespace Loose

variable {b : Buffer R} {p : Page R}

omit [Rope R] in
theorem setCurs (h : Loose b p) {c : Cursor} {c' : PageCursor} (hc : p.cursor c' = some c) (ref : CursRef) :
    Loose (b.setCurs c ref) (p.setCurs c' ref) :=
  { h.toMarks.setCurs hc ref with
    chained := by cases ref <;> exact h.chained }

theorem uiUpdate (h : Loose b p) (seen : Bool) : Loose (b.uiUpdate seen) p := by
  unfold Buffer.uiUpdate
  split
  · exact { h with }
  · exact h
  · split
    · exact { h with }
    · exact h

theorem uiUpdate_heap (b : Buffer R) (seen : Bool) : (b.uiUpdate seen).heap = b.heap := by
  unfold Buffer.uiUpdate
  split
  · rfl
  · rfl
  · split <;> rfl

theorem addCurs (h : Loose b p) (c' : PageCursor) {r : Row R} (hr : p.rows[c'.row]? = some r) (seen : Bool) :
    Sim (fun x y => (Loose x.1 y.1 ∧ x.1.heap = b.heap) ∧ x.2 = y.2)
      (if c'.id = 0 then pure ({ b with ownCurs := some ⟨c'.id, r.ptr, c'.pos⟩ }, .update)
        else match b.peerCurss.findIdx? (·.isNone) with
        | none => pure (b, .failed)
        | some i =>
            pure ({ b with peerCurss := b.peerCurss.set i (some ⟨c'.id, r.ptr, c'.pos⟩) }.uiUpdate seen, .update))
      (.ok (p.addCurs c') : Except Fault (Page R × Bres)) := by
  have hc := Page.cursor_of_row (c := c') hr
  have hfind : b.peerCurss.findIdx? (·.isNone) = p.peers.findIdx? (·.isNone) := by
    rw [h.peers, List.findIdx?_map]
    refine findIdx?_congr fun o ho => ?_
    cases o with
    | none => rfl
    | some d =>
        obtain ⟨i, hi⟩ := List.getElem?_of_mem ho
        obtain ⟨s, hs⟩ := Page.exists_row (h.curs_lt (.peer i) d (Page.curs_peer.mpr hi))
        simp [Page.cursor_of_row hs]
  simp only [Page.addCurs, hfind]
  by_cases hid : c'.id = 0
  · rw [if_pos hid, if_pos hid]
    exact .ok ⟨⟨h.setCurs hc .own, rfl⟩, rfl⟩
  · rw [if_neg hid, if_neg hid]
    cases p.peers.findIdx? (·.isNone) with
    | none => exact .ok ⟨⟨h, rfl⟩, rfl⟩
    | some i => exact .ok ⟨⟨(h.setCurs hc (.peer i)).uiUpdate seen, uiUpdate_heap _ seen⟩, rfl⟩

theorem bcursorNew (h : Loose b p) (id lid pos : Int) :
    Sim (fun x y => (Loose x.1 y.1 ∧ x.1.heap = b.heap) ∧ x.2 = y.2) (CoEditor.bcursorNew b id lid pos)
      (p.bcursorNew id lid pos) := by
  simp only [CoEditor.bcursorNew, Page.bcursorNew, h.chained.blineFind h.first h.last h.last_lt, Except.ok_bind_eq]
  cases hfind : p.blineFind lid with
  | none => exact .error
  | some k =>
      have hlt := h.last_lt
      obtain ⟨r, hr⟩ := Page.exists_row (p := p) (i := k) (by
        have := (Page.blineFindFrom_some hfind).1
        omega)
      obtain ⟨l, hl, -⟩ := h.chained.cell k r hr
      simp only [Option.bind_some, Page.ptrs_of_row hr, Buffer.lineAt, Buffer.line, hl, Except.ok_bind_eq,
        Option.map_some]
      exact h.addCurs ⟨id, k, pos⟩ hr l.onScreen

end Loose

omit [Rope R] in
/-- A new cursor leaves rows and window alone. -/
theorem Page.bcursorNew_frame {p q : Page R} {id lid pos : Int} {res : Bres}
    (h : p.bcursorNew id lid pos = .ok (q, res)) : q.rows = p.rows ∧ q.top = p.top ∧ q.bottom = p.bottom := by
  unfold Page.bcursorNew at h
  split at h
  · cases h
  · have h := Except.ok.inj h
    unfold Page.addCurs at h
    split at h
    · obtain ⟨rfl, -⟩ := Prod.mk.inj h
      exact ⟨rfl, rfl, rfl⟩
    · split at h <;> obtain ⟨rfl, -⟩ := Prod.mk.inj h <;> exact ⟨rfl, rfl, rfl⟩

namespace Rep

variable {b : Buffer R} {p : Page R}

theorem bcursorNew (h : Rep b p) (id lid pos : Int) :
    Sim (fun x y => Rep x.1 y.1 ∧ x.2 = y.2) (CoEditor.bcursorNew b id lid pos)
      (p.bcursorNew id lid pos) := by
  refine (h.loose.bcursorNew id lid pos).and_eq.mono ?_
  rintro ⟨b', res⟩ ⟨q, res'⟩ ⟨⟨⟨hl, hheap⟩, hres⟩, -, hq⟩
  obtain ⟨hrows, htop, hbottom⟩ := Page.bcursorNew_frame hq
  have hptrs : q.ptrs = p.ptrs := by rw [Page.ptrs, hrows]; rfl
  refine ⟨{ hl.toMarks with nodup := ?_, cell := ?_, window := ?_ }, hres⟩
  · rw [hptrs]
    exact h.nodup
  · intro i r hr
    rw [hrows] at hr
    have hcell := h.cell i r hr
    rw [← hheap] at hcell
    simp only [hcell, Page.lineOf, hptrs, Page.visible, htop, hbottom]
  · simp only [htop, hbottom]
    exact h.window

theorem bcursorCopyOwn (h : Rep b p) (id : Int) :
    Sim (fun x y => Rep x.1 y.1 ∧ x.2 = y.2) (CoEditor.bcursorCopyOwn b id) (p.bcursorCopyOwn id) := by
  obtain ⟨r, hr, hown⟩ := h.own_ok
  simp only [CoEditor.bcursorCopyOwn, hown, Except.ok_bind_eq, h.line hr, Page.lineOf,
    Page.bcursorCopyOwn, Page.idAt, hr, Option.map_some]
  exact h.bcursorNew id r.id p.own.pos

theorem bcursorFree (h : Rep b p) (id : Int) :
    Sim (fun x y => Rep x.1 y.1 ∧ x.2 = y.2) (CoEditor.bcursorFree b id) (p.bcursorFree id) := by
  simp only [CoEditor.bcursorFree, Page.bcursorFree, h.bcursorFind id, Except.ok_bind_eq]
  cases hfind : p.find id with
  | none => exact .error
  | some ref =>
      cases ref with
      | own => exact .ok ⟨h, rfl⟩
      | peer i =>
          obtain ⟨c', hc', -⟩ := Page.curs_of_find hfind
          obtain ⟨c, hc, hcur⟩ := h.curs_ok hc'
          obtain ⟨r, hr, rfl⟩ := Layout.cursor_row hcur
          simp only [hc, Except.ok_bind_eq, h.line hr]
          have hfreed : Rep ({ b with peerCurss := b.peerCurss.set i none } : Buffer R)
              ({ p with peers := p.peers.set i none } : Page R) := by
            refine { h with peers := ?_, curs_lt := ?_ }
            · show b.peerCurss.set i none = (p.peers.set i none).map fun o => o.bind p.cursor
              rw [h.peers, List.map_set]
              rfl
            · intro ref d hd
              cases ref with
              | own => exact h.curs_lt .own d hd
              | peer j =>
                  rw [Page.curs_peer] at hd
                  refine h.curs_lt (.peer j) d (Page.curs_peer.mpr ?_)
                  simp only [List.getElem?_set] at hd
                  grind
          exact .ok ⟨hfreed.uiUpdate _, rfl⟩

end Rep

end CoEditor
