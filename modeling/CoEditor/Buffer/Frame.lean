-- SUMMARY: The fields of a buffer that no call assigns, and the lines in memory that num_lines does not count.
import CoEditor.Buffer.File

/-!
# The frame of a buffer

A buffer gets its id, its version, its size, its mode and its user interface when
it is made. The calls on it change lines, cursors, marks and counters only, and
`num_lines` changes with the number of lines in memory.
-/

namespace CoEditor

variable {R : Type}

/-- The fields that stay. -/
def Buffer.frame (b : Buffer R) : Int × Int × Int × Int × Bool := (b.id, b.ver, b.height, b.width, b.serverMode)

/-- What no call assigns. -/
abbrev Fixed : Type := (Int × Int × Int × Int × Bool) × UiPtr × Option Fault

/-- The frame, and whether there is a user interface; without one nothing is painted. -/
def Buffer.fixed (b : Buffer R) : Fixed := (b.frame, b.u, if b.u = .ui then none else b.paintFault)

/-- A call that returns a buffer with the fixed fields `t`. -/
abbrev Fixes (t : Fixed) (x : Except Fault (Buffer R)) : Prop :=
  Yields (fun b => b.fixed = t) x

/-- A call that returns a buffer with the fixed fields `t`, and something else. -/
abbrev FixesFst {α : Type} (t : Fixed) (x : Except Fault (Buffer R × α)) : Prop :=
  Yields (fun r => r.1.fixed = t) x

/-- As long as there is no user interface, nothing has been painted. -/
theorem Buffer.paintFault_of_fixed {b : Buffer R} {t : Int × Int × Int × Int × Bool} {u : UiPtr} (hu : u ≠ .ui)
    (h : b.fixed = (t, u, none)) : b.paintFault = none := by
  have hb : b.u = u := congrArg (·.2.1) h
  have hfault : (if b.u = .ui then none else b.paintFault) = none := congrArg (·.2.2) h
  rwa [if_neg (hb ▸ hu)] at hfault

/-- The lines in memory that `num_lines` does not count. -/
def Buffer.stray (b : Buffer R) : Int := b.heap.live.length - b.numLines

/-- What a call may change only by `line_new` and `line_free`. -/
def Buffer.ledger (b : Buffer R) : Fixed × Int := (b.fixed, b.stray)

/-- A call that returns a buffer with the ledger `t`. -/
abbrev Keeps (t : Fixed × Int) (x : Except Fault (Buffer R)) : Prop :=
  Yields (fun b => b.ledger = t) x

/-- A call that returns a buffer with the ledger `t`, and something else. -/
abbrev KeepsFst {α : Type} (t : Fixed × Int) (x : Except Fault (Buffer R × α)) : Prop :=
  Yields (fun r => r.1.ledger = t) x

/-- What a call that paints nothing may change only by `line_new` and `line_free`. -/
def Buffer.quiet (b : Buffer R) : (Fixed × Int) × Option Fault := (b.ledger, b.paintFault)

/-- A call that paints nothing. -/
abbrev Quiet (t : (Fixed × Int) × Option Fault) (x : Except Fault (Buffer R)) : Prop :=
  Yields (fun b => b.quiet = t) x

/-- A call that paints nothing, and returns something else besides. -/
abbrev QuietFst {α : Type} (t : (Fixed × Int) × Option Fault) (x : Except Fault (Buffer R × α)) : Prop :=
  Yields (fun r => r.1.quiet = t) x

theorem Quiet.keeps {b : Buffer R} {x : Except Fault (Buffer R)} (h : Quiet b.quiet x) : Keeps b.ledger x :=
  fun b' hb' => congrArg Prod.fst (h b' hb')

theorem QuietFst.keeps {α : Type} {b : Buffer R} {x : Except Fault (Buffer R × α)} (h : QuietFst b.quiet x) :
    KeepsFst b.ledger x := fun r hr => congrArg Prod.fst (h r hr)

theorem Keeps.fixes {b : Buffer R} {n : Int} {x : Except Fault (Buffer R)} (h : Keeps (b.fixed, n) x) : Fixes b.fixed x :=
  fun b' hb' => congrArg Prod.fst (h b' hb')

theorem KeepsFst.fixes {α : Type} {b : Buffer R} {n : Int} {x : Except Fault (Buffer R × α)} (h : KeepsFst (b.fixed, n) x) :
    FixesFst b.fixed x := fun r hr => congrArg Prod.fst (h r hr)

/-- To count one more is to have one stray line less. -/
theorem Buffer.ledger_more (b : Buffer R) : (({ b with numLines := b.numLines + 1 } : Buffer R).fixed,
    ({ b with numLines := b.numLines + 1 } : Buffer R).stray + 1) = b.ledger := by
  refine Prod.ext rfl ?_
  simp only [ledger, stray]
  omega

theorem Buffer.ledger_fewer (b : Buffer R) : ({ b with numLines := b.numLines - 1 } : Buffer R).ledger =
    (b.fixed, b.stray + 1) := by
  refine Prod.ext rfl ?_
  simp only [ledger, stray]
  omega

theorem KeepsFst.fst {α : Type} {t : Fixed × Int} {x : Except Fault (Buffer R × α)}
    (h : KeepsFst t x) : Keeps t (Prod.fst <$> x) := h.map fun _ hr => hr

/-! ## Lines and the window -/

@[simp] theorem Buffer.uiUpdate_ledger [Rope R] (seen : Bool) (b : Buffer R) : (b.uiUpdate seen).ledger = b.ledger := by
  unfold uiUpdate
  cases hu : b.u with
  | unset => simp [ledger, fixed, frame, stray, hu]
  | null => rfl
  | ui =>
      simp only
      split
      · simp [ledger, fixed, frame, stray, hu]
      · rfl

@[simp] theorem Buffer.setCurs_quiet (b : Buffer R) (c : Cursor) (ref : CursRef) : (b.setCurs c ref).quiet = b.quiet := by
  cases ref <;> rfl

@[simp] theorem Buffer.setCurs_ledger (b : Buffer R) (c : Cursor) (ref : CursRef) : (b.setCurs c ref).ledger = b.ledger :=
  congrArg Prod.fst (b.setCurs_quiet c ref)

theorem Buffer.get?_of_line {b : Buffer R} {p : Ptr} {l : Line R} (h : b.line p = .ok l) : b.heap.get? p = some l := by
  unfold line at h
  split at h
  · next hl => rw [hl, Except.ok.inj h]
  · cases h

theorem Buffer.modifyLine_quiet (b : Buffer R) (p : Ptr) (f : Line R → Line R) : Quiet b.quiet (b.modifyLine p f) := by
  intro b' h
  obtain ⟨l, hl, hb'⟩ := Except.bind_eq_ok.mp h
  obtain rfl := Except.ok.inj hb'
  refine Prod.ext (Prod.ext rfl ?_) rfl
  simp only [stray, quiet, ledger, Heap.live_set (get?_of_line hl)]

theorem Buffer.modifyLineIf_live (b : Buffer R) (f : Line R → Line R) (p : Option Ptr) :
    Yields (fun b' => b'.heap.live = b.heap.live) (b.modifyLineIf f p) := by
  cases p with
  | none => exact .ok rfl
  | some p =>
      intro b' h
      obtain ⟨l, hl, hb'⟩ := Except.bind_eq_ok.mp h
      obtain rfl := Except.ok.inj hb'
      exact Heap.live_set (get?_of_line hl)

theorem Buffer.modifyLineAt_quiet (b : Buffer R) (f : Line R → Line R) (p : Option Ptr) :
    Quiet b.quiet (b.modifyLineAt f p) := by
  cases p with
  | none => exact .error _
  | some p => exact b.modifyLine_quiet p f

theorem Buffer.modifyLineIf_quiet (b : Buffer R) (f : Line R → Line R) (p : Option Ptr) :
    Quiet b.quiet (b.modifyLineIf f p) := by
  cases p with
  | none => exact .ok rfl
  | some p => exact b.modifyLine_quiet p f

open Buffer

theorem raiseBottom_quiet (b : Buffer R) : Quiet b.quiet b.raiseBottom :=
  (b.modifyLineAt_quiet _ _).keep fun _ => .read fun _ => .ok rfl

theorem lowerTop_quiet (b : Buffer R) : Quiet b.quiet b.lowerTop :=
  (b.modifyLineAt_quiet _ _).keep fun _ => .read fun _ => .ok rfl

theorem raiseTop_quiet (b : Buffer R) : Quiet b.quiet b.raiseTop := .read fun _ => modifyLineAt_quiet _ _ _

theorem lowerBottom_quiet (b : Buffer R) : Quiet b.quiet b.lowerBottom := .read fun _ => modifyLineAt_quiet _ _ _

theorem bufferScroll_quiet (b : Buffer R) (dir : CmoveDir) : Quiet b.quiet (bufferScroll b dir) := by
  cases dir with
  | left | right => exact .ok rfl
  | up =>
      refine .read fun bottom => ?_
      split
      · exact .ok rfl
      · refine .read fun top => ?_
        split
        · exact .ok rfl
        · refine .read fun own => ?_
          split
          · exact .ok rfl
          · exact (raiseBottom_quiet b).keep raiseTop_quiet
  | down =>
      refine .read fun top => ?_
      split
      · exact .ok rfl
      · refine .read fun bottom => ?_
        split
        · exact .ok rfl
        · refine .read fun own => ?_
          split
          · exact .ok rfl
          · exact (lowerTop_quiet b).keep lowerBottom_quiet

theorem scrollFromOwn_quiet (b : Buffer R) : Quiet b.quiet (scrollFromOwn b) :=
  .read fun _ => (Yields.runIf (bufferScroll_quiet · .down) b).keep fun b =>
    Yields.runIf (bufferScroll_quiet · .up) b

theorem bufferTrim_quiet (b : Buffer R) (l : Ptr) : Quiet b.quiet (bufferTrim b l) := by
  refine .read fun ll => ?_
  split
  · exact .ok rfl
  · refine .read fun own => Yields.keep ?_ scrollFromOwn_quiet
    split
    · split
      · exact raiseBottom_quiet b
      · exact lowerTop_quiet b
    · split
      · exact lowerTop_quiet b
      · exact raiseBottom_quiet b

theorem bufferExtend_quiet (b : Buffer R) (l : Ptr) : Quiet b.quiet (bufferExtend b l) := by
  refine .read fun ll => Yields.keep ?_ scrollFromOwn_quiet
  split
  · refine .read fun bottom => ?_
    split
    · exact lowerBottom_quiet b
    · exact .ok rfl
  · refine .read fun top => ?_
    split
    · exact raiseTop_quiet b
    · exact lowerBottom_quiet b

/-- A line fewer. -/
theorem lineFree_ledger (b : Buffer R) (l : Ptr) : Yields (fun b' => (b'.fixed, b'.stray + 1) = b.ledger) (lineFree b l) := by
  intro b' h
  obtain ⟨ll, hll, h⟩ := Except.bind_eq_ok.mp h
  obtain ⟨b₁, h₁, h⟩ := Except.bind_eq_ok.mp h
  obtain ⟨b₂, h₂, h⟩ := Except.bind_eq_ok.mp h
  have hlive : b₂.heap.live = b.heap.live := (modifyLineIf_live _ _ _ b₂ h₂).trans (modifyLineIf_live _ _ _ b₁ h₁)
  obtain ⟨x, hx⟩ : ∃ x, b₂.heap.get? l = some x := by
    rw [← Heap.mem_live, hlive, Heap.mem_live]
    exact ⟨ll, get?_of_line hll⟩
  obtain rfl := Except.ok.inj h
  have hledger : b₂.ledger = b.ledger :=
    (modifyLineIf_quiet _ _ _).keeps b₂ h₂ |>.trans ((modifyLineIf_quiet _ _ _).keeps b₁ h₁)
  rw [← hledger]
  refine Prod.ext rfl ?_
  have hfree := Heap.live_free hx
  simp only [ledger, stray]
  omega

theorem trimIfSeen_quiet (b : Buffer R) (ll : Ptr) : Quiet b.quiet (trimIfSeen b ll) :=
  .read fun _ => Yields.runIf (bufferTrim_quiet · ll) b

/-! ## Cursors -/

theorem noteUp_quiet (b : Buffer R) (l : Ptr) : Quiet b.quiet (noteUp b l) :=
  .read fun _ => (b.modifyLineAt_quiet _ _).keep fun b => b.modifyLine_quiet _ _

theorem noteDown_quiet (b : Buffer R) (l : Ptr) : Quiet b.quiet (noteDown b l) :=
  .read fun _ => (b.modifyLineAt_quiet _ _).keep fun b => b.modifyLine_quiet _ _

theorem scrollBefore_quiet (b : Buffer R) (c : CursRef) (l : Ptr) : Quiet b.quiet (scrollBefore b c l) := by
  unfold scrollBefore
  split
  · exact (Yields.runIf (bufferScroll_quiet · .up) b).keep fun b => Yields.runIf (bufferScroll_quiet · .down) b
  · exact .ok rfl

theorem scrollAfter_quiet (b : Buffer R) (c : CursRef) (l : Ptr) (res : CmoveRes) :
    Quiet b.quiet (scrollAfter b c l res) := by
  unfold scrollAfter
  split
  · exact (Yields.runIf (bufferScroll_quiet · .up) b).keep fun b =>
      (Yields.runIf (bufferScroll_quiet · .down) b).keep fun b =>
        (Yields.runIf (noteUp_quiet · l) b).keep fun b => Yields.runIf (noteDown_quiet · l) b
  · exact .ok rfl

variable [Rope R]

theorem bcursorNew_keeps (b : Buffer R) (id lid pos : Int) : KeepsFst b.ledger (bcursorNew b id lid pos) := by
  refine .read fun l => .read fun _ => ?_
  dsimp only
  split
  · exact .ok rfl
  · split
    · exact .ok rfl
    · exact .ok (uiUpdate_ledger _ _)

theorem bcursorCopyOwn_keeps (b : Buffer R) (id : Int) : KeepsFst b.ledger (bcursorCopyOwn b id) :=
  .read fun _ => .read fun _ => bcursorNew_keeps b id _ _

theorem bcursorFree_keeps (b : Buffer R) (id : Int) : KeepsFst b.ledger (bcursorFree b id) := by
  refine .read fun c => ?_
  split
  · exact .error _
  · exact .ok rfl
  · exact .read fun _ => .read fun _ => .ok (uiUpdate_ledger _ _)

theorem moveCurs_quiet (b : Buffer R) (c : CursRef) (cur : Cursor) (dir : CmoveDir) :
    QuietFst b.quiet (moveCurs b c cur dir) := by
  refine (scrollBefore_quiet b c cur.ownLine).keep fun b => .read fun r => .read fun _ => ?_
  rw [← b.setCurs_quiet r.1 c]
  exact (scrollAfter_quiet _ c _ _).keep fun _ => .ok rfl

theorem bcursorMove_keeps (b : Buffer R) (id : Int) (dir : CmoveDir) : KeepsFst b.ledger (bcursorMove b id dir) :=
  .read fun _ => .read fun c => .read fun cur => .read fun _ => (moveCurs_quiet b c cur dir).keeps.keep fun x =>
    .ok (x.1.uiUpdate_ledger _)

/-- A line more. -/
theorem lineNewCnt_ledger (b : Buffer R) (prev next : Option Ptr) :
    KeepsFst (b.fixed, b.stray + 1) (lineNewCnt b prev next) := by
  refine .read fun p => .read fun n => ?_
  have hmalloc : ∀ l : Line R, ({ b with lineIdCnt := b.lineIdCnt + 1, heap := (b.heap.malloc l).1 } : Buffer R).ledger =
      (b.fixed, b.stray + 1) := by
    intro l
    refine Prod.ext rfl ?_
    simp only [ledger, stray, Heap.live_malloc, List.length_append, List.length_singleton]
    omega
  rw [← hmalloc]
  exact (modifyLineIf_quiet _ _ prev).keeps.keep fun b => (modifyLineIf_quiet b _ next).keeps.keep fun _ => .ok rfl

/-! ## Edits -/

theorem cursorInsert_quiet (b : Buffer R) (c : CursRef) (chr : UInt8) : QuietFst b.quiet (cursorInsert b c chr) := by
  refine .read fun cur => .read fun l => ?_
  split
  · exact .ok rfl
  · exact (b.modifyLine_quiet _ _).keep fun b => .ok (b.setCurs_quiet _ c)

theorem cursorDel_quiet (b : Buffer R) (c : CursRef) : QuietFst b.quiet (cursorDel b c) := by
  refine .read fun cur => ?_
  split
  · exact .ok rfl
  · exact .read fun l => (b.modifyLine_quiet _ _).keep fun b => .ok (b.setCurs_quiet _ c)

omit [Rope R] in
theorem nudgeOthers_quiet (b : Buffer R) (c : CursRef) (d : Int) : Quiet b.quiet (nudgeOthers b c d) :=
  .read fun _ => .read fun _ => .ok rfl

theorem bcursorInsert_keeps (b : Buffer R) (id : Int) (chr : UInt8) : KeepsFst b.ledger (bcursorInsert b id chr) := by
  refine .read fun c => ?_
  split
  · exact .ok rfl
  · exact (cursorInsert_quiet b _ chr).keeps.keep fun r => (Quiet.keeps (Yields.runIf (nudgeOthers_quiet · _ 1) r.1)).keep fun b =>
      .ok (b.uiUpdate_ledger _)

omit [Rope R] in
theorem forCurs_keeps {f : Buffer R → CursRef → Cursor → Except Fault (Buffer R)}
    (hf : ∀ b ref o, Keeps b.ledger (f b ref o)) (b : Buffer R) : Keeps b.ledger (forCurs f b) := by
  refine .read fun own => (hf b .own own).keep fun b => Yields.foldlM (fun b i => ?_) _ b
  split
  · exact .ok rfl
  · exact hf _ _ _

theorem splitOther_keeps (b : Buffer R) (c ref : CursRef) (o : Cursor) : Keeps b.ledger (splitOther b c ref o) := by
  refine .read fun after => ?_
  split
  · refine .read fun cur => ?_
    rw [← b.setCurs_ledger { o with pos := o.pos - cur.pos } ref]
    exact (bcursorMove_keeps _ _ _).keep fun _ => .ok rfl
  · exact .ok rfl

theorem splitLine_keeps (b : Buffer R) (c : CursRef) (ll : Ptr) : Keeps b.ledger (splitLine b c ll) :=
  .read fun _ => .read fun _ => .read fun _ => (b.modifyLineAt_quiet _ _).keeps.keep fun b =>
    (b.modifyLine_quiet _ _).keeps.keep fun b => forCurs_keeps (splitOther_keeps · c) b

theorem homeUp_keeps (b : Buffer R) : Keeps b.ledger (homeUp b) :=
  .read fun _ => Yields.runIf (fun b => (bcursorMove_keeps b _ .up).fst) b

theorem insertAbove_ledger (b : Buffer R) (c : CursRef) (cur : Cursor) (l : Line R) :
    KeepsFst (b.fixed, b.stray + 1) (insertAbove b c cur l) := by
  refine (lineNewCnt_ledger b _ _).keep fun r => ?_
  have hfirst : (if cur.ownLine = r.1.first then { r.1 with first := r.2 } else r.1).ledger = r.1.ledger := by
    split <;> rfl
  rw [← hfirst]
  exact (trimIfSeen_quiet _ _).keeps.keep fun b => (Quiet.keeps (Yields.runIf (bufferScroll_quiet · .up) b)).keep fun b =>
    (homeUp_keeps b).keep fun _ => .ok rfl

theorem insertBelow_ledger (b : Buffer R) (id : Int) (c : CursRef) (cur : Cursor) (l : Line R) :
    KeepsFst (b.fixed, b.stray + 1) (insertBelow b id c cur l) := by
  refine (lineNewCnt_ledger b _ _).keep fun r => ?_
  have hlast : (if some cur.ownLine = r.1.last then { r.1 with last := some r.2 } else r.1).ledger = r.1.ledger := by
    split <;> rfl
  rw [← hlast]
  refine (Yields.runIf (splitLine_keeps · c r.2) _).keep fun b => .read fun cur => ?_
  rw [← b.setCurs_ledger { cur with pos := 0 } c]
  exact (trimIfSeen_quiet _ _).keeps.keep fun b => (bcursorMove_keeps b id .down).keep fun _ => .ok rfl

theorem bcursorInsertLine_keeps (b : Buffer R) (id : Int) : KeepsFst b.ledger (bcursorInsertLine b id) := by
  refine .read fun c => .read fun c => .read fun cur => .read fun l => Yields.keep (g := fun r => r.1.ledger) ?_ fun r =>
    .read fun _ => .ok (r.1.uiUpdate_ledger _)
  rw [← b.ledger_more]
  split
  · exact insertAbove_ledger _ c cur l
  · exact insertBelow_ledger _ id c cur l

theorem leaveAll_keeps (b : Buffer R) (l : Ptr) : Keeps b.ledger (leaveAll b l) :=
  forCurs_keeps (fun b _ o => Yields.runIf (fun b => (bcursorMove_keeps b o.id .up).fst) b) b

omit [Rope R] in
theorem setTop_quiet (b : Buffer R) (top : Option Ptr) : Quiet b.quiet (setTop b top) := modifyLineAt_quiet _ _ _

omit [Rope R] in
theorem setBottom_quiet (b : Buffer R) (bottom : Option Ptr) : Quiet b.quiet (setBottom b bottom) :=
  modifyLineAt_quiet _ _ _

theorem bufferDeletel_ledger (b : Buffer R) (l : Ptr) :
    Yields (fun b' => (b'.fixed, b'.stray + 1) = b.ledger) (bufferDeletel b l) := by
  refine .read fun ll => (Quiet.keeps (Yields.runIf (bufferExtend_quiet · l) b)).keep fun b =>
    (Quiet.keeps (Yields.runIf (setTop_quiet · ll.prev) b)).keep fun b =>
      (Quiet.keeps (Yields.runIf (setBottom_quiet · ll.next) b)).keep fun b => ?_
  have hlast : (if b.last = some l then { b with last := ll.prev } else b).ledger = b.ledger := by
    split <;> rfl
  rw [← hlast]
  exact (Yields.runIf (leaveAll_keeps · l) _).keep fun b => lineFree_ledger b l

theorem joinOther_keeps (b : Buffer R) (c ref : CursRef) (o : Cursor) : Keeps b.ledger (joinOther b c ref o) := by
  refine .read fun cur => .read fun l => ?_
  split
  · exact (bcursorMove_keeps b o.id .up).keep fun r => .read fun _ => .read fun _ => .ok (r.1.setCurs_ledger _ ref)
  · exact .ok rfl

theorem joinLines_keeps (b : Buffer R) (c : CursRef) : Keeps b.ledger (joinLines b c) := by
  refine .read fun cur => .read fun l => ?_
  have hlast : (if l.next = b.last then { b with last := some cur.ownLine } else b).ledger = b.ledger := by
    split <;> rfl
  rw [← hlast]
  exact .read fun next => .read fun _ => (Quiet.keeps (Yields.runIf (fun b => b.modifyLine_quiet cur.ownLine _) _)).keep fun b =>
    forCurs_keeps (joinOther_keeps · c) b

theorem bcursorDel_keeps (b : Buffer R) (id : Int) : KeepsFst b.ledger (bcursorDel b id) := by
  refine .read fun c => .read fun c => .read fun cur => .read fun _ => ?_
  split
  · exact (cursorDel_quiet b c).keeps.keep fun r => (Quiet.keeps (Yields.runIf (nudgeOthers_quiet · c (-1)) r.1)).keep fun b =>
      .read fun _ => .ok (b.uiUpdate_ledger _)
  · split
    · exact .ok rfl
    · refine (bcursorMove_keeps { b with numLines := b.numLines - 1 } id .left).bind fun r hr =>
        (joinLines_keeps r.1 c).bind fun b₁ h₁ => .read fun cur => .read fun l => ?_
      split
      · exact .error _
      · refine (bufferDeletel_ledger b₁ _).bind fun b₂ h₂ => .read fun _ => .read fun _ =>
          .ok ((b₂.uiUpdate_ledger _).trans ?_)
        obtain ⟨hfixed, hstray⟩ := Prod.mk.inj (((h₂.trans h₁).trans hr).trans b.ledger_fewer)
        exact Prod.ext hfixed ((Int.add_left_inj 1).mp hstray)

/-! ## Loading -/

theorem padLines_ledger : ∀ (n : Nat) (b : Buffer R) (pp : Ptr), Keeps (b.fixed, b.stray + n) (padLines n b pp) := by
  intro n
  induction n with
  | zero => exact fun b pp => .ok (Prod.ext rfl (Int.add_zero _).symm)
  | succ n ih =>
      refine fun b pp => (lineNewCnt_ledger b _ _).bind fun r hr => ?_
      obtain ⟨hfixed, hstray⟩ := Prod.mk.inj hr
      have hnext := ih { r.1 with bottom := some r.2 } r.2
      rw [show (b.fixed, b.stray + (n + 1 : Nat)) = (r.1.fixed, r.1.stray + n) by rw [hfixed, hstray]; congr 1; omega]
      exact hnext

omit [Rope R] in
theorem binitLoop_quiet (own : Ptr) : ∀ (n : Nat) (b : Buffer R) (os : Bool) (rel : Crp) (lit : Option Ptr),
    Quiet b.quiet (binitLoop b own n os rel lit) := by
  intro n
  induction n with
  | zero =>
      intro b os rel lit
      cases lit with
      | none => exact .ok rfl
      | some q => exact .error _
  | succ n ih =>
      intro b os rel lit
      cases lit with
      | none => exact .ok rfl
      | some q => exact (b.modifyLine_quiet q _).keep fun b => .read fun l => ih _ _ _ _

omit [Rope R] in
theorem binitOnscreenInfo_quiet (b : Buffer R) : Quiet b.quiet (binitOnscreenInfo b) :=
  .read fun _ => (b.modifyLine_quiet _ _).keep fun _ => .read fun _ => binitLoop_quiet _ _ _ _ _ _

/-- There is a line even if the height is not positive. -/
theorem bufferEmpty_ledger (id height width : Int) :
    Keeps (((id, 0, height, width, false), .unset, none), 1 + (height - 1).toNat - height)
      (bufferEmpty id height width : Except Fault (Buffer R)) := by
  refine (lineNewCnt_ledger (bufferAlloc R id height width) none none).bind fun r hr => ?_
  obtain ⟨hfixed, hstray⟩ := Prod.mk.inj hr
  have hpad := padLines_ledger (height - 1).toNat { r.1 with first := r.2, top := some r.2, last := some r.2 } r.2
  have hcount : (({ r.1 with first := r.2, top := some r.2, last := some r.2 } : Buffer R).fixed, r.1.stray + (height - 1).toNat) =
      (((id, 0, height, width, false), .unset, none), 1 + (height - 1).toNat - height) := by
    refine Prod.ext hfixed ?_
    rw [hstray]
    show 0 - height + 1 + ((height - 1).toNat : Int) = 1 + (height - 1).toNat - height
    omega
  rw [← hcount]
  exact hpad.keep fun b => (bcursorNew_keeps b 0 0 0).keep fun r =>
    (binitOnscreenInfo_quiet { r.1 with peerCurss := List.replicate maxCursorNum none }).keeps

theorem loadByte_keeps (b : Buffer R) (c : UInt8) : Keeps b.ledger (loadByte b c) := by
  unfold loadByte
  split
  · exact (bcursorInsertLine_keeps b 0).fst
  · exact (bcursorInsert_keeps b 0 c).fst

/-- A file is loaded before there is a user interface. -/
theorem bufferFromFile_keeps (data : Bytes) (id height width : Int) (ui : Bool) :
    Yields (fun b => b.ledger = (((id, 0, height, width, !ui), if ui then .ui else .null, none), 1 + (height - 1).toNat - height) ∧
      b.paintFault = none) (bufferFromFile data id height width ui : Except Fault (Buffer R)) := by
  refine (bufferEmpty_ledger id height width).bind fun b hb => (Yields.foldlM loadByte_keeps data b).bind fun b₁ hb₁ =>
    (Yields.foldlM (fun b _ => (bcursorMove_keeps b 0 .up).fst) _ b₁).bind fun b₂ hb₂ => .read fun _ => .read fun c =>
      .read fun cur => .ok ?_
  have hledger : (b₂.setCurs { cur with pos := 0 } c).ledger =
      (((id, 0, height, width, false), .unset, none), 1 + (height - 1).toNat - height) := by rw [setCurs_ledger, hb₂, hb₁, hb]
  have hfault := paintFault_of_fixed (by decide) (congrArg Prod.fst hledger)
  generalize b₂.setCurs { cur with pos := 0 } c = b₃ at hledger hfault
  cases ui with
  | true => exact ⟨congrArg (fun t => ((t.1.1, UiPtr.ui, none), t.2)) hledger, hfault⟩
  | false =>
      have hframe : b₃.frame = (id, 0, height, width, false) := congrArg (·.1.1) hledger
      have hstray : b₃.stray = 1 + (height - 1).toNat - height := congrArg Prod.snd hledger
      refine ⟨Prod.ext (Prod.ext ?_ (Prod.ext rfl hfault)) hstray, hfault⟩
      exact congrArg (fun t => (t.1, t.2.1, t.2.2.1, t.2.2.2.1, true)) hframe

theorem bufferFromFile_ledger (data : Bytes) (id height width : Int) (ui : Bool) :
    Keeps (((id, 0, height, width, !ui), if ui then .ui else .null, none), 1 + (height - 1).toNat - height)
      (bufferFromFile data id height width ui : Except Fault (Buffer R)) :=
  fun b hb => (bufferFromFile_keeps data id height width ui b hb).1

/-- A buffer is loaded under the id, and in the size, that was asked for. -/
theorem bufferFromFile_frame (data : Bytes) (id height width : Int) (ui : Bool) :
    Yields (fun b => b.frame = (id, 0, height, width, !ui))
      (bufferFromFile data id height width ui : Except Fault (Buffer R)) :=
  fun b hb => congrArg (fun t => t.1.1) (bufferFromFile_ledger data id height width ui b hb)

end CoEditor
