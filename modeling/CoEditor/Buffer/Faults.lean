-- SUMMARY: The calls on a buffer only follow pointers: they read no NULL string and index nothing out of bounds.
import CoEditor.Buffer.File
import CoEditor.Buffer.Snapshot

/-!
# Faults of the calls on a buffer

Whatever state the buffer is in, a call that goes wrong follows a pointer that
it should not, runs out of room, or goes round for ever.
-/

namespace CoEditor

variable {R : Type} [Rope R]

/-- Neither a `NULL` string nor an index is to blame. -/
def PointerFault (e : Fault) : Prop := e ≠ .nullStr ∧ e ≠ .outOfBounds

instance (e : Fault) : Decidable (PointerFault e) := inferInstanceAs (Decidable (_ ∧ _))

/-- The call goes wrong at a pointer only. -/
abbrev Pointers {α : Type} (x : Except Fault α) : Prop := FaultsIn PointerFault x

/-! ## Following pointers -/

namespace Buffer

omit [Rope R]

theorem line_pointers (b : Buffer R) (p : Ptr) : Pointers (b.line p) := by
  unfold line
  split
  · exact .ok _
  · exact FaultsIn.error_iff.mpr (by decide)

theorem lineAt_pointers (b : Buffer R) (p : Option Ptr) : Pointers (b.lineAt p) := by
  cases p with
  | none => exact FaultsIn.error_iff.mpr (by decide)
  | some p => exact b.line_pointers p

theorem modifyLine_pointers (b : Buffer R) (p : Ptr) (f : Line R → Line R) : Pointers (b.modifyLine p f) :=
  (b.line_pointers p).bind fun _ => .ok _

theorem modifyLineAt_pointers (b : Buffer R) (f : Line R → Line R) (p : Option Ptr) : Pointers (b.modifyLineAt f p) := by
  cases p with
  | none => exact FaultsIn.error_iff.mpr (by decide)
  | some p => exact b.modifyLine_pointers p f

theorem own_pointers (b : Buffer R) : Pointers b.own := by
  unfold own
  split
  · exact .ok _
  · exact FaultsIn.error_iff.mpr (by decide)

theorem curs_pointers (b : Buffer R) (ref : CursRef) : Pointers (b.curs ref) := by
  cases ref with
  | own => exact b.own_pointers
  | peer i =>
      unfold curs
      dsimp only
      split
      · exact .ok _
      · exact FaultsIn.error_iff.mpr (by decide)

end Buffer

open Buffer

theorem writeSp_pointers (str : R) : Pointers (writeSp str) := by
  unfold writeSp
  dsimp only
  split
  · exact .ok _
  · exact FaultsIn.error_iff.mpr (by decide)

/-! ## Lines and the window -/

omit [Rope R] in
theorem lineIf_pointers (b : Buffer R) (p : Option Ptr) : Pointers (b.lineIf p) := by
  cases p with
  | none => exact .ok _
  | some p => exact (b.line_pointers p).map _

omit [Rope R] in
theorem modifyLineIf_pointers (b : Buffer R) (f : Line R → Line R) (p : Option Ptr) : Pointers (b.modifyLineIf f p) := by
  cases p with
  | none => exact .ok _
  | some p => exact b.modifyLine_pointers p f

theorem lineNew_pointers (b : Buffer R) (id : Int) (prev next : Option Ptr) : Pointers (lineNew b id prev next) :=
  (lineIf_pointers b prev).bind fun _ => (lineIf_pointers b next).bind fun _ =>
    (modifyLineIf_pointers _ _ prev).bind fun _ => (modifyLineIf_pointers _ _ next).bind fun _ => .ok _

omit [Rope R] in
theorem lineFree_pointers (b : Buffer R) (l : Ptr) : Pointers (lineFree b l) :=
  (b.line_pointers l).bind fun _ => (modifyLineIf_pointers _ _ _).bind fun _ =>
    (modifyLineIf_pointers _ _ _).bind fun _ => .ok _

section
omit [Rope R]

theorem raiseBottom_pointers (b : Buffer R) : Pointers b.raiseBottom :=
  (b.modifyLineAt_pointers _ _).bind fun b => (b.lineAt_pointers _).bind fun _ => .ok _

theorem lowerTop_pointers (b : Buffer R) : Pointers b.lowerTop :=
  (b.modifyLineAt_pointers _ _).bind fun b => (b.lineAt_pointers _).bind fun _ => .ok _

theorem raiseTop_pointers (b : Buffer R) : Pointers b.raiseTop :=
  (b.lineAt_pointers _).bind fun _ => modifyLineAt_pointers _ _ _

theorem lowerBottom_pointers (b : Buffer R) : Pointers b.lowerBottom :=
  (b.lineAt_pointers _).bind fun _ => modifyLineAt_pointers _ _ _

theorem bufferScroll_pointers (b : Buffer R) (dir : CmoveDir) : Pointers (bufferScroll b dir) := by
  cases dir with
  | left | right => exact .ok _
  | up =>
      refine (b.lineAt_pointers _).bind fun bottom => ?_
      split
      · exact .ok _
      · refine (b.lineAt_pointers _).bind fun top => ?_
        split
        · exact .ok _
        · refine b.own_pointers.bind fun own => ?_
          split
          · exact .ok _
          · exact (raiseBottom_pointers b).bind raiseTop_pointers
  | down =>
      refine (b.lineAt_pointers _).bind fun top => ?_
      split
      · exact .ok _
      · refine (b.lineAt_pointers _).bind fun bottom => ?_
        split
        · exact .ok _
        · refine b.own_pointers.bind fun own => ?_
          split
          · exact .ok _
          · exact (lowerTop_pointers b).bind lowerBottom_pointers

theorem scrollFromOwn_pointers (b : Buffer R) : Pointers (scrollFromOwn b) :=
  b.own_pointers.bind fun _ => (FaultsIn.runIf (bufferScroll_pointers · .down) b).bind fun b =>
    FaultsIn.runIf (bufferScroll_pointers · .up) b

theorem bufferTrim_pointers (b : Buffer R) (l : Ptr) : Pointers (bufferTrim b l) := by
  refine (b.line_pointers l).bind fun ll => ?_
  split
  · exact .ok _
  · refine b.own_pointers.bind fun own => FaultsIn.bind ?_ scrollFromOwn_pointers
    split
    · split
      · exact raiseBottom_pointers b
      · exact lowerTop_pointers b
    · split
      · exact lowerTop_pointers b
      · exact raiseBottom_pointers b

theorem bufferExtend_pointers (b : Buffer R) (l : Ptr) : Pointers (bufferExtend b l) := by
  refine (b.line_pointers l).bind fun ll => FaultsIn.bind ?_ scrollFromOwn_pointers
  split
  · refine (b.lineAt_pointers _).bind fun bottom => ?_
    split
    · exact lowerBottom_pointers b
    · exact .ok _
  · refine (b.lineAt_pointers _).bind fun top => ?_
    split
    · exact raiseTop_pointers b
    · exact lowerBottom_pointers b

end

/-! ## Cursors -/

section
omit [Rope R]

theorem blineFind_pointers (b : Buffer R) (id : Int) : Pointers (blineFind b id) := by
  have hfrom : ∀ (n : Nat) (lit : Option Ptr), Pointers (blineFindFrom b id n lit) := by
    intro n
    induction n with
    | zero =>
        intro lit
        cases lit with
        | none => exact .ok _
        | some q => exact FaultsIn.error_iff.mpr (by decide)
    | succ n ih =>
        intro lit
        cases lit with
        | none => exact .ok _
        | some q =>
            refine (b.line_pointers q).bind fun l => ?_
            split
            · exact .ok _
            · split
              · exact ih l.prev
              · exact .ok _
  exact hfrom _ _

theorem bcursorFind_pointers (b : Buffer R) (id : Int) : Pointers (bcursorFind b id) := by
  refine b.own_pointers.bind fun own => ?_
  split
  · exact .ok _
  · exact .ok _

theorem derefCurs_pointers (c : Option CursRef) : Pointers (derefCurs c) := by
  cases c with
  | none => exact FaultsIn.error_iff.mpr (by decide)
  | some c => exact .ok _

theorem noteUp_pointers (b : Buffer R) (l : Ptr) : Pointers (noteUp b l) :=
  (b.line_pointers l).bind fun _ => (b.modifyLineAt_pointers _ _).bind fun b => b.modifyLine_pointers _ _

theorem noteDown_pointers (b : Buffer R) (l : Ptr) : Pointers (noteDown b l) :=
  (b.line_pointers l).bind fun _ => (b.modifyLineAt_pointers _ _).bind fun b => b.modifyLine_pointers _ _

theorem scrollBefore_pointers (b : Buffer R) (c : CursRef) (l : Ptr) : Pointers (scrollBefore b c l) := by
  unfold scrollBefore
  split
  · exact (FaultsIn.runIf (bufferScroll_pointers · .up) b).bind fun b => FaultsIn.runIf (bufferScroll_pointers · .down) b
  · exact .ok _

theorem scrollAfter_pointers (b : Buffer R) (c : CursRef) (l : Ptr) (res : CmoveRes) :
    Pointers (scrollAfter b c l res) := by
  unfold scrollAfter
  split
  · exact (FaultsIn.runIf (bufferScroll_pointers · .up) b).bind fun b =>
      (FaultsIn.runIf (bufferScroll_pointers · .down) b).bind fun b =>
        (FaultsIn.runIf (noteUp_pointers · l) b).bind fun b => FaultsIn.runIf (noteDown_pointers · l) b
  · exact .ok _

end

theorem bcursorNew_pointers (b : Buffer R) (id lid pos : Int) : Pointers (bcursorNew b id lid pos) := by
  refine (blineFind_pointers b lid).bind fun l => (b.lineAt_pointers l).bind fun _ => ?_
  dsimp only
  split
  · exact .ok _
  · split
    · exact .ok _
    · exact .ok _

theorem bcursorCopyOwn_pointers (b : Buffer R) (id : Int) : Pointers (bcursorCopyOwn b id) :=
  b.own_pointers.bind fun own => (b.line_pointers own.ownLine).bind fun l => bcursorNew_pointers b id l.id own.pos

theorem bcursorFree_pointers (b : Buffer R) (id : Int) : Pointers (bcursorFree b id) := by
  refine (bcursorFind_pointers b id).bind fun c => ?_
  split
  · exact FaultsIn.error_iff.mpr (by decide)
  · exact .ok _
  · exact (b.curs_pointers _).bind fun c => (b.line_pointers _).bind fun _ => .ok _

theorem cursorMove_pointers (b : Buffer R) (c : Cursor) (dir : CmoveDir) : Pointers (cursorMove b c dir) := by
  have hguard : ∀ {α : Type} {P : Prop} [Decidable P] {q : Ptr} {f : Line R → α} {a : α},
      Pointers (if P then do
          let l ← b.line q
          pure (f l)
        else pure a : Except Fault α) := by
    intro α P _ q f a
    split
    · exact (b.line_pointers _).bind fun _ => .ok _
    · exact .ok _
  cases dir with
  | up =>
      refine (b.line_pointers _).bind fun l => ?_
      split
      · exact hguard
      · exact .ok _
  | down =>
      refine (b.line_pointers _).bind fun l => ?_
      split
      · exact hguard
      · exact .ok _
  | left =>
      unfold cursorMove
      dsimp only
      split
      · exact .ok _
      · refine (b.line_pointers _).bind fun l => ?_
        split
        · exact hguard
        · exact .ok _
  | right =>
      refine (b.line_pointers _).bind fun l => ?_
      split
      · exact .ok _
      · split
        · exact hguard
        · exact .ok _

theorem moveCurs_pointers (b : Buffer R) (c : CursRef) (cur : Cursor) (dir : CmoveDir) :
    Pointers (moveCurs b c cur dir) :=
  (scrollBefore_pointers b c cur.ownLine).bind fun b => (cursorMove_pointers b cur dir).bind fun _ =>
    (line_pointers _ _).bind fun _ => (scrollAfter_pointers _ _ _ _).bind fun _ => .ok _

theorem bcursorMove_pointers (b : Buffer R) (id : Int) (dir : CmoveDir) : Pointers (bcursorMove b id dir) :=
  (bcursorFind_pointers b id).bind fun c => (derefCurs_pointers c).bind fun c => (b.curs_pointers c).bind fun cur =>
    (b.line_pointers _).bind fun _ => (moveCurs_pointers b c cur dir).bind fun _ => .ok _

/-! ## Edits -/

theorem cursorInsert_pointers (b : Buffer R) (c : CursRef) (chr : UInt8) : Pointers (cursorInsert b c chr) := by
  refine (b.curs_pointers c).bind fun cur => (b.line_pointers _).bind fun l => ?_
  split
  · exact .ok _
  · exact (b.modifyLine_pointers _ _).bind fun _ => .ok _

theorem cursorDel_pointers (b : Buffer R) (c : CursRef) : Pointers (cursorDel b c) := by
  refine (b.curs_pointers c).bind fun cur => ?_
  split
  · exact .ok _
  · exact (b.line_pointers _).bind fun l => (b.modifyLine_pointers _ _).bind fun _ => .ok _

omit [Rope R] in
theorem nudgeOthers_pointers (b : Buffer R) (c : CursRef) (d : Int) : Pointers (nudgeOthers b c d) :=
  (b.curs_pointers c).bind fun _ => b.own_pointers.bind fun _ => .ok _

theorem bcursorInsert_pointers (b : Buffer R) (id : Int) (chr : UInt8) : Pointers (bcursorInsert b id chr) := by
  refine (bcursorFind_pointers b id).bind fun c => ?_
  split
  · exact .ok _
  · exact (cursorInsert_pointers b _ chr).bind fun _ =>
      (FaultsIn.runIf (nudgeOthers_pointers · _ 1) _).bind fun _ => .ok _

omit [Rope R] in
theorem forCurs_pointers {f : Buffer R → CursRef → Cursor → Except Fault (Buffer R)}
    (hf : ∀ b ref o, Pointers (f b ref o)) (b : Buffer R) : Pointers (forCurs f b) := by
  refine b.own_pointers.bind fun own => (hf b .own own).bind fun b => FaultsIn.foldlM (fun b i => ?_) _ b
  split
  · exact .ok _
  · exact hf _ _ _

theorem splitOther_pointers (b : Buffer R) (c ref : CursRef) (o : Cursor) : Pointers (splitOther b c ref o) := by
  refine ((b.curs_pointers c).bind fun _ => .ok _).bind fun after => ?_
  split
  · exact (b.curs_pointers c).bind fun _ => (bcursorMove_pointers _ _ _).bind fun _ => .ok _
  · exact .ok _

theorem splitLine_pointers (b : Buffer R) (c : CursRef) (ll : Ptr) : Pointers (splitLine b c ll) :=
  (b.curs_pointers c).bind fun _ => (b.line_pointers ll).bind fun _ => (b.lineAt_pointers _).bind fun _ =>
    (b.modifyLineAt_pointers _ _).bind fun b => (b.modifyLine_pointers _ _).bind fun b =>
      forCurs_pointers (splitOther_pointers · c) b

theorem homeUp_pointers (b : Buffer R) : Pointers (homeUp b) :=
  b.own_pointers.bind fun _ => FaultsIn.runIf (fun b => (bcursorMove_pointers b _ .up).map _) b

omit [Rope R] in
theorem trimIfSeen_pointers (b : Buffer R) (ll : Ptr) : Pointers (trimIfSeen b ll) :=
  (b.line_pointers ll).bind fun _ => FaultsIn.runIf (bufferTrim_pointers · ll) b

theorem insertAbove_pointers (b : Buffer R) (c : CursRef) (cur : Cursor) (l : Line R) :
    Pointers (insertAbove b c cur l) :=
  (lineNew_pointers _ _ _ _).bind fun _ => (trimIfSeen_pointers _ _).bind fun b =>
    (FaultsIn.runIf (bufferScroll_pointers · .up) b).bind fun b => (homeUp_pointers b).bind fun _ => .ok _

theorem insertBelow_pointers (b : Buffer R) (id : Int) (c : CursRef) (cur : Cursor) (l : Line R) :
    Pointers (insertBelow b id c cur l) :=
  (lineNew_pointers _ _ _ _).bind fun x => (FaultsIn.runIf (splitLine_pointers · c x.2) _).bind fun b =>
    (b.curs_pointers c).bind fun _ => (trimIfSeen_pointers _ _).bind fun b => (bcursorMove_pointers b id .down).bind fun _ => .ok _

theorem bcursorInsertLine_pointers (b : Buffer R) (id : Int) : Pointers (bcursorInsertLine b id) := by
  refine (bcursorFind_pointers _ id).bind fun c => (derefCurs_pointers c).bind fun c =>
    (curs_pointers _ c).bind fun cur => (line_pointers _ _).bind fun l => FaultsIn.bind ?_ fun _ =>
      (line_pointers _ _).bind fun _ => .ok _
  split
  · exact insertAbove_pointers _ c cur l
  · exact insertBelow_pointers _ id c cur l

theorem leaveAll_pointers (b : Buffer R) (l : Ptr) : Pointers (leaveAll b l) :=
  forCurs_pointers (fun b _ o => FaultsIn.runIf (fun b => (bcursorMove_pointers b o.id .up).map _) b) b

omit [Rope R] in
theorem setTop_pointers (b : Buffer R) (top : Option Ptr) : Pointers (setTop b top) := modifyLineAt_pointers _ _ _

omit [Rope R] in
theorem setBottom_pointers (b : Buffer R) (bottom : Option Ptr) : Pointers (setBottom b bottom) :=
  modifyLineAt_pointers _ _ _

theorem bufferDeletel_pointers (b : Buffer R) (l : Ptr) : Pointers (bufferDeletel b l) :=
  (b.line_pointers l).bind fun ll => (FaultsIn.runIf (bufferExtend_pointers · l) b).bind fun b =>
    (FaultsIn.runIf (setTop_pointers · ll.prev) b).bind fun b =>
      (FaultsIn.runIf (setBottom_pointers · ll.next) b).bind fun _ =>
        (FaultsIn.runIf (leaveAll_pointers · l) _).bind fun b => lineFree_pointers b l

theorem joinOther_pointers (b : Buffer R) (c ref : CursRef) (o : Cursor) : Pointers (joinOther b c ref o) := by
  refine (b.curs_pointers c).bind fun cur => (b.line_pointers _).bind fun l => ?_
  split
  · exact (bcursorMove_pointers b o.id .up).bind fun x => (curs_pointers _ ref).bind fun _ =>
      (curs_pointers _ c).bind fun _ => .ok _
  · exact .ok _

theorem joinLines_pointers (b : Buffer R) (c : CursRef) : Pointers (joinLines b c) :=
  (b.curs_pointers c).bind fun cur => (b.line_pointers _).bind fun _ => (lineAt_pointers _ _).bind fun next =>
    (writeSp_pointers next.str).bind fun _ =>
      (FaultsIn.runIf (fun b => b.modifyLine_pointers cur.ownLine _) _).bind fun b =>
        forCurs_pointers (joinOther_pointers · c) b

theorem bcursorDel_pointers (b : Buffer R) (id : Int) : Pointers (bcursorDel b id) := by
  refine (bcursorFind_pointers b id).bind fun c => (derefCurs_pointers c).bind fun c => (b.curs_pointers c).bind fun cur =>
    (b.line_pointers _).bind fun _ => ?_
  split
  · exact (cursorDel_pointers b c).bind fun _ => (FaultsIn.runIf (nudgeOthers_pointers · c (-1)) _).bind fun b =>
      (b.line_pointers _).bind fun _ => .ok _
  · split
    · exact .ok _
    · refine (bcursorMove_pointers _ id .left).bind fun x => (joinLines_pointers _ c).bind fun b =>
        (b.curs_pointers c).bind fun cur => (b.line_pointers _).bind fun l => ?_
      split
      · exact FaultsIn.error_iff.mpr (by decide)
      · exact (bufferDeletel_pointers b _).bind fun b => (b.curs_pointers c).bind fun _ => (b.line_pointers _).bind fun _ => .ok _

/-! ## Snapshots -/

omit [Rope R] in
theorem serializeLink_pointers (b : Buffer R) (o : JsonObject) (path : JsonPath) (q : Option Ptr) :
    Pointers (serializeLink b o path q) := by
  cases q with
  | none => exact .ok _
  | some q => exact (b.line_pointers q).bind fun _ => .ok _

theorem serializeLines_pointers (b : Buffer R) : ∀ (n : Nat) (o : JsonObject) (lit : Option Ptr),
    Pointers (serializeLines b n o lit) := by
  intro n
  induction n with
  | zero =>
      intro o lit
      cases lit with
      | none => exact .ok _
      | some q => exact FaultsIn.error_iff.mpr (by decide)
  | succ n ih =>
      intro o lit
      cases lit with
      | none => exact .ok _
      | some q =>
          exact (b.line_pointers q).bind fun l => (writeSp_pointers l.str).bind fun _ =>
            (serializeLink_pointers b _ _ _).bind fun _ => (serializeLink_pointers b _ _ _).bind fun _ => ih _ _

omit [Rope R] in
theorem serializePeer_pointers (b : Buffer R) (o : JsonObject) (i : Nat) : Pointers (serializePeer b o i) := by
  unfold serializePeer
  split
  · exact .ok _
  · exact (b.line_pointers _).bind fun _ => .ok _

theorem bufferSerialize_pointers (b : Buffer R) : Pointers (bufferSerialize b) :=
  (b.line_pointers _).bind fun _ => (b.lineAt_pointers _).bind fun _ => (b.lineAt_pointers _).bind fun _ =>
    (b.lineAt_pointers _).bind fun _ => (serializeLines_pointers b _ _ _).bind fun _ => b.own_pointers.bind fun _ =>
      (b.line_pointers _).bind fun _ => (FaultsIn.foldlM (serializePeer_pointers b) _ _).bind fun _ => .ok _

/-! ## Loading -/

theorem padLines_pointers : ∀ (n : Nat) (b : Buffer R) (pp : Ptr), Pointers (padLines n b pp) := by
  intro n
  induction n with
  | zero => exact fun b pp => .ok _
  | succ n ih => exact fun b pp => (lineNew_pointers _ _ _ _).bind fun x => ih _ _

omit [Rope R] in
theorem binitLoop_pointers (own : Ptr) : ∀ (n : Nat) (b : Buffer R) (os : Bool) (rel : Crp) (lit : Option Ptr),
    Pointers (binitLoop b own n os rel lit) := by
  intro n
  induction n with
  | zero =>
      intro b os rel lit
      cases lit with
      | none => exact .ok _
      | some q => exact FaultsIn.error_iff.mpr (by decide)
  | succ n ih =>
      intro b os rel lit
      cases lit with
      | none => exact .ok _
      | some q => exact (b.modifyLine_pointers q _).bind fun b => (b.line_pointers q).bind fun l => ih _ _ _ _

omit [Rope R] in
theorem binitOnscreenInfo_pointers (b : Buffer R) : Pointers (binitOnscreenInfo b) :=
  b.own_pointers.bind fun _ => (b.modifyLine_pointers _ _).bind fun b => (b.line_pointers _).bind fun _ =>
    binitLoop_pointers _ _ _ _ _ _

theorem bufferEmpty_pointers (id height width : Int) : Pointers (bufferEmpty id height width : Except Fault (Buffer R)) :=
  (lineNew_pointers _ _ _ _).bind fun _ => (padLines_pointers _ _ _).bind fun b => (bcursorNew_pointers b 0 0 0).bind
    fun _ => binitOnscreenInfo_pointers _

theorem loadByte_pointers (b : Buffer R) (c : UInt8) : Pointers (loadByte b c) := by
  unfold loadByte
  split
  · exact (bcursorInsertLine_pointers b 0).map _
  · exact (bcursorInsert_pointers b 0 c).map _

theorem bufferFromFile_pointers (data : Bytes) (id height width : Int) (ui : Bool) :
    Pointers (bufferFromFile data id height width ui : Except Fault (Buffer R)) :=
  (bufferEmpty_pointers id height width).bind fun b => (FaultsIn.foldlM loadByte_pointers data b).bind fun b =>
    (FaultsIn.foldlM (fun b _ => (bcursorMove_pointers b 0 .up).map _) _ b).bind fun b =>
      (bcursorFind_pointers b 0).bind fun c => (derefCurs_pointers c).bind fun c => (b.curs_pointers c).bind fun _ =>
        .ok _

end CoEditor
