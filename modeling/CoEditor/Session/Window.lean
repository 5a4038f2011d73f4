-- SUMMARY: Under every call the window keeps the own cursor in view, and its length but for one kind of join.
import CoEditor.Page.Flags
import CoEditor.Session.Ops

/-!
# The window of a session

What each call does to the window of a good page. Only a join at a peer cursor
can make the window longer than the screen, and only then can it later become
shorter again.
-/

namespace CoEditor

variable {R : Type}

namespace Op

/-- A call gives no new cursor an id in use. -/
def Legal (used : Int → Prop) : Op → Prop
  | .new id _ _ | .copyOwn id => ¬ used id
  | _ => True

theorem Legal.fresh {used : Int → Prop} {op : Op} (h : op.Legal used) : op.Fresh used := by
  cases op <;> first | exact fun _ => h | trivial

/-- The call is a join at the last visible line that makes the window of `p` longer. -/
def Stretches (p : Page R) : Op → Prop
  | .del id => ∃ ref c, p.find id = some ref ∧ p.curs ref = .ok c ∧ ¬ 0 < c.pos ∧ c.row ≠ 0 ∧ p.Stretches c.row
  | _ => False

end Op

namespace Page

variable {p q : Page R} {n : Nat}

/-- The window has `n` lines around the own cursor, and the flags down to it are right. -/
structure Framed (n : Nat) (p : Page R) : Prop where
  view : View n p
  flagged : Flagged p

theorem SameView.framed (h : SameView p q) (hp : Framed n p) : Framed n q :=
  ⟨h.view hp.view, hp.flagged.sameView h⟩

variable [Rope R]

theorem Good.own_end (hp : p.Good) (hheight : 3 ≤ p.height) : p.last + 3 ≤ p.rows.length := by
  have h : (p.last : Int) + p.height = p.doc.lines.length := hp.doc.last
  rw [doc_length] at h
  omega

/-! ## The calls one by one -/

omit [Rope R] in
theorem addCurs_sameView (p : Page R) {c : PageCursor} (h0 : c.id ≠ 0) : SameView p (p.addCurs c).1 := by
  unfold addCurs
  rw [if_neg h0]
  split
  · exact .refl p
  · exact ⟨rfl, rfl, rfl, rfl⟩

omit [Rope R] in
/-- The text of the cursor's row changes, and cursors move along it. -/
theorem charEdit_own (p : Page R) {ref : CursRef} {c : PageCursor} (hc : p.curs ref = .ok c) (f : Row R → R)
    (d : Int) :
    (((p.modifyRow c.row fun r => { r with str := f r }).setCurs { c with pos := c.pos + d } ref).nudgeOthers
      ref { c with pos := c.pos + d } d).own.row = p.own.row := by
  generalize hp₁ : (p.modifyRow c.row fun r => { r with str := f r }) = p₁
  have hcurs₁ : ∀ ref, p₁.curs ref = p.curs ref := fun ref => by rw [← hp₁]; exact curs_congr rfl rfl ref
  obtain ⟨-, hcurs⟩ := shift_spec ((hcurs₁ ref).trans hc) d
  have hown := hcurs .own p.own ((hcurs₁ .own).trans p.curs_own)
  rw [Except.ok.inj hown, shiftCursor]
  split
  · next href =>
      subst href
      rw [← Except.ok.inj hc]
  · unfold nudge
    split <;> rfl

omit [Rope R] in
theorem Framed.charEdit (h : Framed n p) {ref : CursRef} {c : PageCursor} (hc : p.curs ref = .ok c)
    (f : Row R → R) (d : Int) :
    Framed n (((p.modifyRow c.row fun r => { r with str := f r }).setCurs { c with pos := c.pos + d } ref).nudgeOthers
      ref { c with pos := c.pos + d } d) := by
  have hown := p.charEdit_own hc f d
  have hrows : ∀ q : Page R, ((q.setCurs { c with pos := c.pos + d } ref).nudgeOthers
      ref { c with pos := c.pos + d } d).rows = q.rows := by
    intro q
    cases ref <;> rfl
  have htop : ∀ q : Page R, ((q.setCurs { c with pos := c.pos + d } ref).nudgeOthers
      ref { c with pos := c.pos + d } d).top = q.top := by
    intro q
    cases ref <;> rfl
  have hbottom : ∀ q : Page R, ((q.setCurs { c with pos := c.pos + d } ref).nudgeOthers
      ref { c with pos := c.pos + d } d).bottom = q.bottom := by
    intro q
    cases ref <;> rfl
  refine ⟨⟨?_, ?_, ?_⟩, (h.flagged.modifyStr c.row f).of_rows (hrows _) hown⟩
  · rw [htop, hbottom]
    exact h.view.size
  · rw [htop, hown]
    exact h.view.top_le
  · rw [hbottom, hown]
    exact h.view.lt_bottom

namespace Framed

theorem bcursorMove (h : Framed n p) (hn : 3 ≤ n) (hend : p.own.row + 3 ≤ p.rows.length) {id : Int}
    {dir : CmoveDir} (hrun : p.bcursorMove id dir = .ok q) : Framed n q :=
  ⟨h.view.bcursorMove hn hend hrun, h.flagged.bcursorMove hrun⟩

omit [Rope R] in
theorem bcursorNew (h : Framed n p) {id lid pos : Int} {res : Bres} (h0 : id ≠ 0)
    (hrun : p.bcursorNew id lid pos = .ok (q, res)) : Framed n q := by
  unfold Page.bcursorNew at hrun
  split at hrun
  · cases hrun
  · next row hrow =>
      have hsame := p.addCurs_sameView (c := ⟨id, row, pos⟩) h0
      rw [Except.ok.inj hrun] at hsame
      exact hsame.framed h

omit [Rope R] in
theorem bcursorCopyOwn (h : Framed n p) {id : Int} {res : Bres} (h0 : id ≠ 0)
    (hrun : p.bcursorCopyOwn id = .ok (q, res)) : Framed n q := by
  unfold Page.bcursorCopyOwn at hrun
  split at hrun
  · cases hrun
  · exact h.bcursorNew h0 hrun

omit [Rope R] in
theorem bcursorFree (h : Framed n p) {id : Int} {res : Bres} (hrun : p.bcursorFree id = .ok (q, res)) :
    Framed n q := by
  unfold Page.bcursorFree at hrun
  split at hrun
  · cases hrun
  · obtain ⟨rfl, rfl⟩ := Prod.mk.inj (Except.ok.inj hrun)
    exact h
  · next i hi =>
      obtain ⟨rfl, rfl⟩ := Prod.mk.inj (Except.ok.inj hrun)
      have hsame : SameView p { p with peers := p.peers.set i none } := ⟨rfl, rfl, rfl, rfl⟩
      exact hsame.framed h

theorem bcursorInsert (h : Framed n p) {id : Int} {chr : UInt8} {res : Bres}
    (hrun : p.bcursorInsert id chr = .ok (q, res)) : Framed n q := by
  unfold Page.bcursorInsert at hrun
  split at hrun
  · obtain ⟨rfl, rfl⟩ := Prod.mk.inj (Except.ok.inj hrun)
    exact h
  · next ref href =>
      obtain ⟨c, hc, hrun⟩ := Except.bind_eq_ok.mp hrun
      split at hrun
      · obtain ⟨rfl, rfl⟩ := Prod.mk.inj (Except.ok.inj hrun)
        exact h
      · obtain ⟨rfl, rfl⟩ := Prod.mk.inj (Except.ok.inj hrun)
        exact h.charEdit hc (fun r => Rope.insert r.str (sizeT c.pos) (hstr chr)) 1

omit [Rope R] in
theorem recount (h : Framed n p) (m : Int) : Framed n { p with numLines := m } :=
  ⟨⟨h.view.size, h.view.top_le, h.view.lt_bottom⟩, h.flagged.of_rows rfl rfl⟩

theorem bcursorInsertLine (h : Framed n p) (hn : 3 ≤ n) (hp : p.Good) (hheight : 3 ≤ p.height) {id : Int}
    {ptr : Ptr} (hrun : p.bcursorInsertLine id ptr = .ok q) : Framed n q := by
  have hend := hp.own_end hheight
  have hown := hp.curs_le p.curs_own
  have hframed := h.recount (p.numLines + 1)
  unfold Page.bcursorInsertLine at hrun
  generalize hp₁ : ({ p with numLines := p.numLines + 1 } : Page R) = p₁ at hrun hframed
  have hcurs₁ : ∀ ref, p₁.curs ref = p.curs ref := fun ref => by rw [← hp₁]; exact curs_congr rfl rfl ref
  have hD₁ : p₁.Distinct := distinct_congr hcurs₁ hp.distinct
  have hrows₁ : p₁.rows = p.rows := by rw [← hp₁]
  have hown₁ : p₁.own = p.own := by rw [← hp₁]
  have hlast₁ : p₁.last = p.last := by rw [← hp₁]
  obtain ⟨ref, href, hrun⟩ := Except.bind_eq_ok.mp hrun
  obtain ⟨c, hc, rfl⟩ := curs_of_findCurs href
  rw [hc, Except.ok_bind_eq] at hrun
  have hrow : c.row ≤ p.last := hp.curs_le ((hcurs₁ ref).symm.trans hc)
  have hend₁ : p₁.own.row + 3 ≤ p₁.rows.length := by rw [hown₁, hrows₁]; omega
  split at hrun
  · have hlt : c.row ≤ p₁.rows.length := by rw [hrows₁]; omega
    exact ⟨hframed.view.insertAbove hn hend₁ hlt hrun, hframed.flagged.insertAbove hlt hrun⟩
  · have hslots₁ : p₁.peers.length = maxCursorNum := by rw [← hp₁]; exact hp.slots
    have hw : p₁.top < p₁.bottom := by rw [← hp₁]; exact hp.window
    refine ⟨hframed.view.insertBelow hn hD₁ hslots₁ hc (by omega) (by rw [hown₁]; omega)
      (by rw [hrows₁]; omega) hw hrun, hframed.flagged.insertBelow hD₁ hslots₁ hc ?_ hrun⟩
    rw [hrows₁]
    omega

/-- A deletion keeps the window, unless it joins two rows. -/
theorem bcursorDel (h : Framed n p) (hn : 3 ≤ n) (hp : p.Good) (hheight : 3 ≤ p.height) {id : Int} {res : Bres}
    (hrun : p.bcursorDel id = .ok (q, res)) :
    ∃ m : Nat, Framed m q ∧ (p.height ≤ n → p.height ≤ m) ∧
      ((n : Int) = p.height → ¬ (Op.del id).Stretches p → m = n) := by
  have hend := hp.own_end hheight
  have hown := hp.curs_le p.curs_own
  have hheight' : (p.last : Int) + p.height = p.rows.length := by rw [← doc_length]; exact hp.doc.last
  obtain ⟨ref, href, hrun'⟩ := Except.bind_eq_ok.mp hrun
  obtain ⟨c, hc, rfl⟩ := curs_of_findCurs href
  rw [hc, Except.ok_bind_eq] at hrun'
  split at hrun'
  · obtain ⟨rfl, rfl⟩ := Prod.mk.inj (Except.ok.inj hrun')
    exact ⟨n, h.charEdit hc (fun r => Rope.del r.str (sizeT (c.pos - 1)) 1) (-1), fun hle => hle, fun _ _ => rfl⟩
  · next hpos =>
      split at hrun'
      · obtain ⟨rfl, rfl⟩ := Prod.mk.inj (Except.ok.inj hrun')
        exact ⟨n, h, fun hle => hle, fun _ _ => rfl⟩
      · next h0 =>
          have hrow := hp.curs_le hc
          obtain ⟨x, hx, hdel, -⟩ := bcursorDel_join hp.distinct hp.slots hc hpos h0 hrun
          have hframed := h.recount (p.numLines - 1)
          have hcurs₁ : ∀ ref, ({ p with numLines := p.numLines - 1 } : Page R).curs ref = p.curs ref :=
            fun ref => curs_congr rfl rfl ref
          have hj := joined hframed.view hn (distinct_congr hcurs₁ hp.distinct) hp.slots (by simp only; omega)
            ((hcurs₁ ref).trans hc) hpos h0 (by simp only; omega) hx
          have hlen : x.rows.length = p.rows.length := hj.length
          have hle : x.own.row ≤ p.own.row := hj.own_le
          have hne := hj.curs_ne .own x.own x.curs_own
          have hflagged := hj.flagged hframed.flagged
          have htop := hj.view.top_le
          have hsize := hj.view.size
          -- the own cursor and the row are two different rows up to `last`
          have hlt : (n : Int) = p.height → x.visible c.row = true → x.bottom + 1 < x.rows.length := by
            intro heq hv
            rw [visible_iff] at hv
            omega
          obtain ⟨m, hm, hor⟩ := hj.view.deletel (by omega) hj.curs_ne hdel
          refine ⟨m, ⟨hm, hflagged.deletel hj.curs_ne hdel⟩, fun hle' => ?_, fun heq hs => ?_⟩
          · rcases hor with hor | ⟨hor, hv, hend'⟩
            · omega
            · by_cases heq : (n : Int) = p.height
              · exact absurd (hlt heq hv) hend'
              · omega
          · have hexact := hj.view.deletel_exact hn (by omega) hj.curs_ne (hlt heq)
              (fun hk => hflagged.notAbove_eq_false hk) hdel
            have hfind : p.find c.id = some ref := find_of_curs hp.distinct hc
            rw [if_neg fun hs' => hs ⟨ref, c, hfind, hc, hpos, h0, hj.stretches hs'⟩] at hexact
            have h₁ := hm.size
            have h₂ := hexact.size
            omega

/-- What a call that returns does to the window. -/
theorem run (h : Framed n p) (hn : 3 ≤ n) (hp : p.Good) (hheight : 3 ≤ p.height) {op : Op} {ptr : Ptr}
    {res : Bres} (hlegal : op.Legal fun id => p.doc.curs id ≠ none) (hrun : op.runPage p ptr = .ok (q, res)) :
    ∃ m : Nat, Framed m q ∧ (p.height ≤ n → p.height ≤ m) ∧
      ((n : Int) = p.height → ¬ op.Stretches p → m = n) := by
  have hkeep : Framed n q → ∃ m : Nat, Framed m q ∧ (p.height ≤ n → p.height ≤ m) ∧
      ((n : Int) = p.height → ¬ op.Stretches p → m = n) :=
    fun hq => ⟨n, hq, fun hle => hle, fun _ _ => rfl⟩
  have hnew : ∀ id, ¬ p.doc.curs id ≠ none → id ≠ 0 := by
    rintro id hid rfl
    refine hid ?_
    rw [← hp.own_id, doc_curs hp.distinct p.curs_own]
    simp
  have hend : p.own.row + 3 ≤ p.rows.length := by
    have := hp.own_end hheight
    have := hp.curs_le p.curs_own
    omega
  cases op with
  | new id lid pos => exact hkeep (h.bcursorNew (hnew id hlegal) hrun)
  | copyOwn id => exact hkeep (h.bcursorCopyOwn (hnew id hlegal) hrun)
  | free id => exact hkeep (h.bcursorFree hrun)
  | move id dir =>
      obtain ⟨q', hmove, hq'⟩ := Except.map_eq_ok.mp hrun
      obtain ⟨rfl, rfl⟩ := Prod.mk.inj hq'
      exact hkeep (h.bcursorMove hn hend hmove)
  | insert id chr => exact hkeep (h.bcursorInsert hrun)
  | insertLine id =>
      obtain ⟨q', hline, hq'⟩ := Except.map_eq_ok.mp hrun
      obtain ⟨rfl, rfl⟩ := Prod.mk.inj hq'
      exact hkeep (h.bcursorInsertLine hn hp hheight hline)
  | del id => exact h.bcursorDel hn hp hheight hrun

end Framed

/-! ## Runs -/

/-- A good page whose window shows at least a full screen around the own cursor. -/
structure Sound (p : Page R) : Prop extends Good p where
  framed : 3 ≤ p.height → ∃ n : Nat, p.height ≤ n ∧ Framed n p

/-- A good page whose window shows exactly a full screen around the own cursor. -/
structure Exact (p : Page R) : Prop extends Good p where
  framed : 3 ≤ p.height → ∃ n : Nat, (n : Int) = p.height ∧ Framed n p

theorem Exact.sound (hp : p.Exact) : p.Sound :=
  { hp with
    framed := fun h3 => by
      obtain ⟨n, hn, hframed⟩ := hp.framed h3
      exact ⟨n, Int.le_of_eq hn.symm, hframed⟩ }

theorem Sound.run (hp : p.Sound) {op : Op} {ptr : Ptr} {res : Bres}
    (hlegal : op.Legal fun id => p.doc.curs id ≠ none) (hrun : op.runPage p ptr = .ok (q, res)) :
    q.Sound ∧ op.Effect p.doc res q.doc := by
  obtain ⟨hgood, heffect⟩ := hp.toGood.run hlegal.fresh hrun
  have hheight : q.height = p.height := heffect.height
  refine ⟨{ hgood with framed := ?_ }, heffect⟩
  rw [hheight]
  intro h3
  obtain ⟨n, hn, hframed⟩ := hp.framed h3
  obtain ⟨m, hm, hle, -⟩ := hframed.run (by omega) hp.toGood h3 hlegal hrun
  exact ⟨m, hle hn, hm⟩

theorem Exact.run (hp : p.Exact) {op : Op} {ptr : Ptr} {res : Bres}
    (hlegal : op.Legal fun id => p.doc.curs id ≠ none) (hs : ¬ op.Stretches p)
    (hrun : op.runPage p ptr = .ok (q, res)) : q.Exact ∧ op.Effect p.doc res q.doc := by
  obtain ⟨hgood, heffect⟩ := hp.toGood.run hlegal.fresh hrun
  have hheight : q.height = p.height := heffect.height
  refine ⟨{ hgood with framed := ?_ }, heffect⟩
  rw [hheight]
  intro h3
  obtain ⟨n, hn, hframed⟩ := hp.framed h3
  obtain ⟨m, hm, -, heq⟩ := hframed.run (by omega) hp.toGood h3 hlegal hrun
  exact ⟨m, by rw [heq hn hs, hn], hm⟩

/-! ## Faults -/

omit [Rope R] in
theorem extend_error {k : Nat} {e : Fault} (h : p.extend k = .error e) : ¬ p.bottom + 1 < p.rows.length := by
  intro hlt
  unfold Page.extend at h
  simp only [hlt, if_true, lowerBottom] at h
  split at h
  · cases h
  · split at h <;> cases h

omit [Rope R] in
theorem extend_faults (p : Page R) (k : Nat) : FaultsIn (· = .nullDeref) (p.extend k) := by
  unfold Page.extend
  refine FaultsIn.bind ?_ fun _ => .ok _
  split
  · exact .ok _
  · split
    · exact .ok _
    · unfold lowerBottom
      split
      · exact .ok _
      · exact FaultsIn.error_iff.mpr rfl

theorem deletel_error {k : Nat} (hnone : ∀ ref c, p.curs ref = .ok c → c.row ≠ k) {e : Fault}
    (h : p.deletel k = .error e) : p.visible k = true ∧ ¬ p.bottom + 1 < p.rows.length := by
  rw [deletel_eq hnone] at h
  by_cases hv : p.visible k = true
  · rw [runIf_pos hv] at h
    cases hx : p.extend k with
    | ok x =>
        rw [hx] at h
        cases h
    | error e' => exact ⟨hv, extend_error hx⟩
  · rw [runIf_neg hv] at h
    cases h

/-- A deletion at a cursor fails for lack of room in the scratch pad, or when the line that was joined is taken out. -/
theorem Good.bcursorDel_error (hp : p.Good) {id : Int} (hid : p.doc.curs id ≠ none) {e : Fault}
    (h : p.bcursorDel id = .error e) : e = .overflow ∧ ¬ p.JoinFits id ∨
      ∃ ref c x, p.curs ref = .ok c ∧ ¬ 0 < c.pos ∧ c.row ≠ 0 ∧
        (({ p with numLines := p.numLines - 1 } : Page R).moveCurs ref c .left).joinLines ref = .ok x ∧
        (∀ ref d, x.curs ref = .ok d → d.row ≠ c.row) ∧ x.deletel c.row = .error e := by
  obtain ⟨ref, c, href, hc, rfl⟩ := hp.findCurs_ok hid
  simp only [Page.bcursorDel, href, hc, Except.ok_bind_eq] at h
  split at h
  · cases h
  · next hpos =>
      split at h
      · cases h
      · next h0 =>
          have hcurs₁ : ∀ ref, ({ p with numLines := p.numLines - 1 } : Page R).curs ref = p.curs ref :=
            fun ref => curs_congr rfl rfl ref
          have hD₁ : ({ p with numLines := p.numLines - 1 } : Page R).Distinct := distinct_congr hcurs₁ hp.distinct
          obtain ⟨hleft, hmoved, hself, -⟩ := bcursorMove_left hD₁ ((hcurs₁ ref).trans hc) hpos h0
          rw [hleft, Except.ok_bind_eq] at h
          have hD₂ := hmoved.distinct hD₁
          have hslots₂ := hmoved.slots.trans hp.slots
          have hrow : c.row - 1 + 1 = c.row := by omega
          by_cases hfit : (Rope.writeCstr ((({ p with numLines := p.numLines - 1 } : Page R).moveCurs ref c
              .left).strAt (c.row - 1 + 1))).length + 1 ≤ spSize
          · obtain ⟨x, hx, -⟩ := joinLines_spec hD₂ hslots₂ hself hfit
            obtain ⟨-, hself', -, hnone⟩ := joinLines_ok hD₂ hslots₂ hself hx
            simp only [hx, hself', Except.ok_bind_eq, hrow] at h hnone
            refine .inr ⟨ref, c, x, hc, hpos, h0, hx, hnone, ?_⟩
            cases hdel : x.deletel c.row with
            | ok y =>
                rw [hdel] at h
                cases h
            | error e' =>
                rw [hdel] at h
                exact congrArg _ (Except.error.inj h)
          · rw [joinLines_overflow hself hfit] at h
            refine .inl ⟨(Except.error.inj h).symm, fun hfits => hfit ?_⟩
            rw [hmoved.toKept.strAt, hrow]
            exact hfits ref c (find_of_curs hp.distinct hc) hc hpos h0

/-- With an exact window a deletion fails only for lack of room in the scratch pad. -/
theorem Exact.bcursorDel_error (hp : p.Exact) (h3 : 3 ≤ p.height) {id : Int} (hid : p.doc.curs id ≠ none)
    {e : Fault} (h : p.bcursorDel id = .error e) : e = .overflow ∧ ¬ p.JoinFits id := by
  refine (hp.toGood.bcursorDel_error hid h).resolve_right ?_
  rintro ⟨ref, c, x, hc, hpos, h0, hx, hnone, hdel⟩
  have hend := hp.own_end h3
  have hown := hp.curs_le p.curs_own
  have hheight : (p.last : Int) + p.height = p.rows.length := by rw [← doc_length]; exact hp.doc.last
  obtain ⟨n, hn, hframed⟩ := hp.framed h3
  have hcurs₁ : ∀ ref, ({ p with numLines := p.numLines - 1 } : Page R).curs ref = p.curs ref :=
    fun ref => curs_congr rfl rfl ref
  have hD₁ : ({ p with numLines := p.numLines - 1 } : Page R).Distinct := distinct_congr hcurs₁ hp.distinct
  have hrow := hp.curs_le hc
  have hj := joined (hframed.recount (p.numLines - 1)).view (by omega) hD₁ hp.slots
    (by simp only; omega) ((hcurs₁ ref).trans hc) hpos h0 (by simp only; omega) hx
  obtain ⟨hv, hlt⟩ := deletel_error hnone hdel
  have hlen : x.rows.length = p.rows.length := hj.length
  have hle : x.own.row ≤ p.own.row := hj.own_le
  have hne := hnone .own x.own x.curs_own
  have htop := hj.view.top_le
  have hsize := hj.view.size
  rw [visible_iff] at hv
  omega

/-- Taking out a line writes nothing. -/
theorem deletel_faults {k : Nat} (hnone : ∀ ref c, p.curs ref = .ok c → c.row ≠ k) : FaultsIn (· = .nullDeref) (p.deletel k) := by
  rw [deletel_eq hnone]
  exact (FaultsIn.runIf (fun q => q.extend_faults k) p).map _

/-- A join of a line that fits the scratch pad stays inside it. -/
theorem Good.bcursorDel_fits (hp : p.Good) {id : Int} (hfits : p.JoinFits id) : p.bcursorDel id ≠ .error .overflow := by
  intro h
  by_cases hid : p.doc.curs id = none
  · simp only [Page.bcursorDel, findCurs, find_eq_none.mpr (doc_curs_eq_none.mp hid), derefCurs, Except.error_bind_eq] at h
    cases h
  · obtain ⟨-, hno⟩ | ⟨ref, c, x, -, -, -, -, hnone, hdel⟩ := hp.bcursorDel_error hid h
    · exact hno hfits
    · cases deletel_faults hnone _ hdel

/-- A join of a line that does not fit the scratch pad fails. -/
theorem Good.bcursorDel_overflow (hp : p.Good) {id : Int} (h : ¬ p.JoinFits id) :
    p.bcursorDel id = .error .overflow := by
  simp only [JoinFits, not_forall] at h
  obtain ⟨ref, c, href, hc, hpos, h0, hfit⟩ := h
  obtain ⟨c', hc', hid⟩ := curs_of_find href
  obtain rfl := Except.ok.inj (hc'.symm.trans hc)
  subst hid
  have hcurs₁ : ∀ ref, ({ p with numLines := p.numLines - 1 } : Page R).curs ref = p.curs ref :=
    fun ref => curs_congr rfl rfl ref
  have hD₁ : ({ p with numLines := p.numLines - 1 } : Page R).Distinct := distinct_congr hcurs₁ hp.distinct
  obtain ⟨hleft, hmoved, hself, -⟩ := bcursorMove_left hD₁ ((hcurs₁ ref).trans hc) hpos h0
  have hrow' : c'.row - 1 + 1 = c'.row := by omega
  have hover := joinLines_overflow hself (by rw [hmoved.toKept.strAt]; simp only [hrow']; exact hfit)
  simp only [Page.bcursorDel, findCurs_of_curs hp.distinct hc, hc, hpos, h0, if_false, Except.ok_bind_eq, hleft, hover]
  rfl

end Page

/-! ## Buffers -/

/-- The call is a join at the last line of the window of `b`, which is marked as above the own cursor
    or has the own cursor at the other end of the window. Such a join makes the window longer. -/
def Op.Stretching (b : Buffer R) : Op → Prop
  | .del id => ∃ c cur own l top, bcursorFind b id = .ok (some c) ∧ b.curs c = .ok cur ∧ b.own = .ok own ∧
      b.line cur.ownLine = .ok l ∧ b.lineAt b.top = .ok top ∧ ¬ 0 < cur.pos ∧ cur.ownLine ≠ b.first ∧
      b.bottom = some cur.ownLine ∧ top.prev ≠ none ∧ (l.where_ = .above ∨ b.top = some own.ownLine)
  | _ => False

theorem Rep.stretching {b : Buffer R} {p : Page R} (h : Rep b p) {op : Op} (hs : op.Stretches p) :
    op.Stretching b := by
  cases op with
  | del id =>
      obtain ⟨ref, c', hfind, hc', hpos, h0, hbottom, htop, hor⟩ := hs
      obtain ⟨c, hc, hcursor⟩ := h.curs_ok hc'
      obtain ⟨r, hr, rfl⟩ := Layout.cursor_row hcursor
      obtain ⟨o, ho, hown⟩ := h.own_ok
      obtain ⟨t, ht⟩ := Page.exists_row h.top_lt
      obtain ⟨f, hf, hfirst⟩ := h.first_row
      refine ⟨ref, _, _, _, _, by rw [h.bcursorFind, hfind], hc, hown, h.line hr, by rw [h.top]; exact h.lineAt ht,
        hpos, ?_, ?_, ?_, ?_⟩
      · simp only [hfirst, ne_eq, h.row_ptr_inj hr hf]
        exact h0
      · rw [h.bottom, ← hbottom, Page.ptrs_of_row hr]
      · simp only [Page.lineOf, ne_eq, Layout.prev_eq_none h.top_lt]
        exact htop
      · rcases hor with hor | hor
        · left
          show r.where_ = .above
          simpa [Page.notAbove, hr] using hor
        · right
          rw [h.top, ← hor, Page.ptrs_of_row ho]
  | new | copyOwn | free | move | insert | insertLine => exact hs

variable [Rope R]

/-- Buffer `b` holds document `d` and shows at least a full screen of it. -/
def HoldsSound (b : Buffer R) (d : Doc R) : Prop := ∃ p, Rep b p ∧ p.Sound ∧ p.doc = d

/-- Buffer `b` holds document `d` and shows exactly a full screen of it. -/
def HoldsExact (b : Buffer R) (d : Doc R) : Prop := ∃ p, Rep b p ∧ p.Exact ∧ p.doc = d

variable {b b' : Buffer R} {d : Doc R}

theorem HoldsSound.holds (h : HoldsSound b d) : Holds b d := by
  obtain ⟨p, hrep, hsound, hdoc⟩ := h
  exact ⟨p, hrep, hsound.toGood, hdoc⟩

theorem HoldsExact.sound (h : HoldsExact b d) : HoldsSound b d := by
  obtain ⟨p, hrep, hexact, hdoc⟩ := h
  exact ⟨p, hrep, hexact.sound, hdoc⟩

theorem HoldsSound.run (h : HoldsSound b d) (op : Op) {res : Bres} (hlegal : op.Legal fun id => d.curs id ≠ none)
    (hrun : op.run b = .ok (b', res)) : ∃ e, HoldsSound b' e ∧ op.Effect d res e := by
  obtain ⟨p, hrep, hsound, rfl⟩ := h
  obtain ⟨q, hrep', hq⟩ := hrep.run_ok hsound.toGood hrun
  obtain ⟨hsound', heffect⟩ := hsound.run hlegal hq
  exact ⟨q.doc, ⟨q, hrep', hsound', rfl⟩, heffect⟩

theorem HoldsExact.run (h : HoldsExact b d) (op : Op) {res : Bres} (hlegal : op.Legal fun id => d.curs id ≠ none)
    (hs : ¬ op.Stretching b) (hrun : op.run b = .ok (b', res)) :
    ∃ e, HoldsExact b' e ∧ op.Effect d res e := by
  obtain ⟨p, hrep, hexact, rfl⟩ := h
  obtain ⟨q, hrep', hq⟩ := hrep.run_ok hexact.toGood hrun
  obtain ⟨hexact', heffect⟩ := hexact.run hlegal (fun h => hs (hrep.stretching h)) hq
  exact ⟨q.doc, ⟨q, hrep', hexact', rfl⟩, heffect⟩

end CoEditor
