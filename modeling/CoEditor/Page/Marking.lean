-- SUMMARY: How the where flags change step by step, and what the steps keep of flags that are right and of one that is wrong.
import CoEditor.Page.Flags
import Mathlib.Logic.Relation

/-!
# Marking

Whatever a call does to the `where` flags is a sequence of few kinds of steps:
the own cursor goes one row up or down, a row is put in, a row is taken out.
-/

namespace CoEditor

variable {R : Type}

/-- The flag that line `k` should have when the own cursor is on line `own`. -/
def relTo (own k : Nat) : Crp := if k < own then .above else if k = own then .same else .bellow

namespace Page

/-- The flags go from those of `p` to those of `q`. -/
inductive FlagStep (p q : Page R) : Prop where
  | stay : q.own.row = p.own.row → q.rows.length = p.rows.length → (∀ j, q.flagAt j = p.flagAt j) → FlagStep p q
  | up : q.own.row + 1 = p.own.row → q.rows.length = p.rows.length →
      (∀ j, q.flagAt j = if q.own.row = j then (p.flagAt j).map fun _ => .same
        else if q.own.row + 1 = j then (p.flagAt j).map fun _ => .bellow else p.flagAt j) → FlagStep p q
  | down : q.own.row = p.own.row + 1 → p.own.row + 2 < p.rows.length → q.rows.length = p.rows.length →
      (∀ j, q.flagAt j = if q.own.row = j then (p.flagAt j).map fun _ => .same
        else if p.own.row = j then (p.flagAt j).map fun _ => .above else p.flagAt j) → FlagStep p q
  | put {k : Nat} : k < p.rows.length → q.own.row = bump k p.own.row → q.rows.length = p.rows.length + 1 →
      (∀ j, q.flagAt j = if j < k then p.flagAt j else if j = k then some (p.newWhere k) else p.flagAt (j - 1)) →
      FlagStep p q
  | take {k : Nat} : k + 1 < p.rows.length → p.own.row ≠ k → q.own.row = unbump k p.own.row →
      q.rows.length + 1 = p.rows.length → (∀ j, q.flagAt j = if j < k then p.flagAt j else p.flagAt (j + 1)) →
      FlagStep p q

/-- The flags go from those of `p` to those of `q` in steps. -/
def FlagSteps (p q : Page R) : Prop := Relation.ReflTransGen FlagStep p q

/-- Every flag tells the side of the own cursor its row is on. -/
def Marked (p : Page R) : Prop := ∀ k w, p.flagAt k = some w → w = relTo p.own.row k

/-- The flag of the last padding row says that the own cursor is there, and it is not. -/
structure Stale (p : Page R) : Prop where
  room : p.own.row + 1 < p.rows.length
  final : p.flagAt (p.rows.length - 1) = some .same

variable {p q : Page R}

theorem flagAt_isSome {k : Nat} (hk : k < p.rows.length) : ∃ w, p.flagAt k = some w := by
  obtain ⟨r, hr⟩ := exists_row hk
  exact ⟨r.where_, by rw [flagAt, hr]; rfl⟩

/-! ## What the steps keep -/

/-- A row is marked by its neighbours. -/
theorem Marked.newWhere (h : Marked p) {k : Nat} (hk : k < p.rows.length) :
    p.newWhere k = relTo (bump k p.own.row) k := by
  obtain ⟨r, hr⟩ := exists_row hk
  have hflag : p.flagAt k = some r.where_ := by rw [flagAt, hr]; rfl
  have hw := h k _ hflag
  cases k with
  | zero => simp [Page.newWhere, relTo, bump]
  | succ j =>
      obtain ⟨v, hv⟩ := flagAt_isSome (p := p) (k := j) (by omega)
      have hv' := h j v hv
      simp only [Page.newWhere, hr, notAbove_eq, hv, Option.any_some]
      unfold relTo at *
      unfold bump
      grind

theorem FlagStep.marked (h : FlagStep p q) (hp : Marked p) : Marked q := by
  intro j w hw
  cases h with
  | stay hrow _ hflag => exact hrow ▸ hp j w (hflag j ▸ hw)
  | up hrow _ hflag =>
      rw [hflag] at hw
      split at hw
      · obtain ⟨-, -, rfl⟩ := Option.map_eq_some_iff.mp hw
        grind [relTo]
      · split at hw
        · obtain ⟨-, -, rfl⟩ := Option.map_eq_some_iff.mp hw
          grind [relTo]
        · rw [hp j w hw]
          grind [relTo]
  | down hrow _ _ hflag =>
      rw [hflag] at hw
      split at hw
      · obtain ⟨-, -, rfl⟩ := Option.map_eq_some_iff.mp hw
        grind [relTo]
      · split at hw
        · obtain ⟨-, -, rfl⟩ := Option.map_eq_some_iff.mp hw
          grind [relTo]
        · rw [hp j w hw]
          grind [relTo]
  | put hk hrow _ hflag =>
      rename_i k
      rw [hflag, hp.newWhere hk] at hw
      rw [hrow]
      split at hw
      · rw [hp j w hw]
        grind [relTo, bump]
      · split at hw
        · next hj => exact hj ▸ (Option.some.inj hw).symm
        · rw [hp (j - 1) w hw]
          grind [relTo, bump]
  | take _ hne hrow _ hflag =>
      rename_i k
      rw [hflag] at hw
      rw [hrow]
      split at hw
      · rw [hp j w hw]
        grind [relTo, unbump]
      · rw [hp (j + 1) w hw]
        grind [relTo, unbump]

theorem FlagStep.stale (h : FlagStep p q) (hp : Stale p) : Stale q := by
  obtain ⟨hroom, hfinal⟩ := hp
  cases h with
  | stay hrow hlen hflag => exact ⟨by omega, by rw [hflag, hlen]; exact hfinal⟩
  | up hrow hlen hflag =>
      refine ⟨by omega, ?_⟩
      rw [hflag, hlen, if_neg (by omega), if_neg (by omega)]
      exact hfinal
  | down hrow hlt hlen hflag =>
      refine ⟨by omega, ?_⟩
      rw [hflag, hlen, if_neg (by omega), if_neg (by omega)]
      exact hfinal
  | put hk hrow hlen hflag =>
      refine ⟨by rw [hrow, hlen]; unfold bump; split <;> omega, ?_⟩
      rw [hflag, hlen, if_neg (by omega), if_neg (by omega)]
      exact hfinal
  | take hk hne hrow hlen hflag =>
      rename_i k
      have hend : q.rows.length - 1 + 1 = p.rows.length - 1 := by omega
      refine ⟨by rw [hrow]; unfold unbump; split <;> omega, ?_⟩
      rw [hflag, if_neg (by omega), hend]
      exact hfinal

theorem FlagSteps.marked (h : FlagSteps p q) (hp : Marked p) : Marked q := by
  induction h with
  | refl => exact hp
  | tail _ hstep ih => exact hstep.marked ih

theorem FlagSteps.stale (h : FlagSteps p q) (hp : Stale p) : Stale q := by
  induction h with
  | refl => exact hp
  | tail _ hstep ih => exact hstep.stale ih

/-- A stale flag is not the right one. -/
theorem Stale.not_marked (h : Stale p) : ¬ Marked p := by
  intro hm
  have hroom := h.room
  have := hm _ _ h.final
  unfold relTo at this
  grind

/-! ## The steps of the operations -/

namespace FlagSteps

theorem of_flags (hflag : ∀ j, q.flagAt j = p.flagAt j) (hlen : q.rows.length = p.rows.length) (hown : q.own.row = p.own.row) :
    FlagSteps p q := .single (.stay hown hlen hflag)

theorem of_rows (hrows : q.rows = p.rows) (hown : q.own.row = p.own.row) : FlagSteps p q :=
  of_flags (fun j => by rw [flagAt, flagAt, hrows]) (by rw [hrows]) hown

theorem of_sameView (h : SameView p q) : FlagSteps p q := of_rows h.rows (by rw [h.own])

theorem modifyStr (p : Page R) (k : Nat) (f : Row R → R) : FlagSteps p (p.modifyRow k fun r => { r with str := f r }) :=
  of_flags (modifyStr_flagAt p k f) (by simp [modifyRow]) rfl

theorem setCurs {ref : CursRef} {c d : PageCursor} (hc : p.curs ref = .ok c) (hrow : d.row = c.row) :
    FlagSteps p (p.setCurs d ref) := by
  cases ref with
  | own =>
      obtain rfl := Except.ok.inj hc
      exact of_rows rfl hrow
  | peer i => exact of_sameView (p.setCurs_sameView i d)

end FlagSteps

/-- The own cursor is above the padding. -/
structure Roomy (p : Page R) : Prop where
  own_le : p.own.row ≤ p.last
  room : p.last + 2 ≤ p.rows.length

variable [Rope R]

/-- A cursor goes down only to a row up to `last`. -/
theorem cursorMove_down {c : PageCursor} {dir : CmoveDir} (h : (p.cursorMove c dir).2 = .aDown) : c.row ≠ p.last := by
  cases dir <;> simp only [cursorMove] at h <;> grind

theorem cursorMove_up_ne (p : Page R) (c : PageCursor) : (p.cursorMove c .up).2 ≠ .aDown := by
  simp only [cursorMove]
  split <;> simp

theorem cursorMove_left_ne (p : Page R) (c : PageCursor) : (p.cursorMove c .left).2 ≠ .aDown := by
  simp only [cursorMove]
  split
  · simp
  · split <;> simp

theorem Roomy.down (h : Roomy p) {dir : CmoveDir} (hdown : (p.cursorMove p.own dir).2 = .aDown) :
    p.own.row + 2 < p.rows.length := by
  have hne := cursorMove_down hdown
  have := h.own_le
  have := h.room
  omega

theorem Roomy.bcursorMove (h : Roomy p) {id : Int} {dir : CmoveDir} (hrun : p.bcursorMove id dir = .ok q) : Roomy q := by
  obtain ⟨ref, -, hrun⟩ := Except.bind_eq_ok.mp hrun
  obtain ⟨c, hc, hrun⟩ := Except.bind_eq_ok.mp hrun
  obtain rfl := Except.ok.inj hrun
  obtain ⟨hmoved, hto, -⟩ := moveCurs_spec hc dir
  refine ⟨?_, by rw [hmoved.last, hmoved.rows_length]; exact h.room⟩
  rw [hmoved.last]
  cases ref with
  | own =>
      obtain rfl := Except.ok.inj hc
      rw [Except.ok.inj hto]
      have hle := h.own_le
      rcases p.cursorMove_row p.own dir with ⟨-, hrow⟩ | ⟨hres, hrow, -⟩ | ⟨-, -, hrow⟩
      · omega
      · have := cursorMove_down hres
        omega
      · omega
  | peer i =>
      rw [(moveCurs_sameView p i c dir).own]
      exact h.own_le

namespace FlagSteps

theorem moveOwn (p : Page R) (dir : CmoveDir)
    (hroom : (p.cursorMove p.own dir).2 = .aDown → p.own.row + 2 < p.rows.length) :
    FlagSteps p (p.moveCurs .own p.own dir) := by
  obtain ⟨hmoved, hto, -⟩ := moveCurs_spec p.curs_own dir
  have hflag := p.moveCurs_own_flagAt p.own dir
  have hto := congrArg PageCursor.row (Except.ok.inj hto)
  rcases p.cursorMove_row p.own dir with ⟨hres, hrow⟩ | ⟨hres, hrow, -⟩ | ⟨hup, hdown, hrow⟩
  · refine .single (.up (by omega) hmoved.rows_length fun j => ?_)
    rw [hflag, hres, if_pos rfl, noteUp_flagAt, hto]
  · refine .single (.down (by omega) (hroom hres) hmoved.rows_length fun j => ?_)
    rw [hflag, hres, if_neg (by decide), if_pos rfl, noteDown_flagAt p (by omega), hto, hrow, Nat.add_sub_cancel]
  · refine of_flags (fun j => ?_) hmoved.rows_length (hto.trans hrow)
    rw [hflag, if_neg hup, if_neg hdown]

theorem moveCurs {c : CursRef} {cur : PageCursor} (hcur : p.curs c = .ok cur) (dir : CmoveDir)
    (hroom : (p.cursorMove p.own dir).2 = .aDown → p.own.row + 2 < p.rows.length) : FlagSteps p (p.moveCurs c cur dir) := by
  cases c with
  | own => exact Except.ok.inj hcur ▸ moveOwn p dir hroom
  | peer i => exact of_sameView (moveCurs_sameView p i cur dir)

theorem bcursorMove {id : Int} {dir : CmoveDir} (hrun : p.bcursorMove id dir = .ok q)
    (hroom : (p.cursorMove p.own dir).2 = .aDown → p.own.row + 2 < p.rows.length) : FlagSteps p q := by
  obtain ⟨ref, -, hrun⟩ := Except.bind_eq_ok.mp hrun
  obtain ⟨c, hc, hrun⟩ := Except.bind_eq_ok.mp hrun
  exact Except.ok.inj hrun ▸ moveCurs hc dir hroom

theorem newRow {k : Nat} (hk : k < p.rows.length) (ptr : Ptr) : FlagSteps p (p.newRow k ptr) :=
  .single (.put hk rfl (newRow_length _ _ (Nat.le_of_lt hk)) (p.newRow_flagAt ptr (Nat.le_of_lt hk)))

omit [Rope R] in
theorem trim (p : Page R) (k : Nat) : FlagSteps p (p.trim k) :=
  of_rows (trim_rows p k) (congrArg PageCursor.row (Except.ok.inj (trim_curs p k .own)))

theorem homeUp (hrun : p.homeUp = .ok q) : FlagSteps p q := by
  unfold Page.homeUp at hrun
  by_cases hhome : p.serverMode ∧ p.own.row ≠ 0
  · rw [runIf_pos hhome] at hrun
    exact bcursorMove hrun fun h => absurd h (p.cursorMove_up_ne p.own)
  · rw [runIf_neg hhome] at hrun
    exact Except.ok.inj hrun ▸ .refl

theorem insertAbove {c : CursRef} {row : Nat} (hrow : row < p.rows.length) {ptr : Ptr}
    (hrun : p.insertAbove c row ptr = .ok q) : FlagSteps p q := by
  refine ((newRow hrow ptr).trans (trim _ row)).trans (Relation.ReflTransGen.trans ?_ (homeUp hrun))
  unfold scrollIfOwn
  split
  · exact of_rows (scroll_rows _ _) (by rw [scroll_own])
  · exact .refl

theorem newBelow {row : Nat} (hrow : row + 1 < p.rows.length) (ptr : Ptr) : FlagSteps p (p.newBelow row ptr) := by
  refine (newRow hrow ptr).trans ?_
  unfold Page.newBelow
  split
  · exact of_rows rfl rfl
  · exact .refl

theorem splitOther_own {c : CursRef} (hroom : Roomy p) (hrun : p.splitOther c .own p.own = .ok q) : FlagSteps p q := by
  obtain ⟨cur, -, hrun⟩ := Except.bind_eq_ok.mp hrun
  split at hrun
  · refine (setCurs p.curs_own (d := { p.own with pos := p.own.pos - cur.pos }) rfl).trans (bcursorMove hrun fun h => ?_)
    have hmoved : Roomy (p.setCurs { p.own with pos := p.own.pos - cur.pos } .own) := ⟨hroom.own_le, hroom.room⟩
    exact hmoved.down h
  · exact Except.ok.inj hrun ▸ .refl

theorem splitLine (hroom : Roomy p) (hD : p.Distinct) (hslots : p.peers.length = maxCursorNum) {c : CursRef}
    {cur : PageCursor} (hcur : p.curs c = .ok cur) (hrun : p.splitLine c = .ok q) : FlagSteps p q ∧ Roomy q := by
  obtain ⟨x, hx, hmoved, -, q₁, hown, hview⟩ := splitLine_spec hD hslots hcur
  obtain rfl : x = q := Except.ok.inj (hx.symm.trans hrun)
  have hsplit : Roomy (p.splitText cur.row cur.pos) := ⟨hroom.own_le, by simpa [splitText, modifyRow] using hroom.room⟩
  refine ⟨(((modifyStr p cur.row _).trans (modifyStr _ (cur.row + 1) _)).trans (splitOther_own hsplit hown)).trans
    (of_sameView hview), ?_, ?_⟩
  · have hle : q₁.own.row ≤ p.last := by
      obtain ⟨cur', -, hown⟩ := Except.bind_eq_ok.mp hown
      split at hown
      · have hset : Roomy ((p.splitText cur.row cur.pos).setCurs { p.own with pos := p.own.pos - cur'.pos } .own) :=
          ⟨hsplit.own_le, hsplit.room⟩
        obtain ⟨ref, -, hrun'⟩ := Except.bind_eq_ok.mp hown
        obtain ⟨c', hc', hrun'⟩ := Except.bind_eq_ok.mp hrun'
        have hle := (hset.bcursorMove hown).own_le
        have hlast := (moveCurs_spec hc' .down).1.last
        rw [Except.ok.inj hrun'] at hlast
        rw [hlast] at hle
        exact hle
      · exact Except.ok.inj hown ▸ hsplit.own_le
    rw [hview.own, hmoved.last]
    exact hle
  · rw [hmoved.last, hmoved.rows_length]
    exact hsplit.room

theorem insertBelow (hroom : Roomy p) (hD : p.Distinct) (hslots : p.peers.length = maxCursorNum) {c : CursRef}
    {cur : PageCursor} (hcur : p.curs c = .ok cur) (hrow : cur.row ≤ p.last) {ptr : Ptr}
    (hrun : p.insertBelow cur.id c cur.row cur.pos ptr = .ok q) : FlagSteps p q := by
  obtain ⟨x, hx, hrun⟩ := Except.bind_eq_ok.mp hrun
  obtain ⟨d, hd, hrun⟩ := Except.bind_eq_ok.mp hrun
  have hlt := hroom.room
  have hnew : Roomy (p.newBelow cur.row ptr) := by
    have hown : (p.newBelow cur.row ptr).own.row = bump (cur.row + 1) p.own.row := by
      unfold Page.newBelow
      split <;> rfl
    refine ⟨?_, ?_⟩
    · rw [hown, newBelow_last p ptr hrow]
      have := hroom.own_le
      unfold bump
      split <;> omega
    · rw [newBelow_last p ptr hrow, newBelow_length p ptr (by omega)]
      omega
  have hcur' : (p.newBelow cur.row ptr).curs c = .ok cur := by
    rw [newBelow_curs, hcur]
    exact congrArg Except.ok cur.mapRow_bump_self
  have hsplit : FlagSteps (p.newBelow cur.row ptr) x ∧ Roomy x := by
    by_cases hpos : sizeT cur.pos ≠ p.len cur.row
    · rw [runIf_pos hpos] at hx
      exact splitLine hnew (newBelow_distinct hD cur.row ptr) ((p.newBelow_slots cur.row ptr).trans hslots) hcur' hx
    · rw [runIf_neg hpos] at hx
      exact Except.ok.inj hx ▸ ⟨.refl, hnew⟩
  have hset := setCurs hd (d := { d with pos := 0 }) rfl
  have hroom' : Roomy ((x.setCurs { d with pos := 0 } c).trim (cur.row + 1)) := by
    have hkept := (x.setCurs { d with pos := 0 } c).trim_kept (cur.row + 1)
    have hown := Except.ok.inj ((x.setCurs { d with pos := 0 } c).trim_curs (cur.row + 1) .own)
    refine ⟨?_, ?_⟩
    · rw [hown, hkept.last]
      cases c with
      | own => exact Except.ok.inj hd ▸ hsplit.2.own_le
      | peer i => exact hsplit.2.own_le
    · rw [hkept.last, hkept.rows_length]
      cases c <;> exact hsplit.2.room
  exact ((((newBelow (by omega) ptr).trans hsplit.1).trans hset).trans (trim _ _)).trans
    (bcursorMove hrun hroom'.down)

/-! ### Taking a row out -/

theorem joinOther_own {c : CursRef} (hrun : p.joinOther c .own p.own = .ok q) : FlagSteps p q := by
  obtain ⟨cur, -, hrun⟩ := Except.bind_eq_ok.mp hrun
  split at hrun
  · obtain ⟨x, hx, hrun⟩ := Except.bind_eq_ok.mp hrun
    obtain ⟨o, ho, hrun⟩ := Except.bind_eq_ok.mp hrun
    obtain ⟨cur', -, hrun⟩ := Except.bind_eq_ok.mp hrun
    obtain rfl := Except.ok.inj hrun
    exact (bcursorMove hx fun h => absurd h (p.cursorMove_up_ne p.own)).trans (setCurs ho rfl)
  · exact Except.ok.inj hrun ▸ .refl

theorem joinRows (p : Page R) (k : Nat) : FlagSteps p (p.joinRows k) :=
  of_flags (joinRows_flagAt p k) (joinRows_length p k) (congrArg PageCursor.row (Except.ok.inj (p.joinRows_curs k .own)))

theorem joinLines (hD : p.Distinct) (hslots : p.peers.length = maxCursorNum) {c : CursRef} {cur : PageCursor}
    (hcur : p.curs c = .ok cur) (hx : p.joinLines c = .ok q) : FlagSteps p q := by
  by_cases hfit : (Rope.writeCstr (p.strAt (cur.row + 1))).length + 1 ≤ spSize
  · obtain ⟨x', hx', -, -, q₁, hown, hview⟩ := joinLines_spec hD hslots hcur hfit
    obtain rfl : x' = q := Except.ok.inj (hx'.symm.trans hx)
    exact ((joinRows p cur.row).trans (joinOther_own hown)).trans (of_sameView hview)
  · rw [joinLines_overflow hcur hfit] at hx
    cases hx

omit [Rope R] in
theorem eraseRow {k : Nat} (hk : k + 1 < p.rows.length) (hown : p.own.row ≠ k) : FlagSteps p (p.eraseRow k) := by
  refine .single (.take hk hown rfl ?_ fun j => ?_)
  · simp only [Page.eraseRow, List.length_eraseIdx]
    rw [if_pos (by omega)]
    omega
  · simp only [flagAt, Page.eraseRow, List.getElem?_eraseIdx]
    split <;> rfl

theorem deletel {k : Nat} (hk : k + 1 < p.rows.length) (hnone : ∀ ref c, p.curs ref = .ok c → c.row ≠ k)
    (hrun : p.deletel k = .ok q) : FlagSteps p q := by
  obtain ⟨x, hx, hkept, hcurs, -, rfl⟩ := deletel_ok hnone hrun
  have hown : x.own = p.own := Except.ok.inj (hcurs .own)
  have hrows : x.rows = p.rows := by
    by_cases hv : p.visible k = true
    · rw [runIf_pos hv] at hx
      exact extend_rows hx
    · rw [runIf_neg hv] at hx
      rw [Except.ok.inj hx]
  have hstay : FlagSteps p (x.leaveMarks k) := of_rows hrows (congrArg PageCursor.row hown)
  refine hstay.trans (eraseRow ?_ ?_)
  · show k + 1 < x.rows.length
    rw [hrows]
    exact hk
  · show x.own.row ≠ k
    rw [hown]
    exact hnone .own p.own p.curs_own

/-! ### The calls -/

omit [Rope R] in
theorem addCurs (p : Page R) {c : PageCursor} (h0 : c.id ≠ 0) : FlagSteps p (p.addCurs c).1 := by
  unfold Page.addCurs
  rw [if_neg h0]
  split
  · exact .refl
  · exact of_rows rfl rfl

omit [Rope R] in
theorem bcursorNew {id lid pos : Int} {res : Bres} (h0 : id ≠ 0) (hrun : p.bcursorNew id lid pos = .ok (q, res)) :
    FlagSteps p q := by
  unfold Page.bcursorNew at hrun
  split at hrun
  · cases hrun
  · next row hrow =>
      have hadd := addCurs p (c := ⟨id, row, pos⟩) h0
      rwa [Except.ok.inj hrun] at hadd

omit [Rope R] in
theorem bcursorFree {id : Int} {res : Bres} (hrun : p.bcursorFree id = .ok (q, res)) : FlagSteps p q := by
  unfold Page.bcursorFree at hrun
  split at hrun
  · cases hrun
  · obtain ⟨rfl, rfl⟩ := Prod.mk.inj (Except.ok.inj hrun)
    exact .refl
  · obtain ⟨rfl, rfl⟩ := Prod.mk.inj (Except.ok.inj hrun)
    exact of_rows rfl rfl

end FlagSteps

end Page

end CoEditor
