-- SUMMARY: What ui_update paints: the lines from top on as they are, if they are read as formats without conversions.
import CoEditor.Session.Reach
import CoEditor.Session.Screen

/-!
# Painting

`frame` is the list of calls that paints the lines of the window as they are:
each line in its row from column 0 on, then the debug columns, then the peer
cursors on top of the characters that are there, and in the end the terminal
cursor at the own cursor. `ui_update` makes other calls, or none, if a line has
a percent sign in it.
-/

namespace CoEditor

open Decimal

variable {R : Type}

/-- The calls for one row: the text `s` of the line, its id, and the peer cursors that are on it. -/
def rowCalls (inch : Inch) (b : Buffer R) (i : Nat) (q : Ptr) (l : Line R) (s : Bytes) (calls : List UiCall) : List UiCall :=
  b.peerCurss.foldl (fun calls o =>
    match o with
    | none => calls
    | some c => if l.onScreen ∧ q = c.ownLine then colorAt inch i c.pos calls else calls)
    (calls ++ [.mvprintw i 0 s, .mvprintw i 25 (bytes "   |" ++ digits l.id)])

/-- The calls for all lines `xs`, from row `i` on. -/
def rowsCalls [Rope R] (inch : Inch) (b : Buffer R) : Nat → List (Ptr × Line R) → List UiCall → List UiCall
  | _, [], calls => calls
  | i, x :: xs, calls => rowsCalls inch b (i + 1) xs (rowCalls inch b i x.1 x.2 (Rope.writeCstr x.2.str) calls)

/-- The ids of `first` and `last`, and of `top` and `bottom`. -/
def marksCalls (b : Buffer R) : List UiCall :=
  let id (q : Option Ptr) : Bytes := ((b.idOf q).map digits).getD []
  [.mvprintw 49 0 (id (some b.first) ++ ch ' ' :: id b.last ++ [10]), .mvprintw 50 0 (id b.top ++ ch ' ' :: id b.bottom ++ [10])]

/-- The window as it is, with the terminal cursor at column `x` of row `y`. -/
def frame [Rope R] (inch : Inch) (b : Buffer R) (y : Nat) (x : Int) : List UiCall :=
  rowsCalls inch b 0 b.shown (infoCalls 0 b.chain [.clear]) ++ marksCalls b ++ [.move y x, .refresh]

/-- What is painted is what is stored: every row gets the bytes of its line, and the terminal cursor goes to the row of
    the own cursor's line and the column of its position. -/
def PaintsStored [Rope R] (inch : Inch) (b : Buffer R) : Prop :=
  ∃ (y : Nat) (c : Cursor), b.ownCurs = some c ∧ b.shown[y]?.map Prod.fst = some c.ownLine ∧
    uiUpdate inch b = .ok (frame inch b y c.pos)

/-! ## Formats -/

theorem printf_length : ∀ {s t : Bytes}, printf s = .ok t → t.length ≤ s.length ∧ (ch '%' ∈ s → t.length < s.length) := by
  intro s
  fun_induction printf s with
  | case1 =>
      intro t h
      rw [← Except.ok.inj h]
      simp
  | case2 => exact fun h => nomatch h
  | case3 c hc =>
      intro t h
      rw [← Except.ok.inj h]
      exact ⟨Nat.le_refl _, fun hmem => absurd (List.mem_singleton.mp hmem).symm hc⟩
  | case4 s ih =>
      intro t h
      obtain ⟨t, ht, rfl⟩ := Except.map_eq_ok.mp h
      have hlen := (ih ht).1
      simp only [List.length_cons]
      omega
  | case5 => exact fun h => nomatch h
  | case6 c d s hc ih =>
      intro t h
      obtain ⟨t, ht, rfl⟩ := Except.map_eq_ok.mp h
      obtain ⟨hle, hlt⟩ := ih ht
      refine ⟨Nat.succ_le_succ hle, fun hmem => Nat.succ_lt_succ (hlt ?_)⟩
      exact (List.mem_cons.mp hmem).resolve_left (Ne.symm hc)

/-- A text is printed as it is exactly when there is no percent sign in it. -/
theorem printf_self_iff {s : Bytes} : printf s = .ok s ↔ ch '%' ∉ s := by
  constructor
  · exact fun h hmem => Nat.lt_irrefl _ ((printf_length h).2 hmem)
  · intro hmem
    fun_induction printf s with
    | case1 => rfl
    | case2 => simp at hmem
    | case3 => rfl
    | case4 => simp at hmem
    | case5 => simp at hmem
    | case6 c d s hc ih =>
        rw [List.mem_cons, not_or] at hmem
        rw [ih hmem.2]
        rfl

section
variable {b : Buffer R} {inch : Inch}

/-- The peer cursors are looked at one after the other. -/
theorem uiPeers_eq (hpeers : ∀ c, some c ∈ b.peerCurss → ∃ l, b.line c.ownLine = .ok l) {q : Ptr} {l : Line R} (hl : b.line q = .ok l)
    (i : Nat) (s : Bytes) (calls : List UiCall) :
    uiPeers inch b i q (calls ++ [.mvprintw i 0 s, .mvprintw i 25 (bytes "   |" ++ digits l.id)]) = .ok (rowCalls inch b i q l s calls) := by
  unfold uiPeers rowCalls
  generalize calls ++ [.mvprintw i 0 s, .mvprintw i 25 (bytes "   |" ++ digits l.id)] = calls
  generalize b.peerCurss = os at hpeers
  induction os generalizing calls with
  | nil => rfl
  | cons o os ih =>
      have ih := fun calls => ih calls fun c hc => hpeers c (List.mem_cons_of_mem o hc)
      rw [List.foldlM_cons, List.foldl_cons]
      cases o with
      | none => exact ih calls
      | some c =>
          obtain ⟨m, hm⟩ := hpeers c List.mem_cons_self
          dsimp only
          rw [hm, Except.ok_bind_eq]
          by_cases hq : q = c.ownLine
          · rw [← hq, hl] at hm
            rw [← Except.ok.inj hm]
            exact ih _
          · rw [if_neg fun h => hq h.2, if_neg fun h => hq h.2]
            exact ih calls

variable [Rope R]

/-- The line can be painted: it has no percent sign in it, and room in `cstr`. -/
def Paintable (b : Buffer R) (l : Line R) : Prop :=
  ch '%' ∉ Rope.writeCstr l.str ∧ ((Rope.writeCstr l.str).length : Int) + 1 ≤ b.cstrSize

instance (b : Buffer R) (l : Line R) : Decidable (Paintable b l) := inferInstanceAs (Decidable (_ ∧ _))

/-! ## Calls are only added -/

omit [Rope R] in
theorem colorAt_extends (inch : Inch) (i : Nat) (pos : Int) (calls : List UiCall) : calls <+: colorAt inch i pos calls := by
  simp only [colorAt, List.append_assoc]
  exact List.prefix_append _ _

omit [Rope R] in
theorem rowCalls_extends (inch : Inch) (b : Buffer R) (i : Nat) (q : Ptr) (l : Line R) (s : Bytes) (calls : List UiCall) :
    calls ++ [.mvprintw i 0 s] <+: rowCalls inch b i q l s calls := by
  have hfold : ∀ (os : List (Option Cursor)) (calls : List UiCall), calls <+: os.foldl (fun calls o =>
      match o with
      | none => calls
      | some c => if l.onScreen ∧ q = c.ownLine then colorAt inch i c.pos calls else calls) calls := by
    intro os
    induction os with
    | nil => exact fun calls => List.prefix_rfl
    | cons o os ih =>
        intro calls
        refine List.IsPrefix.trans ?_ (ih _)
        cases o with
        | none => exact List.prefix_rfl
        | some c =>
            dsimp only
            split
            · exact colorAt_extends inch i c.pos calls
            · exact List.prefix_rfl
  refine List.IsPrefix.trans ?_ (hfold _ _)
  exact (List.prefix_append_right_inj calls).mpr (by simp)

theorem rowsCalls_extends (inch : Inch) (b : Buffer R) (i : Nat) (xs : List (Ptr × Line R)) (calls : List UiCall) :
    calls <+: rowsCalls inch b i xs calls := by
  induction xs generalizing i calls with
  | nil => exact List.prefix_rfl
  | cons x xs ih => exact ((List.prefix_append _ _).trans (rowCalls_extends inch b i x.1 x.2 _ calls)).trans (ih _ _)

omit [Rope R] in
theorem uiPeers_extends {i : Nat} {q : Ptr} {calls r : List UiCall} (hrun : uiPeers inch b i q calls = .ok r) : calls <+: r := by
  refine Except.foldlM_invariant (P := fun r => calls <+: r) ?_ _ List.prefix_rfl hrun
  intro c c' o h hstep
  cases o with
  | none => exact Except.ok.inj hstep ▸ h
  | some d =>
      obtain ⟨l, -, hstep⟩ := Except.bind_eq_ok.mp hstep
      rw [← Except.ok.inj hstep]
      split
      · exact h.trans (colorAt_extends inch i d.pos c)
      · exact h

theorem uiRows_extends : ∀ {n i : Nat} {lit : Option Ptr} {calls : List UiCall} {pos : Option (Int × Int)}
    {r : List UiCall × Option (Int × Int)}, uiRows inch b n i lit calls pos = .ok r → calls <+: r.1 := by
  intro n
  induction n with
  | zero =>
      intro i lit calls pos r hrun
      exact Except.ok.inj hrun ▸ List.prefix_rfl
  | succ n ih =>
      intro i lit calls pos r hrun
      cases lit with
      | none => cases hrun
      | some q =>
          obtain ⟨own, -, hrun⟩ := Except.bind_eq_ok.mp hrun
          obtain ⟨l, -, hrun⟩ := Except.bind_eq_ok.mp hrun
          obtain ⟨cstr, -, hrun⟩ := Except.bind_eq_ok.mp hrun
          obtain ⟨s, -, hrun⟩ := Except.bind_eq_ok.mp hrun
          obtain ⟨calls', hpeers, hrun⟩ := Except.bind_eq_ok.mp hrun
          refine ((List.prefix_append _ _).trans (uiPeers_extends hpeers)).trans ?_
          split at hrun
          · exact Except.ok.inj hrun ▸ List.prefix_rfl
          · exact ih hrun

/-! ## The rows -/

/-- A line that can be painted is painted as it is. -/
theorem Paintable.uiRows {own : Cursor} (hown : b.own = .ok own)
    (hpeers : ∀ c, some c ∈ b.peerCurss → ∃ l, b.line c.ownLine = .ok l) {q : Ptr} {l : Line R} (hl : b.line q = .ok l)
    (h : Paintable b l) {n : Nat} (hend : l.next = none → n = 0) (i : Nat) (calls : List UiCall) (pos : Option (Int × Int)) :
    CoEditor.uiRows inch b (n + 1) i (some q) calls pos = CoEditor.uiRows inch b n (i + 1) l.next
      (rowCalls inch b i q l (Rope.writeCstr l.str) calls) (if own.ownLine = q then some ((i : Int), own.pos) else pos) := by
  have hcstr : b.writeCstr l.str = .ok (Rope.writeCstr l.str) := by rw [Buffer.writeCstr, if_pos h.2]
  rw [CoEditor.uiRows]
  simp only [hown, hl, hcstr, printf_self_iff.mpr h.1, uiPeers_eq hpeers hl, Except.ok_bind_eq]
  cases hnext : l.next with
  | none =>
      rw [hend hnext]
      rfl
  | some r => rfl

/-- A line that is painted as it is can be painted. -/
theorem paintable_of_uiRows {q : Ptr} {l : Line R} (hl : b.line q = .ok l) {n i : Nat} {calls : List UiCall}
    {pos : Option (Int × Int)} {r : List UiCall × Option (Int × Int)} (hrun : uiRows inch b (n + 1) i (some q) calls pos = .ok r)
    (hlead : calls ++ [.mvprintw i 0 (Rope.writeCstr l.str)] <+: r.1) : Paintable b l := by
  obtain ⟨own, -, hrun⟩ := Except.bind_eq_ok.mp hrun
  obtain ⟨l', hl', hrun⟩ := Except.bind_eq_ok.mp hrun
  obtain rfl := Except.ok.inj (hl.symm.trans hl')
  obtain ⟨cstr, hcstr, hrun⟩ := Except.bind_eq_ok.mp hrun
  obtain ⟨s, hs, hrun⟩ := Except.bind_eq_ok.mp hrun
  obtain ⟨calls', hpeers, hrun⟩ := Except.bind_eq_ok.mp hrun
  have hfits : ((Rope.writeCstr l.str).length : Int) + 1 ≤ b.cstrSize ∧ cstr = Rope.writeCstr l.str := by
    unfold Buffer.writeCstr at hcstr
    dsimp only at hcstr
    split at hcstr
    · next hfits => exact ⟨hfits, (Except.ok.inj hcstr).symm⟩
    · cases hcstr
  -- what was printed for the line stands where its text should
  have hprinted : calls ++ [.mvprintw i 0 s] <+: r.1 := by
    refine List.IsPrefix.trans ?_ ((uiPeers_extends hpeers).trans ?_)
    · exact (List.prefix_append_right_inj calls).mpr (by simp)
    · split at hrun
      · exact Except.ok.inj hrun ▸ List.prefix_rfl
      · exact uiRows_extends hrun
  have heq := (List.prefix_of_prefix_length_le hprinted hlead (by simp)).eq_of_length (by simp)
  have hs' : s = Rope.writeCstr l.str := by simpa using heq
  refine ⟨printf_self_iff.mp ?_, hfits.1⟩
  rw [← hfits.2, hs, hs', hfits.2]

/-- The rows are painted as they are exactly when every line can be painted. -/
theorem Trail.uiRows (inch : Inch) {own : Cursor} (hown : b.own = .ok own) (hpeers : ∀ c, some c ∈ b.peerCurss → ∃ l, b.line c.ownLine = .ok l) :
    ∀ {n : Nat} {lit : Option Ptr} {xs : List (Ptr × Line R)}, Trail b.heap lit xs → n ≤ xs.length → ∀ (i : Nat) (calls : List UiCall)
      (pos r : Option (Int × Int)), CoEditor.uiRows inch b n i lit calls pos = .ok (rowsCalls inch b i (xs.take n) calls, r) ↔
        (∀ x ∈ xs.take n, Paintable b x.2) ∧ r = metAt own i (xs.take n) pos := by
  intro n
  induction n with
  | zero =>
      intro lit xs ht hn i calls pos r
      rw [CoEditor.uiRows, List.take_zero, rowsCalls, metAt, Except.pure_eq_ok, Except.ok.injEq, Prod.mk.injEq]
      simp [eq_comm]
  | succ n ih =>
      intro lit xs ht hn i calls pos r
      cases ht with
      | nil => cases hn
      | @cons q l xs hl ht =>
          have hline : b.line q = .ok l := by simp [Buffer.line, hl]
          have hn := Nat.le_of_succ_le_succ hn
          have hend : l.next = none → n = 0 := by
            intro hnext
            rw [hnext] at ht
            cases ht
            exact Nat.le_zero.mp hn
          rw [List.take_succ_cons, List.forall_mem_cons, rowsCalls, metAt]
          by_cases hp : Paintable b l
          · rw [hp.uiRows hown hpeers hline hend, ih ht hn]
            simp [hp]
          · refine iff_of_false (fun hrun => hp ?_) fun h => hp h.1.1
            exact paintable_of_uiRows hline hrun ((rowCalls_extends inch b i q l _ calls).trans (rowsCalls_extends inch b _ _ _))

end

/-! ## The window -/

section
variable {b : Buffer R} {p : Page R}

namespace Rep

theorem shown (h : Rep b p) : b.shown = (b.chain.drop p.top).take b.height.toNat :=
  h.wellLinked.shown h.top.symm (by rw [Page.ptrs_length]; exact h.top_lt)

/-- The line behind a pointer of the buffer, and its id. -/
theorem lineAt_idOf (h : Rep b p) {i : Nat} (hi : i < p.rows.length) :
    ∃ l, b.lineAt p.ptrs[i]? = .ok l ∧ b.idOf p.ptrs[i]? = some l.id := by
  obtain ⟨r, hr⟩ := Page.exists_row hi
  refine ⟨_, h.lineAt hr, ?_⟩
  rw [h.idOf, Page.idAt, hr]
  rfl

variable [Rope R]

/-- There is a line for every row. -/
theorem shown_length (h : Rep b p) (hp : p.Sound) : b.shown.length = b.height.toNat := by
  have hlast : (p.last : Int) + p.height = p.rows.length := by rw [← Page.doc_length]; exact hp.doc.last
  have htop := hp.top_le_last h.bottom_lt
  rw [h.shown, List.length_take, List.length_drop, h.chain, List.length_mapIdx, h.height]
  omega

/-- Once the rows are painted the rest is the same for every buffer. -/
theorem uiUpdate_eq (h : Rep b p) (inch : Inch) :
    CoEditor.uiUpdate inch b = (do
      let (calls, pos) ← uiRows inch b b.height.toNat 0 b.top (infoCalls 0 b.chain [.clear]) none
      match pos with
      | none => .error .unset
      | some (y, x) => pure (calls ++ marksCalls b ++ [.move y x, .refresh])) := by
  obtain ⟨first, hfirst, hfirstId⟩ := h.lineAt_idOf (Nat.zero_lt_of_lt h.top_lt)
  obtain ⟨last, hlast, hlastId⟩ := h.lineAt_idOf h.last_lt
  obtain ⟨top, htop, htopId⟩ := h.lineAt_idOf h.top_lt
  obtain ⟨bottom, hbottom, hbottomId⟩ := h.lineAt_idOf h.bottom_lt
  rw [h.first] at hfirst hfirstId
  have hmarks : marksCalls b = [idsRow 49 first last, idsRow 50 top bottom] := by
    simp only [marksCalls, h.last, h.top, h.bottom, hfirstId, hlastId, htopId, hbottomId]
    rfl
  rw [CoEditor.uiUpdate, h.wellLinked.uiInfo, Except.ok_bind_eq, hmarks]
  congr
  funext r
  rw [show b.line b.first = .ok first from hfirst, h.last, h.top, h.bottom, hlast, htop, hbottom]
  rfl

/-- The window is painted as it is exactly when its lines can be painted and the own cursor is on one of them. -/
theorem paintsStored_iff (h : Rep b p) (hp : p.Sound) (inch : Inch) : PaintsStored inch b ↔
    (∀ x ∈ b.shown, Paintable b x.2) ∧ ∃ c, b.ownCurs = some c ∧ c.ownLine ∈ b.shown.map Prod.fst := by
  obtain ⟨r, -, hown⟩ := h.own_ok
  have hcurs : b.ownCurs = some ⟨p.own.id, r.ptr, p.own.pos⟩ := by
    unfold Buffer.own at hown
    split at hown
    · next c hc => rw [hc, Except.ok.inj hown]
    · cases hown
  generalize (⟨p.own.id, r.ptr, p.own.pos⟩ : Cursor) = own at hown hcurs
  have htrail : Trail b.heap b.top (b.chain.drop p.top) := h.top ▸ h.wellLinked.chain.2 p.top
  have hlen : b.height.toNat ≤ (b.chain.drop p.top).length := by
    have hshown := h.shown_length hp
    rw [h.shown, List.length_take] at hshown
    omega
  -- the loop over the rows decides it
  have hrows := fun r => htrail.uiRows inch hown h.wellLinked.peers_line hlen 0 (infoCalls 0 b.chain [.clear]) none r
  rw [← h.shown] at hrows
  have hrun := h.uiUpdate_eq inch
  constructor
  · rintro ⟨y, c, hc, hy, hpaint⟩
    obtain rfl := Option.some.inj (hcurs.symm.trans hc)
    rw [hrun] at hpaint
    obtain ⟨⟨calls, pos⟩, hloop, hrest⟩ := Except.bind_eq_ok.mp hpaint
    cases pos with
    | none => cases hrest
    | some pos =>
        obtain ⟨hcalls, -⟩ := List.append_inj' (Except.ok.inj hrest) rfl
        obtain ⟨rfl, -⟩ := List.append_inj' hcalls rfl
        refine ⟨((hrows _).mp hloop).1, own, hc, ?_⟩
        obtain ⟨x, hx, hxy⟩ := Option.map_eq_some_iff.mp hy
        exact hxy ▸ List.mem_map_of_mem (List.mem_of_getElem? hx)
  · rintro ⟨hlines, c, hc, hmem⟩
    obtain rfl := Option.some.inj (hcurs.symm.trans hc)
    obtain ⟨y, hy⟩ := List.getElem?_of_mem hmem
    rw [List.getElem?_map] at hy
    refine ⟨y, own, hc, hy, ?_⟩
    rw [hrun, (hrows _).mpr ⟨hlines, rfl⟩, Except.ok_bind_eq, metAt_of_getElem? h.wellLinked.shown_nodup hy, Nat.zero_add]
    rfl

end Rep

/-- In a session `ui_update` has a line for every row, and paints the window as it is exactly when no line in it has a
    percent sign or is too long for `cstr`, and the own cursor is on one of the lines. -/
theorem window_painted [Rope R] (hb : Reachable b) (inch : Inch) : (b.shown.length : Int) = b.height ∧
    (PaintsStored inch b ↔
      (∀ x ∈ b.shown, Paintable b x.2) ∧ ∃ c, b.ownCurs = some c ∧ c.ownLine ∈ b.shown.map Prod.fst) := by
  obtain ⟨d, p, hrep, hsound, -⟩ := hb.sound
  refine ⟨?_, hrep.paintsStored_iff hsound inch⟩
  rw [hrep.shown_length hsound, hrep.height]
  exact Int.toNat_of_nonneg (Int.le_trans (by decide) hsound.doc.height)

end

theorem window_painted_ab : ∃ b : Buffer ListRope, Reachable b ∧ b.texts = ["ab".toList] ∧ PaintsStored blankScreen b := by
  have htest : returns (bufferFromFile (R := ListRope) (bytes "ab") 1 3 6 true) (fun b =>
      decide (b.texts = ["ab".toList] ∧ (∀ x ∈ b.shown, Paintable b x.2) ∧
        ∃ c ∈ b.ownCurs, c.ownLine ∈ b.shown.map Prod.fst)) = true := by
    decide +kernel
  obtain ⟨b, hb, hP⟩ := exists_of_returns htest
  obtain ⟨htexts, hlines, c, hc, hmem⟩ := of_decide_eq_true hP
  have hreach : Reachable b := .load (by decide) hb
  exact ⟨b, hreach, htexts, (window_painted hreach blankScreen).2.mpr ⟨hlines, c, hc, hmem⟩⟩

/-- Of two percent signs in a line one is on the screen. -/
theorem percent_vanishes : ∃ b : Buffer ListRope, Reachable b ∧ b.texts = ["%%".toList] ∧
    (∃ calls, uiUpdate blankScreen b = .ok calls ∧ .mvprintw 0 0 (bytes "%") ∈ calls ∧ .mvprintw 0 0 (bytes "%%") ∉ calls) ∧
    ∀ inch, ¬ PaintsStored inch b := by
  have htest : returns (bufferFromFile (R := ListRope) (bytes "%%") 1 3 6 true) (fun b =>
      returns (uiUpdate blankScreen b) fun calls => decide (b.texts = ["%%".toList] ∧
        .mvprintw 0 0 (bytes "%") ∈ calls ∧ .mvprintw 0 0 (bytes "%%") ∉ calls ∧ ∃ x ∈ b.shown, ¬ Paintable b x.2)) = true := by
    decide +kernel
  obtain ⟨b, hb, htest⟩ := exists_of_returns htest
  obtain ⟨calls, hcalls, hP⟩ := exists_of_returns htest
  obtain ⟨htexts, hone, htwo, x, hx, hno⟩ := of_decide_eq_true hP
  have hreach : Reachable b := .load (by decide) hb
  obtain ⟨d, p, hrep, hsound, -⟩ := hreach.sound
  exact ⟨b, hreach, htexts, ⟨calls, hcalls, hone, htwo⟩, fun inch hpaint =>
    hno (((hrep.paintsStored_iff hsound inch).mp hpaint).1 x hx)⟩

end CoEditor
