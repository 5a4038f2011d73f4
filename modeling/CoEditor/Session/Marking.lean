-- SUMMARY: When the where flags of the lines are right: only in a buffer restored with its own cursor below the first line.
import CoEditor.Page.Marking
import CoEditor.Session.Places
import CoEditor.Session.Snapshots

/-!
# Flags relative to the own cursor

`binit_onscreen_info` marks all lines as that of the own cursor if this is the
first one. No later call repairs the padding, so the flags of a loaded buffer
are never right. Once they are right every call keeps them so.
-/

namespace CoEditor

variable {R : Type}

/-! ## What the buffer shows -/

namespace Buffer

/-- The `where` flags along the chain. -/
def flags (b : Buffer R) : List Crp := b.chain.map fun x => x.2.where_

/-- The number of the own cursor's line. -/
def ownRow (b : Buffer R) : Nat := (b.ownCurs.map fun c => b.rowOf c.ownLine).getD 0

/-- Every line is marked as before, at or after that of the own cursor, where it is. -/
def Marked (b : Buffer R) : Prop := ∀ k w, b.flags[k]? = some w → w = relTo b.ownRow k

/-- The last padding line is marked as that of the own cursor, and is not. -/
def Stale (b : Buffer R) : Prop := b.ownRow + 1 < b.flags.length ∧ b.flags[b.flags.length - 1]? = some .same

end Buffer

variable {b b' : Buffer R} {p q : Page R}

namespace Rep

theorem flags_length (h : Rep b p) : b.flags.length = p.rows.length := by simp [Buffer.flags, h.chain]

theorem flags_getElem? (h : Rep b p) (k : Nat) : b.flags[k]? = p.flagAt k := by
  rw [Buffer.flags, List.getElem?_map, h.chain_getElem?, Option.map_map, Page.flagAt]
  rfl

theorem ownRow (h : Rep b p) : b.ownRow = p.own.row := by
  obtain ⟨r, hr⟩ := Page.exists_row (h.curs_lt .own p.own rfl)
  rw [Buffer.ownRow, h.own, Page.cursor_of_row hr, Option.map_some, Option.getD_some, h.rowOf hr]

theorem marked_iff (h : Rep b p) : b.Marked ↔ p.Marked := by
  simp only [Buffer.Marked, Page.Marked, h.flags_getElem?, h.ownRow]

theorem stale_iff (h : Rep b p) : b.Stale ↔ p.Stale := by
  rw [Buffer.Stale, h.flags_getElem?, h.flags_length, h.ownRow]
  exact ⟨fun h => ⟨h.1, h.2⟩, fun h => ⟨h.room, h.final⟩⟩

end Rep

variable [Rope R] {d : Doc R}

/-! ## The calls -/

theorem Page.Good.roomy (hp : p.Good) : p.Roomy := by
  refine ⟨hp.curs_le p.curs_own, ?_⟩
  have hlast := hp.doc.last_lt
  rw [Page.doc_length] at hlast
  exact hlast

namespace Page.FlagSteps

omit [Rope R] in
theorem charEdit {ref : CursRef} {c : PageCursor} (hc : p.curs ref = .ok c) (f : Row R → R) (n : Int) :
    FlagSteps p (((p.modifyRow c.row fun r => { r with str := f r }).setCurs { c with pos := c.pos + n } ref).nudgeOthers
      ref { c with pos := c.pos + n } n) := by
  have hrows : ∀ x : Page R, ((x.setCurs { c with pos := c.pos + n } ref).nudgeOthers
      ref { c with pos := c.pos + n } n).rows = x.rows := by
    intro x
    cases ref <;> rfl
  refine of_flags (fun j => ?_) ?_ (p.charEdit_own hc f n)
  · rw [flagAt, hrows]
    exact modifyStr_flagAt p c.row f j
  · rw [hrows]
    simp [modifyRow]

theorem bcursorInsert {id : Int} {chr : UInt8} {res : Bres} (hrun : p.bcursorInsert id chr = .ok (q, res)) :
    FlagSteps p q := by
  unfold Page.bcursorInsert at hrun
  split at hrun
  · obtain ⟨rfl, rfl⟩ := Prod.mk.inj (Except.ok.inj hrun)
    exact .refl
  · obtain ⟨c, hc, hrun⟩ := Except.bind_eq_ok.mp hrun
    split at hrun
    · obtain ⟨rfl, rfl⟩ := Prod.mk.inj (Except.ok.inj hrun)
      exact .refl
    · obtain ⟨rfl, rfl⟩ := Prod.mk.inj (Except.ok.inj hrun)
      exact charEdit hc (fun r => Rope.insert r.str (sizeT c.pos) (hstr chr)) 1

theorem bcursorInsertLine (hp : p.Good) {id : Int} {ptr : Ptr} (hrun : p.bcursorInsertLine id ptr = .ok q) :
    FlagSteps p q := by
  have hroom := hp.roomy
  have hcount : FlagSteps p { p with numLines := p.numLines + 1 } := of_rows rfl rfl
  obtain ⟨ref, href, hrun⟩ := Except.bind_eq_ok.mp hrun
  obtain ⟨c, hc, rfl⟩ := curs_of_findCurs href
  rw [hc, Except.ok_bind_eq] at hrun
  have hc' : p.curs ref = .ok c := (curs_congr rfl rfl ref).trans hc
  have hrow := hp.curs_le hc'
  have hlt := hroom.room
  refine hcount.trans ?_
  split at hrun
  · exact insertAbove (by simp only; omega) hrun
  · exact insertBelow (p := { p with numLines := p.numLines + 1 }) ⟨hroom.own_le, hroom.room⟩
      (distinct_congr (fun ref => curs_congr rfl rfl ref) hp.distinct) hp.slots hc hrow hrun

theorem bcursorDel (hp : p.Good) {id : Int} {res : Bres} (hrun : p.bcursorDel id = .ok (q, res)) : FlagSteps p q := by
  have hroom := hp.roomy
  obtain ⟨ref, href, hrun'⟩ := Except.bind_eq_ok.mp hrun
  obtain ⟨c, hc, rfl⟩ := curs_of_findCurs href
  rw [hc, Except.ok_bind_eq] at hrun'
  split at hrun'
  · obtain ⟨rfl, rfl⟩ := Prod.mk.inj (Except.ok.inj hrun')
    exact charEdit hc (fun r => Rope.del r.str (sizeT (c.pos - 1)) 1) (-1)
  · next hpos =>
      split at hrun'
      · obtain ⟨rfl, rfl⟩ := Prod.mk.inj (Except.ok.inj hrun')
        exact .refl
      · next h0 =>
          obtain ⟨x, hx, hdel, -⟩ := bcursorDel_join hp.distinct hp.slots hc hpos h0 hrun
          have hcurs : ∀ ref, ({ p with numLines := p.numLines - 1 } : Page R).curs ref = p.curs ref :=
            fun ref => curs_congr rfl rfl ref
          have hc₁ := (hcurs ref).trans hc
          have hD₁ := distinct_congr hcurs hp.distinct
          obtain ⟨-, hmoved, hself, -⟩ := bcursorMove_left hD₁ hc₁ hpos h0
          have hcount : FlagSteps p { p with numLines := p.numLines - 1 } := of_rows rfl rfl
          have hleft := moveCurs hc₁ .left fun h => absurd h (cursorMove_left_ne _ _)
          have hjoin := joinLines (hmoved.distinct hD₁) (hmoved.slots.trans hp.slots) hself hx
          obtain ⟨hjoined, -, -, hnone⟩ := joinLines_ok (hmoved.distinct hD₁) (hmoved.slots.trans hp.slots) hself hx
          have hrow := hp.curs_le hc
          have hsucc : c.row - 1 + 1 = c.row := by omega
          have hlen : x.rows.length = p.rows.length := by
            rw [hjoined.rows_length, joinRows_length, hmoved.rows_length]
          have hlt := hroom.room
          exact ((hcount.trans hleft).trans hjoin).trans (deletel (by omega) (by simpa only [hsucc] using hnone) hdel)

/-- Whatever a call does to the flags it does in steps. -/
theorem run (hp : p.Good) {op : Op} {ptr : Ptr} {res : Bres} (hlegal : op.Legal fun id => p.doc.curs id ≠ none)
    (hrun : op.runPage p ptr = .ok (q, res)) : FlagSteps p q := by
  have hnew : ∀ id, ¬ p.doc.curs id ≠ none → id ≠ 0 := by
    rintro id hid rfl
    refine hid ?_
    rw [← hp.own_id, doc_curs hp.distinct p.curs_own]
    exact Option.some_ne_none _
  cases op with
  | new id lid pos => exact bcursorNew (hnew id hlegal) hrun
  | copyOwn id =>
      simp only [Op.runPage, Page.bcursorCopyOwn] at hrun
      split at hrun
      · cases hrun
      · exact bcursorNew (hnew id hlegal) hrun
  | free id => exact bcursorFree hrun
  | move id dir =>
      obtain ⟨q', hmove, hq'⟩ := Except.map_eq_ok.mp hrun
      obtain ⟨rfl, rfl⟩ := Prod.mk.inj hq'
      exact bcursorMove hmove hp.roomy.down
  | insert id chr => exact bcursorInsert hrun
  | insertLine id =>
      obtain ⟨q', hline, hq'⟩ := Except.map_eq_ok.mp hrun
      obtain ⟨rfl, rfl⟩ := Prod.mk.inj hq'
      exact bcursorInsertLine hp hline
  | del id => exact bcursorDel hp hrun

end Page.FlagSteps

variable {op : Op} {res : Bres}

/-- A call keeps flags that are right, and the one that is wrong. -/
theorem HoldsSound.run_flags (h : HoldsSound b d) (hlegal : op.Legal fun id => d.curs id ≠ none)
    (hrun : op.run b = .ok (b', res)) : (b.Marked → b'.Marked) ∧ (b.Stale → b'.Stale) := by
  obtain ⟨p, hrep, hsound, rfl⟩ := h
  obtain ⟨q, hrep', hq⟩ := hrep.run_ok hsound.toGood hrun
  have hsteps := Page.FlagSteps.run hsound.toGood hlegal hq
  rw [hrep.marked_iff, hrep'.marked_iff, hrep.stale_iff, hrep'.stale_iff]
  exact ⟨hsteps.marked, hsteps.stale⟩

theorem HoldsSound.not_marked (h : HoldsSound b d) (hstale : b.Stale) : ¬ b.Marked := by
  obtain ⟨p, hrep, -⟩ := h
  rw [hrep.marked_iff]
  exact (hrep.stale_iff.mp hstale).not_marked

/-! ## Loading -/

/-- Buffer `b` holds some document and has the stale flag. -/
def HoldsStale (b : Buffer R) : Prop := (∃ d, HoldsSound b d) ∧ b.Stale

/-- A call whose result is not looked at. -/
theorem HoldsStale.run (h : HoldsStale b) (op : Op) (hlegal : ∀ used, op.Legal used) (hrun : Prod.fst <$> op.run b = .ok b') :
    HoldsStale b' := by
  obtain ⟨⟨d, hd⟩, hstale⟩ := h
  obtain ⟨⟨_, res⟩, hcall, rfl⟩ := Except.map_eq_ok.mp hrun
  obtain ⟨e, he, -⟩ := hd.run op (hlegal _) hcall
  exact ⟨⟨e, he⟩, (hd.run_flags (hlegal _) hcall).2 hstale⟩

theorem HoldsStale.loadByte (h : HoldsStale b) {chr : UInt8} (hrun : CoEditor.loadByte b chr = .ok b') :
    HoldsStale b' := by
  unfold CoEditor.loadByte at hrun
  split at hrun
  · exact h.run (.insertLine 0) (fun _ => trivial) hrun
  · exact h.run (.insert 0 chr) (fun _ => trivial) hrun

theorem Page.empty_stale (id width : Int) {n : Nat} (hn : 2 ≤ n) : (Page.empty (R := R) id width n).Stale := by
  have hlen : (Page.empty (R := R) id width n).rows.length = n := by simp [Page.empty, Page.emptyRows]
  refine ⟨?_, ?_⟩
  · rw [hlen]
    exact hn
  · rw [hlen, Page.flagAt]
    simp only [Page.empty]
    rw [Page.emptyRows_getElem? (by omega)]
    rfl

omit [Rope R] in
/-- The flags and the own line do not depend on the columns of the cursors. -/
theorem Buffer.Stale.setCurs (h : b.Stale) {ref : CursRef} {c d : Cursor} (hc : b.curs ref = .ok c)
    (hline : d.ownLine = c.ownLine) : (b.setCurs d ref).Stale := by
  cases ref with
  | peer i => exact h
  | own =>
      simp only [Buffer.curs, Buffer.own] at hc
      split at hc
      · next o ho =>
          obtain rfl := Except.ok.inj hc
          have hrow : (b.setCurs d .own).ownRow = b.ownRow := by
            simp only [Buffer.ownRow, Buffer.setCurs, ho, Option.map_some, hline]
            rfl
          unfold Buffer.Stale at *
          rw [hrow]
          exact h
      · cases hc

/-- The padding of a loaded buffer is marked as the line of the own cursor. -/
theorem bufferFromFile_stale {data : Bytes} {id width : Int} {n : Nat} (hn : 2 ≤ n) {ui : Bool}
    (hrun : bufferFromFile data id n width ui = .ok b) : b.Stale := by
  obtain ⟨b₀, hrun₀, hrun⟩ := Except.bind_eq_ok.mp hrun
  obtain ⟨b₁, hrun₁, hrun⟩ := Except.bind_eq_ok.mp hrun
  obtain ⟨b₂, hrun₂, hrun⟩ := Except.bind_eq_ok.mp hrun
  obtain ⟨found, -, hrun⟩ := Except.bind_eq_ok.mp hrun
  obtain ⟨c, -, hrun⟩ := Except.bind_eq_ok.mp hrun
  obtain ⟨cur, hcur, hrun⟩ := Except.bind_eq_ok.mp hrun
  have h₀ : HoldsStale b₀ := by
    obtain ⟨b', hempty, hrep⟩ := bufferEmpty_ok (R := R) id width hn
    obtain rfl := Except.ok.inj (hempty.symm.trans hrun₀)
    exact ⟨⟨_, _, hrep, (Page.empty_exact id width hn).sound, rfl⟩, hrep.stale_iff.mpr (Page.empty_stale id width hn)⟩
  have h₁ : HoldsStale b₁ := Except.foldlM_invariant (fun chr h hrun => h.loadByte hrun) data h₀ hrun₁
  have h₂ : HoldsStale b₂ := Except.foldlM_invariant (fun _ h hrun => h.run (.move 0 .up) (fun _ => trivial) hrun)
    (List.range (data.count 10)) h₁ hrun₂
  have h₃ : (b₂.setCurs { cur with pos := 0 } c).Stale := h₂.2.setCurs hcur rfl
  rw [← Except.ok.inj hrun]
  split <;> exact h₃

/-! ## Reloading -/

theorem Page.restore_length (p : Page R) (u : Bool) : (p.restore u).rows.length = p.rows.length := by
  simp [Page.restore, binit, unflagged, restoreRows_length]

/-- The flags are set right if the own cursor is below the first line. -/
theorem Page.restore_marked {u : Bool} (h0 : p.own.row ≠ 0) : (p.restore u).Marked := by
  intro k w hw
  rcases Nat.lt_or_ge k p.rows.length with hk | hk
  · obtain rfl := Option.some.inj ((p.restore_flagAt u hk).symm.trans hw)
    rw [p.restore_own u]
    unfold binitWhere relTo
    grind
  · rw [flagAt, List.getElem?_eq_none (by rw [p.restore_length u]; exact hk)] at hw
    cases hw

theorem Page.restore_stale {u : Bool} (h0 : p.own.row = 0) (hlen : 2 ≤ p.rows.length) : (p.restore u).Stale := by
  refine ⟨?_, ?_⟩
  · rw [p.restore_own u, p.restore_length u]
    omega
  · rw [p.restore_length u, p.restore_flagAt u (by omega), binitWhere, if_pos (.inr h0)]

theorem HoldsSound.reload_flags (h : HoldsSound b d) {s : Bytes} {u : Bool} (hs : bufferSerialize b = .ok s)
    (hrun : bufferDeserialize s u = .ok b') : (b.ownRow ≠ 0 → b'.Marked) ∧ (b.ownRow = 0 → b'.Stale) := by
  obtain ⟨p, hrep, hsound, rfl⟩ := h
  obtain ⟨s', b'', hs', hrun', hrep'⟩ := hrep.restore hsound.toGood (hsound.top_le_last hrep.bottom_lt)
    (hrep.fits hs) u
  obtain rfl := Except.ok.inj (hs.symm.trans hs')
  obtain rfl := Except.ok.inj (hrun.symm.trans hrun')
  have hlast := hsound.last_lt
  rw [hrep.ownRow, hrep'.marked_iff, hrep'.stale_iff]
  exact ⟨Page.restore_marked, fun h0 => Page.restore_stale h0 (by omega)⟩

/-! ## Sessions -/

/-- The buffers of height at least two that arise in a session, and whether the last snapshot that was read
    had its own cursor below the first line. -/
inductive Traced : Bool → Buffer R → Prop where
  | load {data : Bytes} {id height width : Int} {ui : Bool} {b : Buffer R} : 2 ≤ height →
      bufferFromFile data id height width ui = .ok b → Traced false b
  | reload {below : Bool} {b b' : Buffer R} {s : Bytes} {u : Bool} : Traced below b → bufferSerialize b = .ok s →
      bufferDeserialize s u = .ok b' → Traced (decide (b.ownRow ≠ 0)) b'
  | step {below : Bool} {b b' : Buffer R} {op : Op} {res : Bres} : Traced below b → op.Legal (HasCurs b) →
      op.run b = .ok (b', res) → Traced below b'

theorem Traced.reachable {below : Bool} (h : Traced below b) : Reachable b := by
  induction h with
  | load hh hrun => exact .load hh hrun
  | reload _ hs hrun ih => exact .reload ih hs hrun
  | step _ hlegal hrun ih => exact .step ih hlegal trivial hrun

theorem Reached.traced (h : Reachable b) : ∃ below, Traced below b := by
  induction h with
  | load hh hrun => exact ⟨_, .load hh hrun⟩
  | reload _ hs hrun ih =>
      obtain ⟨below, h⟩ := ih
      exact ⟨_, .reload h hs hrun⟩
  | step _ hlegal _ hrun ih =>
      obtain ⟨below, h⟩ := ih
      exact ⟨_, .step h hlegal hrun⟩

/-- The flags stay right or wrong as they were set. -/
theorem Traced.flags {below : Bool} (h : Traced below b) : if below then b.Marked else b.Stale := by
  induction h with
  | load hh hrun =>
      rename_i data id height width ui b
      obtain ⟨n, rfl⟩ : ∃ n : Nat, height = n := ⟨height.toNat, by omega⟩
      exact bufferFromFile_stale (by omega) hrun
  | reload h hs hrun _ =>
      obtain ⟨d, hd⟩ := h.reachable.sound
      obtain ⟨hmarked, hstale⟩ := hd.reload_flags hs hrun
      split
      · next hbelow => exact hmarked (of_decide_eq_true hbelow)
      · next hbelow => exact hstale (by simpa using hbelow)
  | step h hlegal hrun ih =>
      obtain ⟨d, hd⟩ := h.reachable.sound
      obtain ⟨hmarked, hstale⟩ := hd.run_flags ((Op.Legal.congr hd.hasCurs).mp hlegal) hrun
      split
      · next hbelow => exact hmarked (by simpa [hbelow] using ih)
      · next hbelow => exact hstale (by simpa [hbelow] using ih)

/-- The flags of a buffer are right exactly if it was last read from a snapshot whose own cursor was
    below the first line. -/
theorem flags_right {below : Bool} (h : Traced below b) : b.Marked ↔ below = true := by
  have hflags := h.flags
  obtain ⟨d, hd⟩ := h.reachable.sound
  constructor
  · intro hmarked
    by_contra hbelow
    rw [if_neg hbelow] at hflags
    exact hd.not_marked hflags hmarked
  · intro hbelow
    rwa [if_pos hbelow] at hflags

theorem flags_right_ab : ∃ b b' : Buffer ListRope, b.ownRow = 1 ∧ Traced (decide (b.ownRow ≠ 0)) b' ∧
    (b'.Marked ↔ decide (b.ownRow ≠ 0) = true) := by
  have htest : returns (bufferFromFile (R := ListRope) (bytes "ab\nc") 1 3 6 false)
      (fun b => returns (Op.run b (.move 0 .down)) fun x => decide (x.1.Fits ∧ x.1.ownRow = 1)) = true := by
    decide +kernel
  obtain ⟨b₀, hload, htest⟩ := exists_of_returns htest
  obtain ⟨⟨b, res⟩, hmove, htest⟩ := exists_of_returns htest
  obtain ⟨hfits, hrow⟩ := of_decide_eq_true htest
  have hlegal : (Op.move 0 .down).Legal (HasCurs b₀) := trivial
  have h : Traced false b := .step (.load (by decide) hload) hlegal hmove
  obtain ⟨-, s, b', -, -, hs, hrun, -⟩ := h.reachable.restored hfits true
  exact ⟨b, b', hrow, .reload h hs hrun, flags_right (.reload h hs hrun)⟩

/-- The lines after the own cursor's are marked as this one in the buffer of an empty file. -/
theorem loaded_flags_wrong : ∃ b : Buffer ListRope, bufferFromFile [] 1 3 6 false = .ok b ∧ Reachable b ∧
    b.ownRow = 0 ∧ b.flags = [.same, .same, .same] ∧ ¬ b.Marked := by
  have htest : returns (bufferFromFile (R := ListRope) [] 1 3 6 false)
      (fun b => decide (b.ownRow = 0 ∧ b.flags = [.same, .same, .same])) = true := by decide +kernel
  obtain ⟨b, hload, htest⟩ := exists_of_returns htest
  obtain ⟨hrow, hflags⟩ := of_decide_eq_true htest
  refine ⟨b, hload, .load (by decide) hload, hrow, hflags, fun hmarked => ?_⟩
  have hsame := hmarked 1 .same (by rw [hflags]; rfl)
  rw [hrow] at hsame
  cases hsame

end CoEditor
