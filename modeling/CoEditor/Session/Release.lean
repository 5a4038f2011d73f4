-- SUMMARY: Every line that was ever allocated is released: no edit loses one, and buffer_free takes all that are left.
import CoEditor.Session.Invariants
import CoEditor.Session.Received

/-!
# Release

A heap never hands out an address twice, so a line is lost when it is live and
not on the chain, and released twice when `line_free` follows a stale pointer.
Neither happens: `num_lines` counts the live lines exactly, and they are the
lines of the chain.
-/

namespace CoEditor

variable {R : Type}

/-- The live lines are those of the chain. -/
def NoneLost (b : Buffer R) : Prop := ∃ ps, Linked b.heap ps ∧ ps[0]? = some b.first ∧ b.heap.live.length = ps.length

namespace Linked

variable {h : Heap (Line R)} {ps ps' : List Ptr}

theorem subset_live (hL : Linked h ps) : ps ⊆ h.live := by
  intro q hq
  obtain ⟨i, hi⟩ := List.getElem?_of_mem hq
  exact Heap.mem_live.mpr (hL.live hi)

theorem length_le_live (hL : Linked h ps) : ps.length ≤ h.live.length := List.Nodup.length_le_of_subset hL.nodup hL.subset_live

/-- There is one list that starts at an address. -/
theorem unique (hL : Linked h ps) (hL' : Linked h ps') {q : Ptr} (hq : ps[0]? = some q) (hq' : ps'[0]? = some q) : ps = ps' := by
  have hchain := hL.chain (k := 0) (Nat.zero_add _)
  have hchain' := hL'.chain (k := 0) (Nat.zero_add _)
  rw [List.drop_zero, hq] at hchain
  rw [List.drop_zero, hq'] at hchain'
  exact hchain.walk.unique hchain'.walk

end Linked

/-! ## Releasing a chain -/

/-- The first line of a chain is released, and the others are a chain. -/
theorem Linked.lineFree {b : Buffer R} {q : Ptr} {ps : List Ptr} (hL : Linked b.heap (q :: ps)) :
    ∃ l heap, b.line q = .ok l ∧ l.next = ps[0]? ∧ lineFree b q = .ok { b with heap } ∧ Linked heap ps := by
  obtain ⟨l, hl, hlinks⟩ := hL.cell 0 q rfl
  obtain ⟨hprev, hnext⟩ : l.prev = none ∧ l.next = ps[0]? := by simpa using hlinks
  have hline : b.line q = .ok l := by rw [Buffer.line, hl]
  cases ps with
  | nil =>
      refine ⟨l, b.heap.free q, hline, hnext, ?_, ⟨List.nodup_nil, fun i p hi => by simp at hi⟩⟩
      rw [CoEditor.lineFree, hline, Except.ok_bind_eq, hprev, hnext]
      rfl
  | cons p ps =>
      obtain ⟨m, hm, -, hmnext⟩ := hL.cell 1 p rfl
      have hpq : p ≠ q := fun h => (List.nodup_cons.mp hL.nodup).1 (h ▸ List.mem_cons_self ..)
      have hmline : b.line p = .ok m := by rw [Buffer.line, hm]
      refine ⟨l, (b.heap.set p { m with prev := none }).free q, hline, hnext, ?_, ?_⟩
      · rw [CoEditor.lineFree, hline, Except.ok_bind_eq, hprev, hnext]
        simp [Buffer.modifyLineIf, Buffer.modifyLine, hmline]
      · refine hL.erase (k := 0) (Nat.succ_pos _) fun i r x hi hr hx => ?_
        have hrq : r ≠ q := fun h => hi (hL.index_inj (h ▸ hr) rfl)
        rw [Heap.get?_free_ne hrq, Heap.get?_set hm]
        by_cases hrp : r = p
        · obtain rfl : i = 1 := hL.index_inj (hrp ▸ hr) rfl
          obtain rfl := Option.some.inj ((hrp ▸ hx).symm.trans hm)
          exact ⟨_, if_pos hrp, rfl, rfl⟩
        · have hi1 : i ≠ 1 := fun h => hrp (Option.some.inj ((h ▸ hr).symm.trans rfl))
          exact ⟨x, (if_neg hrp).trans hx, (if_neg hi1).symm, by simp⟩

/-- The loop releases all lines of a chain, and no others. -/
theorem freeLines_linked {ps : List Ptr} : ∀ {b : Buffer R} {n : Nat}, Linked b.heap ps → ps.length ≤ n →
    ∃ heap, freeLines b n ps[0]? = .ok { b with heap } ∧ heap.live.length + ps.length = b.heap.live.length := by
  induction ps with
  | nil => exact fun {b n} _ _ => ⟨b.heap, by cases n <;> rfl, Nat.add_zero _⟩
  | cons q ps ih =>
      intro b n hL hn
      obtain ⟨n, rfl⟩ : ∃ m, n = m + 1 := ⟨n - 1, by rw [List.length_cons] at hn; omega⟩
      obtain ⟨l, heap, hline, hnext, hfree, hL'⟩ := hL.lineFree
      obtain ⟨heap', hrun, hcount⟩ := ih (b := { b with heap }) (n := n) hL' (Nat.le_of_succ_le_succ hn)
      have hone : heap.live.length + 1 = b.heap.live.length := by
        have hstray := congrArg Prod.snd (lineFree_ledger b q _ hfree)
        simp only [Buffer.ledger, Buffer.stray] at hstray
        omega
      refine ⟨heap', ?_, by rw [List.length_cons, ← hone, ← hcount]; omega⟩
      simp only [freeLines, List.getElem?_cons_zero, hline, hfree, hnext, Except.ok_bind_eq]
      exact hrun

theorem NoneLost.bufferFree {b : Buffer R} (h : NoneLost b) (hu : b.u ≠ .unset) {c : Cursor} (hown : b.ownCurs = some c) :
    ∃ heap, bufferFree b = .ok heap ∧ ∀ p, heap.get? p = none := by
  obtain ⟨ps, hL, hfirst, hcount⟩ := h
  have hroom : ps.length ≤ b.heap.cells.length := by
    rw [← hcount]
    exact b.heap.length_live_le
  obtain ⟨heap, hrun, hleft⟩ := freeLines_linked hL hroom
  rw [hfirst] at hrun
  refine ⟨heap, ?_, fun p => ?_⟩
  · simp only [CoEditor.bufferFree, if_neg hu, Buffer.own, hown, hrun, Except.ok_bind_eq]
    rfl
  · have hnone : heap.live = [] := List.length_eq_zero_iff.mp (by omega)
    by_contra hp
    obtain ⟨l, hl⟩ := Option.ne_none_iff_exists'.mp hp
    exact absurd (Heap.mem_live.mpr ⟨l, hl⟩) (by rw [hnone]; exact List.not_mem_nil)

/-- No live line is off the chain. -/
theorem NoneLost.exists_chain {b : Buffer R} (h : NoneLost b) :
    ∃ ps, Linked b.heap ps ∧ ps[0]? = some b.first ∧ ∀ p l, b.heap.get? p = some l → p ∈ ps := by
  obtain ⟨ps, hL, hfirst, hcount⟩ := h
  exact ⟨ps, hL, hfirst, fun p l hp =>
    Heap.mem_of_live hL.nodup (fun q hq => Heap.mem_live.mp (hL.subset_live hq)) (Nat.le_of_eq hcount) hp⟩

/-! ## Buffers that are read -/

variable [Rope R]

/-- The cursors and the flags need no memory. -/
theorem Stage.rest_noneLost {o : JsonObject} {b b' : Buffer R} {ids shown : List Int} (h : Stage o b ids shown) (hne : ids ≠ []) {u : Bool}
    (hrun : Stage.rest o u b = .ok b') : NoneLost b' ∧ b'.u ≠ .unset ∧ ∃ c, b'.ownCurs = some c := by
  obtain ⟨b₁, hb₁, hrun⟩ := Except.bind_eq_ok.mp hrun
  obtain ⟨b₂, hb₂, hrun⟩ := Except.bind_eq_ok.mp hrun
  obtain ⟨b₃, hb₃, hrun⟩ := Except.bind_eq_ok.mp hrun
  obtain ⟨h₂, -, hown⟩ := h.readCursors.2 b₁ b₂ hb₁ hb₂
  obtain ⟨heap, hbinit, hlinked, -⟩ := h₂.binitOnscreenInfo hne hown
  obtain rfl := Except.ok.inj (hb₃.symm.trans hbinit)
  have hcount : heap.live.length = b₂.heap.live.length := by
    have hstray := congrArg Prod.snd ((binitOnscreenInfo_quiet b₂).keeps _ hbinit)
    simp only [Buffer.ledger, Buffer.stray] at hstray
    omega
  have hle : heap.live.length ≤ ids.length := by
    obtain ⟨rows, -, -, -, hcells, -⟩ := h₂.strung
    rw [hcount, ← hcells]
    exact b₂.heap.length_live_le
  have hge := hlinked.length_le_live
  rw [List.length_range] at hge
  have hnone : NoneLost { b₂ with heap } := by
    refine ⟨_, hlinked, ?_, by rw [List.length_range]; exact Nat.le_antisymm hle hge⟩
    rw [List.getElem?_range (List.length_pos_iff.mpr hne)]
    exact congrArg some h₂.first.symm
  rw [← Except.ok.inj hrun]
  cases u with
  | true => exact ⟨hnone, UiPtr.noConfusion, Option.isSome_iff_exists.mp hown⟩
  | false => exact ⟨hnone, UiPtr.noConfusion, Option.isSome_iff_exists.mp hown⟩

/-- Whatever text a buffer is read from, all lines that were allocated are on its chain. -/
theorem bufferDeserialize_noneLost {s : Bytes} {u : Bool} {b : Buffer R} (h : bufferDeserialize s u = .ok b) :
    NoneLost b ∧ b.u ≠ .unset ∧ ∃ c, b.ownCurs = some c := by
  unfold bufferDeserialize readBuffer at h
  dsimp only at h
  generalize jsonValueGetObject (jsonParseString s) = o at h
  obtain ⟨r, hchain, h⟩ := Except.bind_eq_ok.mp h
  obtain ⟨ids, hlines⟩ := linesOf_of_readChain hchain
  have hne : ids ≠ [] := by
    obtain ⟨⟨rest, rfl, -⟩, -⟩ := hlines
    exact List.cons_ne_nil _ _
  obtain ⟨heap, hread, hs⟩ := Strung.readChain (b := readAttrs (R := R) o) rfl hlines
  obtain rfl := Except.ok.inj (hchain.symm.trans hread)
  obtain ⟨b₁, hmarks, h⟩ := Except.bind_eq_ok.mp h
  have hstage : Stage o b₁ ids (shownOf o ids) := by
    have hread := hs.readMarks (o := o) (b := { readAttrs (R := R) o with heap, first := 0 }) rfl hne
    rw [← Except.ok.inj (hread.symm.trans hmarks)]
    exact ⟨hs, rfl, downTo_start _ _, rfl, fun c hc => by simp [readAttrs] at hc, fun c hc => by simp [readAttrs] at hc⟩
  exact hstage.rest_noneLost hne h

/-! ## Reachable buffers -/

/-- A reachable buffer has lost no line exactly if `num_lines` counts all live ones. -/
theorem Reached.noneLost_iff {ok : Buffer R → Op → Prop} {b : Buffer R} (hb : Reached ok b) : NoneLost b ↔ b.stray = 0 := by
  obtain ⟨d, p, hrep, hsound, -⟩ := hb.sound
  have hlist := hrep.lineList hsound.toGood
  rw [Buffer.stray, hlist.numLines]
  constructor
  · rintro ⟨ps, hL, hfirst, hcount⟩
    obtain rfl := hL.unique hlist.linked hfirst hlist.first
    omega
  · intro hstray
    exact ⟨p.ptrs, hlist.linked, hlist.first, by omega⟩

/-- `num_lines` counts the live lines of a reachable buffer, and `u` is set. -/
theorem Reached.accounted {ok : Buffer R → Op → Prop} {b : Buffer R} (hb : Reached ok b) : b.stray = 0 ∧ b.u ≠ .unset := by
  induction hb with
  | load hh hrun =>
      rename_i data id height width ui b
      have hledger := bufferFromFile_ledger data id height width ui b hrun
      refine ⟨(congrArg Prod.snd hledger).trans (by omega), ?_⟩
      have hu : b.u = if ui then .ui else .null := congrArg (fun t => t.1.2.1) hledger
      rw [hu]
      cases ui <;> exact UiPtr.noConfusion
  | reload hb hs hrun ih =>
      obtain ⟨hnone, hu, -⟩ := bufferDeserialize_noneLost hrun
      exact ⟨(Reached.reload hb hs hrun).noneLost_iff.mp hnone, hu⟩
  | step _ _ _ hrun ih =>
      have hledger := Op.run_keeps _ _ _ hrun
      exact ⟨(congrArg Prod.snd hledger).trans ih.1, fun hu => ih.2 ((congrArg (fun t => t.1.2.1) hledger).symm.trans hu)⟩

theorem Reached.own {ok : Buffer R → Op → Prop} {b : Buffer R} (hb : Reached ok b) : ∃ c, b.ownCurs = some c := by
  obtain ⟨d, p, hrep, hsound, -⟩ := hb.sound
  obtain ⟨r, hr⟩ := Page.exists_row (hrep.curs_lt .own p.own rfl)
  exact ⟨_, hrep.own.trans (Page.cursor_of_row hr)⟩

/-- No edit loses a line or releases one twice, and `buffer_free` gives back the rest. In every reachable buffer, and in every
    one that any text is read into, the live lines are those of the chain, and `buffer_free` returns and leaves none. -/
theorem lines_released {b : Buffer R} (hb : Reachable b ∨ ∃ s u, bufferDeserialize s u = .ok b) :
    (∃ ps, Linked b.heap ps ∧ ps[0]? = some b.first ∧ ∀ p l, b.heap.get? p = some l → p ∈ ps) ∧
      ∃ heap, bufferFree b = .ok heap ∧ ∀ p, heap.get? p = none := by
  obtain ⟨hnone, hu, c, hown⟩ : NoneLost b ∧ b.u ≠ .unset ∧ ∃ c, b.ownCurs = some c := by
    rcases hb with hb | ⟨s, u, hrun⟩
    · exact ⟨hb.noneLost_iff.mpr hb.accounted.1, hb.accounted.2, hb.own⟩
    · exact bufferDeserialize_noneLost hrun
  exact ⟨hnone.exists_chain, hnone.bufferFree hu hown⟩

/-- Of six lines one has gone with an edit, and the other five go with the buffer. -/
theorem lines_released_ab : ∃ b : Buffer ListRope, Reachable b ∧ b.heap.cells.length = 6 ∧ b.heap.live.length = 5 ∧
    (∃ ps, Linked b.heap ps ∧ ps[0]? = some b.first ∧ ∀ p l, b.heap.get? p = some l → p ∈ ps) ∧
      ∃ heap, bufferFree b = .ok heap ∧ ∀ p, heap.get? p = none := by
  have htest : returns (bufferFromFile (R := ListRope) (bytes "ab\nc") 1 4 6 true) (fun b =>
      (replay b [.insertLine 0, .del 0]).any fun b =>
        decide (b.heap.cells.length = 6 ∧ b.heap.live.length = 5)) = true := by decide +kernel
  obtain ⟨b₀, hb₀, htest⟩ := exists_of_returns htest
  obtain ⟨b, hb, hP⟩ := (Option.any_eq_true _ _).mp htest
  obtain ⟨hcells, hlive⟩ := of_decide_eq_true hP
  have hreach : Reachable b := Reached.replay (.load (by decide) hb₀) hb
  exact ⟨b, hreach, hcells, hlive, lines_released (.inl hreach)⟩

end CoEditor
