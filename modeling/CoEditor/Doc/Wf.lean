-- SUMMARY: The line-list invariant of a document and its preservation by every operation.
import CoEditor.Doc.Defs

/-!
# Well-formed documents

The counters agree with the lines, the ids are fresh and different, exactly
`height - 1` lines follow `last` and they are empty, and no cursor is below
`last`. Columns are not restricted.
-/

namespace CoEditor

variable {R : Type}

namespace Doc

@[simp] theorem mapCurs_curs (d : Doc R) (f : Int → Place → Place) (i : Int) :
    (d.mapCurs f).curs i = (d.curs i).map (f i) := rfl

/-- Only the places where cursors are matter. -/
theorem mapCurs_congr {d : Doc R} {f g : Int → Place → Place}
    (hfg : ∀ i x, d.curs i = some x → f i x = g i x) : d.mapCurs f = d.mapCurs g := by
  simp only [mapCurs, Doc.mk.injEq, true_and]
  funext i
  cases hx : d.curs i with
  | none => rfl
  | some x => exact congrArg some (hfg i x hx)

theorem mapCurs_mapCurs (d : Doc R) (f g : Int → Place → Place) :
    (d.mapCurs f).mapCurs g = d.mapCurs fun i x => g i (f i x) := by
  simp [mapCurs, Function.comp_def]

/-- To put an existing cursor somewhere is to move it there. -/
theorem put_eq_mapCurs {d : Doc R} {id : Int} {y : Place} (hy : d.curs id = some y) (x : Place) :
    d.put id x = d.mapCurs fun i z => if i = id then x else z := by
  simp only [put, mapCurs, Doc.mk.injEq, true_and]
  funext i
  by_cases hi : i = id
  · simp [hi, hy]
  · simp [hi]

@[simp] theorem modifyStr_length (d : Doc R) (k : Nat) (f : R → R) :
    (d.modifyStr k f).lines.length = d.lines.length := by simp [modifyStr]

theorem modifyStr_ids (d : Doc R) (k : Nat) (f : R → R) :
    (d.modifyStr k f).lines.map Prod.fst = d.lines.map Prod.fst := by
  apply List.ext_getElem?
  intro i
  simp only [modifyStr, List.getElem?_map, List.getElem?_modify]
  cases d.lines[i]? with
  | none => rfl
  | some l => by_cases hk : k = i <;> simp [hk]

theorem modifyStr_getElem?_ne (d : Doc R) {k j : Nat} (hkj : k ≠ j) (f : R → R) :
    (d.modifyStr k f).lines[j]? = d.lines[j]? := by
  simp [modifyStr, hkj]

end Doc

variable [Rope R]

structure Doc.Wf (d : Doc R) : Prop where
  height : 2 ≤ d.height
  numLines : d.numLines = d.lines.length
  last : d.last + d.height = d.lines.length
  nodup : (d.lines.map Prod.fst).Nodup
  ids : ∀ l ∈ d.lines, 0 ≤ l.1 ∧ l.1 < d.lineIdCnt
  blank : ∀ k l, d.last < k → d.lines[k]? = some l → Rope.chars l.2 = []
  curs_le : ∀ i x, d.curs i = some x → x.row ≤ d.last

namespace Doc

theorem step_row_le {d : Doc R} {x : Place} (hx : x.row ≤ d.last) (dir : CmoveDir) :
    (d.step x dir).row ≤ d.last := by
  cases dir <;> simp only [step] <;> grind

theorem newBelow_last {d : Doc R} {k : Nat} (hk : k ≤ d.last) : (d.newBelow k).last = d.last + 1 := by
  unfold newBelow
  split
  · next hlast => simp [hlast]
  · next hlast =>
      simp only [newLine]
      grind [bump]

/-! ## The height -/

theorem insert_height (d : Doc R) (id : Int) (chr : UInt8) : (d.insert id chr).height = d.height := by
  unfold insert
  split
  · rfl
  · split <;> rfl

theorem newBelow_height (d : Doc R) (k : Nat) : (d.newBelow k).height = d.height := by
  unfold newBelow
  split <;> rfl

theorem insertLine_height (d : Doc R) (id : Int) : (d.insertLine id).height = d.height := by
  unfold insertLine
  split
  · rfl
  · split
    · rfl
    · unfold insertBelow
      dsimp only
      split <;> exact newBelow_height _ _

theorem joinText_eq (d : Doc R) (k : Nat) : ∃ f, d.joinText k = d.modifyStr k f := by
  unfold joinText
  dsimp only
  split
  · exact ⟨_, rfl⟩
  · refine ⟨id, ?_⟩
    show d = { d with lines := d.lines.modify k id }
    rw [List.modify_id]

theorem joinText_height (d : Doc R) (k : Nat) : (d.joinText k).height = d.height := by
  obtain ⟨f, hf⟩ := d.joinText_eq k
  rw [hf]
  rfl

omit [Rope R] in
theorem raiseLast_height (d : Doc R) (k : Nat) : (d.raiseLast k).height = d.height := by
  unfold raiseLast
  split <;> rfl

theorem del_height (d : Doc R) (id : Int) : (d.del id).height = d.height := by
  unfold del
  split
  · rfl
  · split
    · rfl
    · split
      · rfl
      · exact (joinText_height _ _).trans (raiseLast_height _ _)

namespace Wf

variable {d : Doc R}

theorem last_lt (h : Wf d) : d.last + 1 < d.lines.length := by
  have := h.height
  have := h.last
  omega

/-- A line is found under its id only. -/
theorem hasLine_inj (h : Wf d) {lid : Int} {j k : Nat} (hj : d.HasLine lid j) (hk : d.HasLine lid k) : j = k := by
  have hlt := h.last_lt
  have hle := hj.1
  rw [← List.getElem?_inj (i := j) (j := k) (by simp; omega) h.nodup]
  rw [List.getElem?_map, List.getElem?_map, hj.2, hk.2]

/-- The invariant survives when cursors move within the lines up to `last`. -/
theorem mapCurs (h : Wf d) {f : Int → Place → Place}
    (hf : ∀ i x, d.curs i = some x → (f i x).row ≤ d.last) : Wf (d.mapCurs f) :=
  { h with
    curs_le := by
      intro i x hx
      obtain ⟨y, hy, rfl⟩ := Option.map_eq_some_iff.mp hx
      exact hf i y hy }

theorem put (h : Wf d) (id : Int) {x : Place} (hx : x.row ≤ d.last) : Wf (d.put id x) :=
  { h with
    curs_le := by
      intro i y hy
      simp only [Doc.put] at hy
      split at hy
      · cases hy
        exact hx
      · exact h.curs_le i y hy }

theorem drop (h : Wf d) (id : Int) : Wf (d.drop id) :=
  { h with
    curs_le := by
      intro i y hy
      simp only [Doc.drop] at hy
      split at hy
      · cases hy
      · exact h.curs_le i y hy }

theorem move (h : Wf d) (id : Int) (dir : CmoveDir) : Wf (d.move id dir) := by
  refine h.mapCurs fun i x hx => ?_
  split
  · exact step_row_le (h.curs_le i x hx) dir
  · exact h.curs_le i x hx

/-- Texts may change in the lines up to `last`. -/
theorem modifyStr (h : Wf d) {k : Nat} (hk : k ≤ d.last) (f : R → R) : Wf (d.modifyStr k f) :=
  { h with
    numLines := by rw [modifyStr_length]; exact h.numLines
    last := by rw [modifyStr_length]; exact h.last
    nodup := by rw [modifyStr_ids]; exact h.nodup
    ids := by
      intro l hl
      have hmem : l.1 ∈ (d.modifyStr k f).lines.map Prod.fst := List.mem_map_of_mem hl
      rw [modifyStr_ids] at hmem
      obtain ⟨m, hm, hml⟩ := List.mem_map.mp hmem
      rw [← hml]
      exact h.ids m hm
    blank := by
      intro j l hj hl
      have hjk : k ≠ j := fun e => absurd (e ▸ hk) (Nat.not_le_of_lt hj)
      rw [modifyStr_getElem?_ne d hjk] at hl
      exact h.blank j l hj hl }

theorem shift (h : Wf d) (id : Int) {cur : Place} (hcur : cur.row ≤ d.last) (n : Int) :
    Wf (d.shift id cur n) := by
  refine h.mapCurs fun i x hx => ?_
  split
  · exact hcur
  · split
    · exact h.curs_le i x hx
    · exact h.curs_le i x hx

theorem insert (h : Wf d) (id : Int) (chr : UInt8) : Wf (d.insert id chr) := by
  unfold Doc.insert
  split
  · exact h
  · next cur hcur =>
      have hle := h.curs_le id cur hcur
      split
      · exact h
      · exact (h.modifyStr hle _).shift id hle 1

/-! ## A new line -/

/-- Right below `last` or above, a new line makes room for one more line up to `last`. -/
theorem newLine (h : Wf d) {k : Nat} (hk : k ≤ d.last + 1) :
    Wf { (d.recount 1).newLine k with last := d.last + 1 } := by
  have hlast := h.last_lt
  have hk' : k ≤ d.lines.length := by omega
  have hlen : (d.lines.insertIdx k (d.lineIdCnt, Rope.new)).length = d.lines.length + 1 :=
    List.length_insertIdx_of_le_length hk' _
  have hcnt : 0 ≤ d.lineIdCnt := by
    obtain ⟨l, hl⟩ := List.exists_mem_of_ne_nil _ (List.ne_nil_of_length_pos (l := d.lines) (by omega))
    have := h.ids l hl
    omega
  exact
    { height := h.height
      numLines := by simp only [Doc.newLine, Doc.recount, hlen, h.numLines]; omega
      last := by
        have := h.last
        simp only [Doc.newLine, Doc.recount, hlen]
        omega
      nodup := by
        simp only [Doc.newLine, Doc.recount, List.map_insertIdx]
        rw [(List.perm_insertIdx _ _ (by simpa using hk')).nodup_iff, List.nodup_cons]
        refine ⟨fun hmem => ?_, h.nodup⟩
        obtain ⟨l, hl, hid⟩ := List.mem_map.mp hmem
        have := (h.ids l hl).2
        omega
      ids := by
        intro l hl
        rcases (List.mem_insertIdx hk').mp hl with rfl | hl
        · exact ⟨hcnt, Int.lt_succ _⟩
        · have := h.ids l hl
          exact ⟨this.1, Int.lt_trans this.2 (Int.lt_succ _)⟩
      blank := by
        intro j l hj hl
        simp only [Doc.newLine, Doc.recount] at hj hl
        rw [List.getElem?_insertIdx_of_gt (by omega)] at hl
        exact h.blank (j - 1) l (by omega) hl
      curs_le := by
        intro i x hx
        obtain ⟨y, hy, rfl⟩ := Option.map_eq_some_iff.mp hx
        have := h.curs_le i y hy
        simp only
        grind [bump] }

/-- A line put in above the cursor. -/
theorem newAbove (h : Wf d) {k : Nat} (hk : k ≤ d.last) :
    Wf ((d.recount 1).newLine k) := by
  have hnew := h.newLine (Nat.le_succ_of_le hk)
  have hbump : bump k d.last = d.last + 1 := by simp [bump, hk]
  rwa [← hbump] at hnew

/-- A line put in below the cursor. -/
theorem newBelow (h : Wf d) {k : Nat} (hk : k ≤ d.last) :
    Wf ((d.recount 1).newBelow k) := by
  have hnew := h.newLine (Nat.succ_le_succ hk)
  unfold Doc.newBelow
  split
  · next hlast =>
      have hlast : k = d.last := hlast
      rwa [← hlast] at hnew
  · next hlast =>
      have hlast : ¬ k = d.last := hlast
      have hbump : bump (k + 1) d.last = d.last + 1 := by grind [bump]
      rwa [← hbump] at hnew

theorem homeUp (h : Wf d) : Wf d.homeUp := by
  refine h.mapCurs fun i x hx => ?_
  split
  · exact step_row_le (h.curs_le i x hx) .up
  · exact h.curs_le i x hx

theorem splitText (h : Wf d) {k : Nat} (hk : k + 1 ≤ d.last) (pos : Int) : Wf (d.splitText k pos) := by
  unfold Doc.splitText
  exact (h.modifyStr (Nat.le_of_succ_le hk) _).modifyStr hk _

theorem splitCurs (h : Wf d) (id : Int) (cur : Place) : Wf (d.splitCurs id cur) := by
  refine h.mapCurs fun i x hx => ?_
  split
  · exact step_row_le (x := { x with pos := x.pos - cur.pos }) (h.curs_le i x hx) .down
  · exact h.curs_le i x hx

theorem insertBelow (h : Wf d) (id : Int) {cur : Place} (hcur : cur.row ≤ d.last) :
    Wf ((d.recount 1).insertBelow id cur) := by
  have hnew := h.newBelow hcur
  have hlast : ((d.recount 1).newBelow cur.row).last = d.last + 1 :=
    newBelow_last hcur
  have hto : ∀ e : Doc R, Wf e → e.last = d.last + 1 →
      Wf (e.mapCurs fun i x => if i = id then ⟨cur.row + 1, 0⟩ else x) := by
    intro e he hlast
    refine he.mapCurs fun i x hx => ?_
    split
    · show cur.row + 1 ≤ e.last
      omega
    · exact he.curs_le i x hx
  unfold Doc.insertBelow
  split
  · exact hto _ ((hnew.splitText (by omega) cur.pos).splitCurs id cur) hlast
  · exact hto _ hnew hlast

theorem insertLine (h : Wf d) (id : Int) : Wf (d.insertLine id) := by
  unfold Doc.insertLine
  split
  · exact h
  · next cur hcur =>
      have hle := h.curs_le id cur hcur
      split
      · exact (h.newAbove hle).homeUp
      · exact h.insertBelow id hle

/-! ## Deleting -/

theorem delChar (h : Wf d) (id : Int) {cur : Place} (hcur : cur.row ≤ d.last) :
    Wf (d.delChar id cur) := (h.modifyStr hcur _).shift id hcur (-1)

/-- A line up to `last` goes, and every cursor on it has gone before. -/
theorem eraseLine (h : Wf d) {e : Doc R} {k : Nat} (hk : k ≤ d.last) (hheight : e.height = d.height)
    (hnum : e.numLines = d.numLines + -1) (hcnt : e.lineIdCnt = d.lineIdCnt) (hlines : e.lines = d.lines)
    (hlast : unbump k e.last + 1 = d.last)
    (hcurs : ∀ i x, e.curs i = some x → unbump k x.row < d.last) : Wf (e.eraseLine k) := by
  have hlt := h.last_lt
  have hlen : (d.lines.eraseIdx k).length = d.lines.length - 1 := List.length_eraseIdx_of_lt (by omega)
  exact
    { height := by rw [Doc.eraseLine, hheight]; exact h.height
      numLines := by
        have := h.numLines
        simp only [Doc.eraseLine, hlines, hlen, hnum]
        omega
      last := by
        have := h.last
        simp only [Doc.eraseLine, hlines, hlen, hheight]
        omega
      nodup := by
        rw [Doc.eraseLine, hlines]
        exact h.nodup.sublist ((List.eraseIdx_sublist d.lines k).map Prod.fst)
      ids := by
        intro l hl
        simp only [Doc.eraseLine, hlines, hcnt] at hl ⊢
        exact h.ids l (List.mem_of_mem_eraseIdx hl)
      blank := by
        intro j l hj hl
        simp only [Doc.eraseLine, hlines] at hj hl
        rw [List.getElem?_eraseIdx_of_ge (by omega)] at hl
        exact h.blank (j + 1) l (by omega) hl
      curs_le := by
        intro i x hx
        obtain ⟨y, hy, rfl⟩ := Option.map_eq_some_iff.mp hx
        have := hcurs i y hy
        simp only [Doc.eraseLine]
        omega }

theorem join (h : Wf d) (id : Int) {k : Nat} (hk : k + 1 ≤ d.last) : Wf (d.join id k) := by
  have hto : ∀ (e : Doc R), e.height = d.height → e.numLines = d.numLines + -1 →
      e.lineIdCnt = d.lineIdCnt → e.lines = d.lines → unbump (k + 1) e.last + 1 = d.last →
      e.curs = (d.put id ⟨k, d.len k⟩).curs →
      Wf (((e.joinText k).joinCurs id k (d.len k)).eraseLine (k + 1)) := by
    intro e hheight hnum hcnt hlines hlast hcurs
    obtain ⟨f, hf⟩ := e.joinText_eq k
    rw [hf]
    refine (h.modifyStr (k := k) (by omega) f).eraseLine hk hheight hnum hcnt ?_ hlast ?_
    · show (e.lines.modify k _) = _
      rw [hlines]
      rfl
    · intro i x hx
      obtain ⟨y, hy, rfl⟩ := Option.map_eq_some_iff.mp hx
      have hy : (d.put id ⟨k, d.len k⟩).curs i = some y := hcurs ▸ hy
      show unbump (k + 1) _ < d.last
      simp only [Doc.put] at hy
      split at hy
      · next hi =>
          cases hy
          simp only [hi, ne_eq, not_true, false_and, if_false]
          grind [unbump]
      · next hi =>
          have := h.curs_le i y hy
          simp only [step]
          grind [unbump]
  simp only [Doc.join, raiseLast]
  split
  · next hlast =>
      have hlast : k + 1 = d.last := hlast
      refine hto _ rfl rfl rfl rfl ?_ rfl
      show unbump (k + 1) k + 1 = d.last
      grind [unbump]
  · next hlast =>
      have hlast : ¬ k + 1 = d.last := hlast
      refine hto _ rfl rfl rfl rfl ?_ rfl
      show unbump (k + 1) d.last + 1 = d.last
      grind [unbump]

theorem del (h : Wf d) (id : Int) : Wf (d.del id) := by
  unfold Doc.del
  split
  · exact h
  · next cur hcur =>
      have hle := h.curs_le id cur hcur
      split
      · exact h.delChar id hle
      · split
        · exact h
        · exact h.join id (by omega)

end Wf

end Doc

end CoEditor
