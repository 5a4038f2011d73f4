-- SUMMARY: Building a chain line by line, and setting its flags from scratch with binit_onscreen_info.
import CoEditor.Page.Sim
import CoEditor.Buffer.File

/-!
# Building buffers

While a buffer is being built its flags mean nothing yet: `Chained` describes
the chain without them. `binit_onscreen_info` then sets all flags in one walk
along the chain.
-/

namespace CoEditor

variable {R : Type}

/-! ## Chains -/

/-- Assigning to a line allocates nothing. -/
theorem Buffer.modifyLineIf_length {b b' : Buffer R} {f : Line R → Line R} {o : Option Ptr}
    (h : b.modifyLineIf f o = .ok b') : b'.heap.cells.length = b.heap.cells.length := by
  cases o with
  | none => rw [← Except.ok.inj h]
  | some p =>
      obtain ⟨l, -, h⟩ := Except.bind_eq_ok.mp h
      rw [← Except.ok.inj h]
      simp [Heap.set]

namespace Chained

variable {h : Heap (Line R)} {rows : List (Row R)}

theorem nil : Chained (R := R) .empty [] where
  linked := ⟨List.nodup_nil, by simp⟩
  cell := by simp

theorem ptr_lt (hc : Chained h rows) {i : Nat} {r : Row R} (hr : rows[i]? = some r) :
    r.ptr < h.cells.length := by
  obtain ⟨l, hl, -⟩ := hc.cell i r hr
  exact Heap.lt_of_get? hl

/-- Writing the text or the flags of a line leaves the chain as it is. -/
theorem set (hc : Chained h rows) {k : Nat} {r : Row R} (hr : rows[k]? = some r) {l l' : Line R}
    (hl : h.get? r.ptr = some l) (hid : l'.id = l.id) (hprev : l'.prev = l.prev)
    (hnext : l'.next = l.next) :
    Chained (h.set r.ptr l') (rows.set k { r with str := l'.str }) := by
  have hptrs : (rows.set k { r with str := l'.str }).map Row.ptr = rows.map Row.ptr := by
    apply List.ext_getElem?
    intro i
    simp only [List.getElem?_map, List.getElem?_set]
    split
    · next hik => subst hik; split <;> simp_all
    · rfl
  have hidr : l.id = r.id := by
    obtain ⟨m, hm, hmid, -⟩ := hc.cell k r hr
    rw [← hmid, Option.some.inj (hm.symm.trans hl)]
  refine ⟨?_, ?_⟩
  · rw [hptrs]
    refine hc.linked.congr fun q hq x hx => ?_
    by_cases hqr : q = r.ptr
    · subst hqr
      obtain rfl : l = x := Option.some.inj (hl.symm.trans hx)
      exact ⟨l', Heap.get?_set_self hl, hprev, hnext⟩
    · exact ⟨x, by rw [Heap.get?_set_ne hqr, hx], rfl, rfl⟩
  · intro i s hs
    by_cases hik : k = i
    · subst hik
      rw [List.getElem?_set_self (List.getElem?_eq_some_iff.mp hr).1] at hs
      cases hs
      exact ⟨l', Heap.get?_set_self hl, hid.trans hidr, rfl⟩
    · rw [List.getElem?_set_ne hik] at hs
      have hne : s.ptr ≠ r.ptr := by
        intro e
        refine hik (hc.linked.index_inj (p := r.ptr) ?_ ?_)
        · simp [hr]
        · simp [hs, e]
      obtain ⟨m, hm, hmid, hmstr⟩ := hc.cell i s hs
      exact ⟨m, by rw [Heap.get?_set_ne hne, hm], hmid, hmstr⟩

/-- `line_new` behind the last line of the chain. -/
theorem lineNew [Rope R] {b : Buffer R} (hc : Chained b.heap rows) (id : Int) (where_ : Crp) :
    ∃ heap, CoEditor.lineNew b id (prevAt (rows.map Row.ptr) rows.length) none =
        .ok ({ b with heap }, b.heap.cells.length) ∧
      Chained heap (rows ++ [⟨b.heap.cells.length, id, Rope.new, where_⟩]) ∧
      heap.cells.length = b.heap.cells.length + 1 := by
  have hprev : ∀ q, prevAt (rows.map Row.ptr) rows.length = some q → ∃ l, b.heap.get? q = some l := by
    intro q hq
    cases hlen : rows.length with
    | zero => simp [hlen] at hq
    | succ j => exact hc.linked.live (i := j) (by rw [← hq, hlen, prevAt_succ])
  obtain ⟨x, hx⟩ : ∃ x, b.lineIf (prevAt (rows.map Row.ptr) rows.length) = .ok x := by
    cases hp : prevAt (rows.map Row.ptr) rows.length with
    | none => exact ⟨none, rfl⟩
    | some q =>
        obtain ⟨l, hl⟩ := hprev q hp
        exact ⟨some l, by simp [Buffer.lineIf, Buffer.line, hl]⟩
  generalize hnew : ({
    id
    str := Rope.new
    prev := prevAt (rows.map Row.ptr) rows.length
    next := none
    onScreen := (newFlags x none).1
    where_ := (newFlags x none).2 } : Line R) = new
  obtain ⟨heap, hm, hget⟩ := Buffer.modifyLineIf_ok { b with heap := (b.heap.malloc new).1 }
    ({ · with next := some b.heap.cells.length }) (prevAt (rows.map Row.ptr) rows.length) (fun q hq => by
      obtain ⟨l, hl⟩ := hprev q hq
      exact ⟨l, Heap.get?_malloc_of_get? hl⟩)
  refine ⟨heap, ?_, ?_, ?_⟩
  · have hnone : b.lineIf none = .ok none := rfl
    simp only [CoEditor.lineNew, hx, hnone, Except.ok_bind_eq, Heap.malloc, hnew]
    simp only [Heap.malloc] at hm
    rw [hm]
    rfl
  · have hfresh : b.heap.cells.length ∉ rows.map Row.ptr := by
      intro hmem
      obtain ⟨r, hr, hp⟩ := List.mem_map.mp hmem
      obtain ⟨i, hi⟩ := List.getElem?_of_mem hr
      exact absurd (hp ▸ hc.ptr_lt hi) (Nat.lt_irrefl _)
    have hself := hget _ new (Heap.get?_malloc_self b.heap new)
    have hne : prevAt (rows.map Row.ptr) rows.length ≠ some b.heap.cells.length := fun e => by
      obtain ⟨l, hl⟩ := hprev _ e
      exact absurd (Heap.lt_of_get? hl) (Nat.lt_irrefl _)
    rw [show (b.heap.malloc new).2 = b.heap.cells.length from rfl, if_neg hne] at hself
    have hptrs : (rows ++ [(⟨b.heap.cells.length, id, Rope.new, where_⟩ : Row R)]).map Row.ptr =
        (rows.map Row.ptr).insertIdx rows.length b.heap.cells.length := by
      have hlen : rows.length = (rows.map Row.ptr).length := by simp
      rw [List.map_append, hlen, List.insertIdx_length_self]
      rfl
    refine ⟨?_, ?_⟩
    · rw [hptrs]
      refine hc.linked.insert (by simp) hfresh ⟨new, hself, ?_, ?_⟩ ?_
      · rw [← hnew]
        rfl
      · rw [← hnew]
        simp
      · intro i q l hq hl
        have hlt := (List.getElem?_eq_some_iff.mp hq).1
        rw [List.length_map] at hlt
        refine ⟨_, hget q l (Heap.get?_malloc_of_get? hl), ?_⟩
        have hprevq : prevAt (rows.map Row.ptr) rows.length = some q ↔ i + 1 = rows.length := by
          cases hn : rows.length with
          | zero => omega
          | succ j =>
              rw [prevAt_succ, ← hq, List.getElem?_inj (by simp; omega) hc.linked.nodup]
              omega
        simp only [hprevq]
        by_cases hi : i + 1 = rows.length
        · have hi' : i ≠ rows.length := by omega
          simp [hi, hi']
        · have hi' : i ≠ rows.length := by omega
          simp [hi, hi']
    · intro i r hr
      by_cases hi : i < rows.length
      · rw [List.getElem?_append_left hi] at hr
        obtain ⟨l, hl, hid, hstr⟩ := hc.cell i r hr
        refine ⟨_, hget _ l (Heap.get?_malloc_of_get? hl), ?_⟩
        split <;> exact ⟨hid, hstr⟩
      · rw [List.getElem?_append_right (by omega)] at hr
        obtain ⟨-, rfl⟩ : i - rows.length = 0 ∧ r = ⟨b.heap.cells.length, id, Rope.new, where_⟩ := by
          cases hj : i - rows.length with
          | zero => simpa [hj, eq_comm] using hr
          | succ j => simp [hj] at hr
        exact ⟨new, hself, by rw [← hnew], by rw [← hnew]⟩
  · rw [Buffer.modifyLineIf_length hm]
    simp [Heap.malloc]

end Chained

/-! ## Setting the flags -/

namespace Page

/-- The flag `binit_onscreen_info` gives row `i` when the own cursor is on row `own`. -/
def binitWhere (own i : Nat) : Crp :=
  if i = own ∨ own = 0 then .same else if i < own then .above else .bellow

def binit (p : Page R) : Page R :=
  { p with rows := p.rows.mapIdx fun i r => { r with where_ := binitWhere p.own.row i } }

/-- `rel` when the loop of `binit_onscreen_info` comes to row `i`. -/
def binitRel (own i : Nat) : Crp := if own = 0 then .same else if own < i then .bellow else .above

/-- `os` when the loop comes to row `i`. -/
def binitOs (p : Page R) (i : Nat) : Bool := p.top < i ∧ i ≤ p.bottom

/-- The lines above row `i` have the flags they get. -/
def Upto (p : Page R) (i : Nat) (h : Heap (Line R)) : Prop :=
  ∀ (j : Nat) (r : Row R), p.rows[j]? = some r → ∃ on wh,
    h.get? r.ptr = some { p.lineOf j r with onScreen := on, where_ := wh } ∧
      (j < i → on = p.visible j ∧ wh = binitWhere p.own.row j)

theorem Upto.set {p : Page R} (hnodup : p.ptrs.Nodup) {i : Nat} {h : Heap (Line R)} (hu : p.Upto i h)
    {r : Row R} (hr : p.rows[i]? = some r) {l : Line R} (hl : h.get? r.ptr = some l) :
    p.Upto (i + 1)
      (h.set r.ptr { l with onScreen := p.visible i, where_ := binitWhere p.own.row i }) := by
  intro j s hs
  obtain ⟨on', wh', hget, hdone⟩ := hu j s hs
  by_cases hij : j = i
  · subst hij
    obtain rfl : r = s := Option.some.inj (hr.symm.trans hs)
    refine ⟨_, _, ?_, fun _ => ⟨rfl, rfl⟩⟩
    rw [Heap.get?_set_self hl]
    obtain rfl := Option.some.inj (hl.symm.trans hget)
    rfl
  · refine ⟨on', wh', ?_, fun hlt => hdone (by omega)⟩
    have hne : s.ptr ≠ r.ptr := by
      intro e
      have hjs := ptrs_of_row hs
      rw [e, ← ptrs_of_row hr] at hjs
      exact hij ((List.getElem?_inj (by simpa using lt_of_row hs) hnodup).mp hjs)
    rw [Heap.get?_set_ne hne, hget]

end Page

namespace Marks

variable {b : Buffer R} {p : Page R}

theorem binitLoop (hm : Marks b p) (hnodup : p.ptrs.Nodup) (hw : p.top < p.bottom) {o : Row R}
    (ho : p.rows[p.own.row]? = some o) :
    ∀ (d i fuel : Nat) (heap : Heap (Line R)), 0 < i → i + d = p.rows.length → d ≤ fuel →
      p.Upto i heap →
      ∃ heap', CoEditor.binitLoop { b with heap } o.ptr fuel (p.binitOs i)
          (Page.binitRel p.own.row i) p.ptrs[i]? = .ok { b with heap := heap' } ∧
        p.Upto p.rows.length heap' := by
  intro d
  induction d with
  | zero =>
      intro i fuel heap _ hi _ hu
      have hend : p.ptrs[i]? = none := by simp; omega
      rw [hend]
      refine ⟨heap, ?_, by rwa [← hi]⟩
      cases fuel <;> rfl
  | succ d ih =>
      intro i fuel heap hi0 hi hfuel hu
      obtain ⟨n, rfl⟩ : ∃ n, fuel = n + 1 := ⟨fuel - 1, by omega⟩
      obtain ⟨r, hr⟩ := Page.exists_row (p := p) (i := i) (by omega)
      obtain ⟨on, wh, hget, -⟩ := hu i r hr
      have hmark : ∀ j, j < p.rows.length → (p.ptrs[j]? = some r.ptr ↔ j = i) := by
        intro j hj
        rw [← Page.ptrs_of_row hr, List.getElem?_inj (by simpa using hj) hnodup]
      have htop : b.top = some r.ptr ↔ p.top = i := by rw [hm.top, hmark _ hm.top_lt]
      have hbottom : b.bottom = some r.ptr ↔ p.bottom = i := by rw [hm.bottom, hmark _ hm.bottom_lt]
      have hown : r.ptr = o.ptr ↔ i = p.own.row := by
        have := hmark _ (Page.lt_of_row ho)
        rw [Page.ptrs_of_row ho, Option.some.injEq] at this
        rw [eq_comm, this, eq_comm]
      have hon : (if p.binitOs i = false ∧ p.top = i then true else p.binitOs i) = p.visible i := by
        rw [Bool.eq_iff_iff, Page.visible_iff]
        simp only [Page.binitOs]
        grind
      have hwh : (if Page.binitRel p.own.row i = .above ∧ i = p.own.row then Crp.same
          else Page.binitRel p.own.row i) = Page.binitWhere p.own.row i := by
        unfold Page.binitRel Page.binitWhere
        grind
      have hos : (if p.binitOs i = true ∧ p.bottom = i then false else p.visible i) = p.binitOs (i + 1) := by
        rw [Bool.eq_iff_iff]
        simp only [Page.binitOs, Page.visible]
        grind
      have hrel : (if Page.binitRel p.own.row i = .above ∧ i = p.own.row then Crp.bellow
          else Page.binitRel p.own.row i) = Page.binitRel p.own.row (i + 1) := by
        unfold Page.binitRel
        grind
      have hu' := hu.set hnodup hr hget
      obtain ⟨heap', hrun, hfinal⟩ := ih (i + 1) n _ (by omega) (by omega) (by omega) hu'
      refine ⟨heap', ?_, hfinal⟩
      rw [Page.ptrs_of_row hr]
      simp only [CoEditor.binitLoop, htop, hbottom, hown, hon, hwh, hos, hrel, Buffer.modifyLine, Buffer.line,
        hget, Except.ok_bind_eq, Except.pure_eq_ok, Heap.get?_set_self hget]
      exact hrun

/-- One walk along the chain sets every flag. -/
theorem binitOnscreenInfo (hm : Marks b p) (hc : Chained b.heap p.rows) (hw : p.top < p.bottom) :
    ∃ heap, CoEditor.binitOnscreenInfo b = .ok { b with heap } ∧ Rep { b with heap } p.binit := by
  have hnodup : p.ptrs.Nodup := hc.linked.nodup
  obtain ⟨o, ho⟩ := Page.exists_row (hm.curs_lt .own p.own rfl)
  have hown : b.own = .ok ⟨p.own.id, o.ptr, p.own.pos⟩ := by
    simp [Buffer.own, hm.own, Page.cursor_of_row ho]
  have h0 : 0 < p.rows.length := Nat.lt_of_le_of_lt (Nat.zero_le _) hm.top_lt
  obtain ⟨f, hf⟩ := Page.exists_row h0
  have hfirst : b.first = f.ptr := by
    have := hm.first
    rw [Page.ptrs_of_row hf] at this
    exact (Option.some.inj this).symm
  have hu₀ : p.Upto 0 b.heap := by
    intro j r hr
    obtain ⟨l, hl, hid, hstr⟩ := hc.cell j r hr
    obtain ⟨l', hl', hprev, hnext⟩ := hc.linked.cell j r.ptr (by simp [hr])
    obtain rfl : l = l' := Option.some.inj (hl.symm.trans hl')
    refine ⟨l.onScreen, l.where_, ?_, fun h => absurd h (Nat.not_lt_zero j)⟩
    rw [hl, Page.lineOf, ← hid, ← hstr]
    simp only [Line.links_prev, Line.links_next] at hprev hnext
    rw [Page.ptrs, ← hprev, ← hnext]
  obtain ⟨on, wh, hget, -⟩ := hu₀ 0 f hf
  have hu₁ := hu₀.set hnodup hf hget
  have hos : (decide (b.top = some f.ptr) : Bool) = p.visible 0 := by
    rw [Bool.eq_iff_iff, Page.visible_iff, decide_eq_true_eq, hm.top, ← Page.ptrs_of_row hf,
      List.getElem?_inj (by simpa using hm.top_lt) hnodup]
    omega
  have hos₁ : p.visible 0 = p.binitOs 1 := by
    rw [Bool.eq_iff_iff]
    simp only [Page.binitOs, Page.visible]
    grind
  have hownf : o.ptr = f.ptr ↔ p.own.row = 0 := by
    rw [← Option.some.injEq, ← Page.ptrs_of_row ho, ← Page.ptrs_of_row hf,
      List.getElem?_inj (by simpa using Page.lt_of_row ho) hnodup]
  have hwh : (if o.ptr = f.ptr then Crp.same else Crp.above) = Page.binitWhere p.own.row 0 := by
    simp only [hownf]
    unfold Page.binitWhere
    grind
  have hrel : Page.binitWhere p.own.row 0 = Page.binitRel p.own.row 1 := by
    unfold Page.binitWhere Page.binitRel
    grind
  have hfuel : p.rows.length - 1 ≤ b.heap.cells.length := by
    have hle := hc.length_le
    omega
  obtain ⟨heap, hrun, hfinal⟩ := hm.binitLoop hnodup hw ho (p.rows.length - 1) 1 b.heap.cells.length _
    (by omega) (by omega) hfuel hu₁
  refine ⟨heap, ?_, ?_⟩
  · simp only [CoEditor.binitOnscreenInfo, hown, Except.ok_bind_eq, hfirst, hos, hwh, Buffer.modifyLine,
      Buffer.line, hget, Except.pure_eq_ok, Heap.get?_set_self hget]
    simpa [hos₁, hrel, hfirst, Heap.set, Page.ptrs, Page.lineOf] using hrun
  · have hptrs : p.binit.ptrs = p.ptrs := by
      apply List.ext_getElem?
      intro i
      simp only [Page.ptrs, Page.binit, List.getElem?_map, List.getElem?_mapIdx]
      cases p.rows[i]? <;> rfl
    have hlen : p.binit.rows.length = p.rows.length := by simp [Page.binit]
    have hcursor : p.binit.cursor = p.cursor := by
      funext c
      simp [Page.cursor, hptrs]
    exact
      { hm with
        nodup := by rw [hptrs]; exact hnodup
        cell := by
          intro i r hr
          simp only [Page.binit, List.getElem?_mapIdx, Option.map_eq_some_iff] at hr
          obtain ⟨s, hs, rfl⟩ := hr
          obtain ⟨on, wh, hget, hdone⟩ := hfinal i s hs
          obtain ⟨rfl, rfl⟩ := hdone (Page.lt_of_row hs)
          rw [hget, Page.lineOf, Page.lineOf, hptrs]
          rfl
        first := by rw [hptrs]; exact hm.first
        last := by rw [hptrs]; exact hm.last
        top := by rw [hptrs]; exact hm.top
        bottom := by rw [hptrs]; exact hm.bottom
        last_lt := by rw [hlen]; exact hm.last_lt
        top_lt := by rw [hlen]; exact hm.top_lt
        bottom_lt := by rw [hlen]; exact hm.bottom_lt
        own := by rw [hcursor]; exact hm.own
        peers := by rw [hcursor]; exact hm.peers
        curs_lt := by
          intro ref c hc
          rw [hlen]
          exact hm.curs_lt ref c ((Page.curs_congr rfl rfl ref).symm.trans hc)
        window := Nat.le_of_lt hw }

end Marks

/-! ## The empty buffer -/

namespace Page

/-- Row `i` of an empty buffer. -/
def emptyRow [Rope R] (i : Nat) : Row R := ⟨i, i, Rope.new, .same⟩

def emptyRows [Rope R] (n : Nat) : List (Row R) := (List.range n).map emptyRow

/-- The page `buffer_from_file` starts from. -/
def empty [Rope R] (id width : Int) (n : Nat) : Page R where
  id
  ver := 0
  numLines := n
  lineIdCnt := n
  height := n
  width
  serverMode := false
  rows := emptyRows n
  last := 0
  top := 0
  bottom := n - 1
  own := ⟨0, 0, 0⟩
  peers := List.replicate maxCursorNum none

variable [Rope R]

@[simp] theorem emptyRows_length (n : Nat) : (emptyRows (R := R) n).length = n := by simp [emptyRows]

theorem emptyRows_getElem? {n i : Nat} (hi : i < n) : (emptyRows (R := R) n)[i]? = some (emptyRow i) := by
  simp [emptyRows, hi]

/-- An empty page has the flags it would be given. -/
theorem empty_binit (id width : Int) (n : Nat) : (empty (R := R) id width n).binit = empty id width n := by
  have hrows : (emptyRows (R := R) n).mapIdx (fun i r => { r with where_ := binitWhere 0 i }) = emptyRows n := by
    apply List.ext_getElem?
    intro i
    by_cases hi : i < n
    · simp [emptyRows, emptyRow, binitWhere, hi]
    · simp [emptyRows, hi]
  simp only [binit, empty, hrows]

@[simp] theorem emptyRows_ptrs (n : Nat) : (emptyRows (R := R) n).map Row.ptr = List.range n := by
  simp [emptyRows, emptyRow, Function.comp_def]

theorem emptyRows_succ (n : Nat) : emptyRows (R := R) (n + 1) = emptyRows n ++ [emptyRow n] := by
  simp [emptyRows, List.range_succ]

end Page

variable [Rope R]

/-- What `line_new` at the end of an empty buffer of `n` lines gives. -/
theorem Chained.lineNewCnt {b : Buffer R} {n : Nat} (hc : Chained b.heap (Page.emptyRows n))
    (hlen : b.heap.cells.length = n) (hcnt : b.lineIdCnt = n) (prev : Option Ptr)
    (hprev : prev = prevAt ((Page.emptyRows (R := R) n).map Row.ptr) n) :
    ∃ heap, CoEditor.lineNewCnt b prev none = .ok ({ b with heap, lineIdCnt := n + 1 }, n) ∧
      Chained heap (Page.emptyRows n ++ [Page.emptyRow n]) ∧ heap.cells.length = n + 1 := by
  have hnew := Chained.lineNew (b := { b with lineIdCnt := b.lineIdCnt + 1 }) hc b.lineIdCnt .same
  simp only [Page.emptyRows_length, ← hprev] at hnew
  obtain ⟨heap, hrun, hchain, hl⟩ := hnew
  refine ⟨heap, ?_, ?_, by rw [hl, hlen]⟩
  · rw [CoEditor.lineNewCnt, hrun, hcnt, hlen]
  · rw [Page.emptyRow]
    rwa [hlen, hcnt] at hchain

theorem padLines_ok :
    ∀ (m n : Nat) (b : Buffer R), Chained b.heap (Page.emptyRows (n + 1)) →
      b.heap.cells.length = n + 1 → b.lineIdCnt = (n + 1 : Nat) → b.bottom = some n ∨ 0 < m →
      ∃ heap, padLines m b n = .ok { b with
          heap, lineIdCnt := (n + 1 + m : Nat), bottom := some (n + m) } ∧
        Chained heap (Page.emptyRows (n + 1 + m)) ∧ heap.cells.length = n + 1 + m := by
  intro m
  induction m with
  | zero =>
      intro n b hc hlen hcnt hb
      have hb' : b.bottom = some n := hb.resolve_right (Nat.lt_irrefl 0)
      refine ⟨b.heap, ?_, hc, hlen⟩
      simp only [padLines, Except.pure_eq_ok, Nat.add_zero, ← hcnt, ← hb']
  | succ m ih =>
      intro n b hc hlen hcnt _
      obtain ⟨heap, hrun, hchain, hl⟩ := hc.lineNewCnt hlen hcnt (some n) (by simp)
      rw [← Page.emptyRows_succ] at hchain
      obtain ⟨heap', hrun', hchain', hl'⟩ :=
        ih (n + 1) { b with heap, lineIdCnt := (n + 1 : Nat) + 1, bottom := some (n + 1) } hchain hl
          (by simp) (.inl rfl)
      refine ⟨heap', ?_, ?_, ?_⟩
      · simp only [padLines, hrun, Except.ok_bind_eq, hrun']
        simp only [Nat.add_assoc, Nat.add_comm 1 m]
      · rwa [show n + 1 + (m + 1) = n + 1 + 1 + m by omega]
      · omega

/-- The empty buffer just before its flags are set. -/
def emptyBuffer (id width : Int) (n : Nat) (heap : Heap (Line R)) : Buffer R where
  id
  ver := 0
  numLines := n
  lineIdCnt := n
  height := n
  width
  first := 0
  last := some 0
  top := some 0
  bottom := some (n - 1)
  ownCurs := some ⟨0, 0, 0⟩
  peerCurss := List.replicate maxCursorNum none
  u := .unset
  serverMode := false
  heap
  unsetRead := false
  paintFault := none

theorem Marks.emptyBuffer (id width : Int) {n : Nat} (hn : 2 ≤ n) (heap : Heap (Line R)) :
    Marks (CoEditor.emptyBuffer id width n heap) (Page.empty id width n) := by
  have hptr : ∀ i, i < n → (Page.empty (R := R) id width n).ptrs[i]? = some i := by
    intro i hi
    rw [show (Page.empty (R := R) id width n).ptrs = List.range n from
      Page.emptyRows_ptrs n, List.getElem?_range hi]
  have hlength : (Page.empty (R := R) id width n).rows.length = n := Page.emptyRows_length n
  refine
    { id := rfl
      ver := rfl
      numLines := rfl
      lineIdCnt := rfl
      height := rfl
      width := rfl
      serverMode := rfl
      first := hptr 0 (by omega)
      last := (hptr 0 (by omega)).symm
      top := (hptr 0 (by omega)).symm
      bottom := (hptr (n - 1) (by omega)).symm
      last_lt := by rw [hlength]; exact Nat.lt_of_lt_of_le Nat.zero_lt_two hn
      top_lt := by rw [hlength]; exact Nat.lt_of_lt_of_le Nat.zero_lt_two hn
      bottom_lt := by rw [hlength]; exact Nat.sub_lt (by omega) Nat.zero_lt_one
      own := ?_
      peers := by simp [Page.empty, CoEditor.emptyBuffer]
      curs_lt := ?_ }
  · show _ = ((Page.empty (R := R) id width n).ptrs[0]?).map _
    rw [hptr 0 (by omega)]
    rfl
  · intro ref c hc
    cases ref with
    | own =>
        obtain rfl := Except.ok.inj hc
        rw [hlength]
        exact Nat.lt_of_lt_of_le Nat.zero_lt_two hn
    | peer i =>
        rw [Page.curs_peer] at hc
        simp [Page.empty, List.getElem?_replicate] at hc

/-- Every height of at least two gives an empty buffer. -/
theorem bufferEmpty_ok (id width : Int) {n : Nat} (hn : 2 ≤ n) :
    ∃ b : Buffer R, bufferEmpty id n width = .ok b ∧ Rep b (Page.empty id width n) := by
  obtain ⟨m, rfl⟩ : ∃ m, n = m + 1 := ⟨n - 1, by omega⟩
  obtain ⟨heap₀, hrun₀, hchain₀, hlen₀⟩ :=
    Chained.lineNewCnt (n := 0) (b := bufferAlloc R id (m + 1 : Nat) width) .nil rfl rfl none rfl
  obtain ⟨heap, hrun, hchain, hlen⟩ := padLines_ok m 0
    { bufferAlloc R id (m + 1 : Nat) width with
      heap := heap₀, lineIdCnt := (0 : Nat) + 1, first := 0, top := some 0, last := some 0 }
    (by rw [Page.emptyRows_succ]; exact hchain₀) hlen₀ rfl (.inr (by omega))
  rw [show 0 + 1 + m = m + 1 by omega] at hchain hlen
  obtain ⟨l, hl, hid, -⟩ := hchain.cell 0 _ (Page.emptyRows_getElem? (by omega))
  have hid : l.id = 0 := hid
  have hl : heap.get? 0 = some l := hl
  have hfind : ∀ b : Buffer R, b.heap = heap → b.last = some 0 → blineFind b 0 = .ok (some 0) := by
    intro b hb hlast
    simp [blineFind, hlast, hb, hlen, blineFindFrom, Buffer.line, hl, hid]
  have hbinit := (Marks.emptyBuffer id width hn heap).binitOnscreenInfo hchain (by
    show 0 < m + 1 - 1
    omega)
  rw [Page.empty_binit] at hbinit
  obtain ⟨heap', hrun', hrep⟩ := hbinit
  refine ⟨_, ?_, hrep⟩
  have hfirst : lineNewCnt (bufferAlloc R id (m + 1 : Nat) width) none none = _ := hrun₀
  simp only [bufferEmpty, hfirst, Except.ok_bind_eq]
  rw [show ((m + 1 : Nat) - 1 : Int).toNat = m by omega]
  have hrun : padLines m _ 0 = _ := hrun
  rw [hrun, Except.ok_bind_eq]
  simp only [bcursorNew, hfind, Buffer.lineAt, Buffer.line, hl, if_true, Except.ok_bind_eq,
    Except.pure_eq_ok, Option.map_some]
  rw [← hrun']
  simp only [CoEditor.emptyBuffer, bufferAlloc, Nat.zero_add, Nat.add_sub_cancel, Nat.add_comm 1 m]

end CoEditor
