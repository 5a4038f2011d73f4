-- SUMMARY: Cursor access on a page, and what moving cursors leaves alone.
import CoEditor.Page.Defs

/-!
# Frames

`Moved p q` says that `q` differs from `p` by cursor positions, `where` flags
and a shift of the window only. Every cursor movement, and every loop of cursor
movements, is of this kind.
-/

namespace CoEditor

variable {R : Type}

namespace Page

/-! ## Cursor access -/

theorem curs_own (p : Page R) : p.curs .own = .ok p.own := rfl

theorem curs_peer {p : Page R} {i : Nat} {c : PageCursor} :
    p.curs (.peer i) = .ok c ↔ p.peers[i]? = some (some c) := by
  simp only [curs]
  cases p.peers[i]? with
  | none => simp
  | some o => cases o <;> simp

theorem curs_peer_join {p : Page R} {i : Nat} {c : PageCursor} :
    p.peers[i]?.join = some c ↔ p.curs (.peer i) = .ok c := by
  rw [curs_peer, Option.join_eq_some_iff]

theorem curs_congr {p q : Page R} (hown : q.own = p.own) (hpeers : q.peers = p.peers)
    (ref : CursRef) : q.curs ref = p.curs ref := by
  cases ref with
  | own => rw [curs, curs, hown]
  | peer i => rw [curs, curs, hpeers]

/-- After an assignment a cursor is the assigned one or an old one. -/
theorem setCurs_curs {p : Page R} {ref ref' : CursRef} {c d : PageCursor}
    (hd : (p.setCurs c ref).curs ref' = .ok d) : d = c ∨ p.curs ref' = .ok d := by
  cases ref with
  | own =>
      cases ref' with
      | own => exact .inl (Except.ok.inj hd).symm
      | peer j => exact .inr hd
  | peer i =>
      cases ref' with
      | own => exact .inr hd
      | peer j =>
          rw [curs_peer] at hd ⊢
          simp only [setCurs, List.getElem?_set] at hd
          grind

theorem curs_setCurs_self {p : Page R} {ref : CursRef} {c₀ : PageCursor} (h : p.curs ref = .ok c₀)
    (c : PageCursor) : (p.setCurs c ref).curs ref = .ok c := by
  cases ref with
  | own => rfl
  | peer i =>
      have hlt := (List.getElem?_eq_some_iff.mp (curs_peer.mp h)).1
      exact curs_peer.mpr (by simp [setCurs, hlt])

theorem curs_setCurs_ne {p : Page R} {ref ref' : CursRef} (hne : ref' ≠ ref) (c : PageCursor) :
    (p.setCurs c ref).curs ref' = p.curs ref' := by
  cases ref with
  | own =>
      cases ref' with
      | own => exact absurd rfl hne
      | peer j => rfl
  | peer i =>
      cases ref' with
      | own => rfl
      | peer j =>
          have hij : i ≠ j := fun e => hne (e ▸ rfl)
          simp [setCurs, curs, List.getElem?_set_ne hij]

/-- No two cursors have one id. -/
def Distinct (p : Page R) : Prop :=
  ∀ ref ref' c c', p.curs ref = .ok c → p.curs ref' = .ok c' → c.id = c'.id → ref = ref'

theorem curs_of_find {p : Page R} {id : Int} {ref : CursRef} (h : p.find id = some ref) :
    ∃ c, p.curs ref = .ok c ∧ c.id = id := by
  unfold find at h
  split at h
  · next hid => cases h; exact ⟨p.own, rfl, hid⟩
  · obtain ⟨i, hi, rfl⟩ := Option.map_eq_some_iff.mp h
    obtain ⟨hlt, hany, -⟩ := List.findIdx?_eq_some_iff_getElem.mp hi
    cases hc : p.peers[i] with
    | none => simp [hc] at hany
    | some c =>
        exact ⟨c, curs_peer.mpr (by rw [List.getElem?_eq_getElem hlt, hc]), by simpa [hc] using hany⟩

theorem distinct_congr {p q : Page R} (h : ∀ ref, q.curs ref = p.curs ref) (hD : p.Distinct) :
    q.Distinct := by
  intro ref ref' x x' hx hx' hid
  rw [h] at hx hx'
  exact hD ref ref' x x' hx hx' hid

/-- With distinct ids a cursor is found under its id. -/
theorem find_of_curs {p : Page R} (hD : p.Distinct) {ref : CursRef} {c : PageCursor}
    (hc : p.curs ref = .ok c) : p.find c.id = some ref := by
  unfold find
  split
  · next hid => rw [hD .own ref p.own c rfl hc hid]
  · next hid =>
      cases ref with
      | own => exact absurd (by rw [Except.ok.inj hc]) hid
      | peer i =>
          have hi := curs_peer.mp hc
          have hlt := (List.getElem?_eq_some_iff.mp hi).1
          rw [Option.map_eq_some_iff]
          refine ⟨i, List.findIdx?_eq_some_iff_getElem.mpr ⟨hlt, ?_, ?_⟩, rfl⟩
          · rw [(List.getElem?_eq_some_iff.mp hi).2]
            simp
          · intro j hji hany
            cases hj : p.peers[j] with
            | none => simp [hj] at hany
            | some d =>
                have hd : p.curs (.peer j) = .ok d :=
                  curs_peer.mpr (by rw [List.getElem?_eq_getElem (by omega), hj])
                have hid' : d.id = c.id := by simpa [hj] using hany
                have := hD _ _ _ _ hd hc hid'
                simp at this
                omega

theorem find_eq_none {p : Page R} {id : Int} :
    p.find id = none ↔ ∀ ref c, p.curs ref = .ok c → c.id ≠ id := by
  unfold find
  split
  · next hid => simpa using ⟨.own, p.own, rfl, hid⟩
  · next hid =>
      rw [Option.map_eq_none_iff, List.findIdx?_eq_none_iff]
      constructor
      · intro hnone ref c hc
        cases ref with
        | own => rwa [← Except.ok.inj hc]
        | peer i => simpa using hnone _ (List.mem_of_getElem? (curs_peer.mp hc))
      · intro hids o ho
        cases o with
        | none => rfl
        | some c =>
            obtain ⟨i, hi⟩ := List.getElem?_of_mem ho
            simpa using hids (.peer i) c (curs_peer.mpr hi)

theorem findCurs_of_curs {p : Page R} (hD : p.Distinct) {ref : CursRef} {c : PageCursor}
    (hc : p.curs ref = .ok c) : p.findCurs c.id = .ok ref := by
  rw [findCurs, find_of_curs hD hc]
  rfl

theorem curs_of_findCurs {p : Page R} {id : Int} {ref : CursRef} (h : p.findCurs id = .ok ref) :
    ∃ c, p.curs ref = .ok c ∧ c.id = id := by
  unfold findCurs at h
  cases hf : p.find id with
  | none => simp [hf, derefCurs] at h
  | some ref' =>
      obtain rfl : ref' = ref := by simpa [hf, derefCurs] using h
      exact curs_of_find hf

end Page

/-! ## Finding lines -/

theorem Page.blineFindFrom_some {p : Page R} {id : Int} {k j : Nat}
    (h : p.blineFindFrom id k = some j) : j ≤ k ∧ p.idAt j = some id := by
  induction k with
  | zero =>
      simp only [blineFindFrom] at h
      split at h
      · next hid => cases h; exact ⟨Nat.le_refl _, hid⟩
      · cases h
  | succ k ih =>
      simp only [blineFindFrom] at h
      split at h
      · next hid => cases h; exact ⟨Nat.le_refl _, hid⟩
      · obtain ⟨hle, hid⟩ := ih h
        exact ⟨Nat.le_succ_of_le hle, hid⟩

/-! ## What cursor movements leave alone -/

/-- What a row holds besides its `where` flag. -/
def Row.body (r : Row R) : Ptr × Int × R := (r.ptr, r.id, r.str)

/-- `q` is `p` with other cursor positions, another window and other `where` flags. -/
structure Page.Kept (p q : Page R) : Prop where
  id : q.id = p.id
  ver : q.ver = p.ver
  numLines : q.numLines = p.numLines
  lineIdCnt : q.lineIdCnt = p.lineIdCnt
  height : q.height = p.height
  width : q.width = p.width
  serverMode : q.serverMode = p.serverMode
  rows : q.rows.map Row.body = p.rows.map Row.body
  last : q.last = p.last
  slots : q.peers.length = p.peers.length
  ids : ∀ ref, PageCursor.id <$> q.curs ref = PageCursor.id <$> p.curs ref

namespace Page.Kept

variable {p q r : Page R}

theorem refl (p : Page R) : Kept p p :=
  ⟨rfl, rfl, rfl, rfl, rfl, rfl, rfl, rfl, rfl, rfl, fun _ => rfl⟩

theorem trans (h : Kept p q) (h' : Kept q r) : Kept p r where
  id := h'.id.trans h.id
  ver := h'.ver.trans h.ver
  numLines := h'.numLines.trans h.numLines
  lineIdCnt := h'.lineIdCnt.trans h.lineIdCnt
  height := h'.height.trans h.height
  width := h'.width.trans h.width
  serverMode := h'.serverMode.trans h.serverMode
  rows := h'.rows.trans h.rows
  last := h'.last.trans h.last
  slots := h'.slots.trans h.slots
  ids := fun ref => (h'.ids ref).trans (h.ids ref)

theorem rows_length (h : Kept p q) : q.rows.length = p.rows.length := by
  simpa using congrArg List.length h.rows

/-- A cursor of the one page has its counterpart, under the same id, on the other. -/
theorem curs_back (h : Kept p q) {ref : CursRef} {c : PageCursor} (hc : q.curs ref = .ok c) :
    ∃ d, p.curs ref = .ok d ∧ d.id = c.id := by
  have hid := h.ids ref
  rw [hc] at hid
  exact Except.map_eq_ok.mp hid.symm

theorem distinct (h : Kept p q) (hD : p.Distinct) : q.Distinct := by
  intro ref ref' c c' hc hc' hid
  obtain ⟨d, hd, hdid⟩ := h.curs_back hc
  obtain ⟨d', hd', hdid'⟩ := h.curs_back hc'
  exact hD ref ref' d d' hd hd' (by rw [hdid, hdid', hid])

/-- What a row holds is the same before and after. -/
theorem body (h : Kept p q) (i : Nat) : q.rows[i]?.map Row.body = p.rows[i]?.map Row.body := by
  have hi := congrArg (·[i]?) h.rows
  simpa using hi

theorem ptrs (h : Kept p q) : q.ptrs = p.ptrs := by
  have hptr := congrArg (List.map Prod.fst) h.rows
  simpa [Page.ptrs, Function.comp_def, Row.body] using hptr

theorem len [Rope R] (h : Kept p q) (i : Nat) : q.len i = p.len i := by
  have hlen : ∀ x : Page R, x.len i = (x.rows[i]?.map Row.body |>.map fun t => Rope.charCount t.2.2).getD 0 := by
    intro x
    simp only [Page.len, Option.map_map]
    rfl
  rw [hlen, hlen, h.body]

theorem strAt [Rope R] (h : Kept p q) (i : Nat) : q.strAt i = p.strAt i := by
  have hstr : ∀ x : Page R, x.strAt i = (x.rows[i]?.map Row.body |>.map fun t => t.2.2).getD Rope.new := by
    intro x
    simp only [Page.strAt, Option.map_map]
    rfl
  rw [hstr, hstr, h.body]

end Page.Kept

/-- `q` shows what `p` shows: the rows, the window and the own cursor are the same. -/
structure Page.SameView (p q : Page R) : Prop where
  rows : q.rows = p.rows
  top : q.top = p.top
  bottom : q.bottom = p.bottom
  own : q.own = p.own

theorem Page.SameView.refl (p : Page R) : SameView p p := ⟨rfl, rfl, rfl, rfl⟩

theorem Page.SameView.trans {p q r : Page R} (h : SameView p q) (h' : SameView q r) : SameView p r :=
  ⟨h'.rows.trans h.rows, h'.top.trans h.top, h'.bottom.trans h.bottom, h'.own.trans h.own⟩

/-- `q` is `p` with other cursor positions and `where` flags and a shifted window. -/
structure Page.Moved (p q : Page R) : Prop extends Page.Kept p q where
  window : p.top + q.bottom = q.top + p.bottom

namespace Page.Moved

variable {p q r : Page R}

theorem refl (p : Page R) : Moved p p := { Kept.refl p with window := rfl }

theorem trans (h : Moved p q) (h' : Moved q r) : Moved p r :=
  { h.toKept.trans h'.toKept with
    window := by have := h.window; have := h'.window; omega }

end Page.Moved

/-! ## Scrolling and moving -/

namespace Page


/-- Scrolling moves nothing but the window. -/
theorem scroll_frame (p : Page R) (dir : CmoveDir) :
    p.scroll dir = { p with top := (p.scroll dir).top, bottom := (p.scroll dir).bottom } := by
  cases dir <;> simp only [scroll] <;> split <;> rfl

@[simp] theorem scroll_rows (p : Page R) (dir : CmoveDir) : (p.scroll dir).rows = p.rows := by
  rw [scroll_frame]

@[simp] theorem scroll_own (p : Page R) (dir : CmoveDir) : (p.scroll dir).own = p.own := by
  rw [scroll_frame]

@[simp] theorem scroll_curs (p : Page R) (dir : CmoveDir) (ref : CursRef) :
    (p.scroll dir).curs ref = p.curs ref := by
  rw [scroll_frame]
  cases ref <;> rfl

/-- The window keeps its size when it is scrolled. -/
theorem scroll_window (p : Page R) (dir : CmoveDir) :
    p.top + (p.scroll dir).bottom = (p.scroll dir).top + p.bottom := by
  cases dir <;> simp only [scroll] <;> grind

theorem scroll_moved (p : Page R) (dir : CmoveDir) : Moved p (p.scroll dir) := by
  have hw := p.scroll_window dir
  have hcurs := p.scroll_curs dir
  rw [scroll_frame] at hw hcurs ⊢
  exact { Kept.refl p with window := hw, ids := fun ref => by rw [hcurs] }

theorem modifyRow_moved (p : Page R) (k : Nat) (f : Row R → Row R) (hf : ∀ r, (f r).body = r.body) :
    Moved p (p.modifyRow k f) where
  id := rfl
  ver := rfl
  numLines := rfl
  lineIdCnt := rfl
  height := rfl
  width := rfl
  serverMode := rfl
  rows := by
    apply List.ext_getElem?
    intro i
    simp only [modifyRow, List.getElem?_map, List.getElem?_modify]
    cases p.rows[i]? with
    | none => rfl
    | some r =>
        by_cases hk : k = i
        · simp [hk, hf]
        · simp [hk]
  last := rfl
  window := rfl
  slots := rfl
  ids := fun ref => by cases ref <;> rfl

theorem setCurs_moved {p : Page R} {ref : CursRef} {c d : PageCursor} (hc : p.curs ref = .ok c)
    (hid : d.id = c.id) : Moved p (p.setCurs d ref) where
  id := by cases ref <;> rfl
  ver := by cases ref <;> rfl
  numLines := by cases ref <;> rfl
  lineIdCnt := by cases ref <;> rfl
  height := by cases ref <;> rfl
  width := by cases ref <;> rfl
  serverMode := by cases ref <;> rfl
  rows := by cases ref <;> rfl
  last := by cases ref <;> rfl
  window := by cases ref <;> rfl
  slots := by cases ref <;> simp [setCurs]
  ids := by
    intro ref'
    by_cases href : ref' = ref
    · subst href
      rw [curs_setCurs_self hc, hc]
      exact congrArg Except.ok hid
    · rw [curs_setCurs_ne href]

theorem noteUp_moved (p : Page R) (row : Nat) : Moved p (p.noteUp row) := by
  refine (p.modifyRow_moved (row + 1) ({ · with where_ := .bellow }) fun _ => rfl).trans ?_
  exact modifyRow_moved _ row ({ · with where_ := .same }) fun _ => rfl

theorem noteDown_moved (p : Page R) (row : Nat) : Moved p (p.noteDown row) := by
  refine (p.modifyRow_moved (row - 1) ({ · with where_ := .above }) fun _ => rfl).trans ?_
  exact modifyRow_moved _ row ({ · with where_ := .same }) fun _ => rfl

theorem noteUp_curs (p : Page R) (row : Nat) (ref : CursRef) : (p.noteUp row).curs ref = p.curs ref :=
  curs_congr rfl rfl ref

theorem noteDown_curs (p : Page R) (row : Nat) (ref : CursRef) :
    (p.noteDown row).curs ref = p.curs ref := curs_congr rfl rfl ref

theorem scrollBefore_rows (p : Page R) (c : CursRef) (row : Nat) :
    (p.scrollBefore c row).rows = p.rows := by
  unfold scrollBefore
  grind [scroll_rows]

theorem scrollBefore_moved (p : Page R) (c : CursRef) (row : Nat) : Moved p (p.scrollBefore c row) := by
  unfold scrollBefore
  grind [scroll_moved, Moved.trans, Moved.refl]

theorem scrollBefore_curs (p : Page R) (c : CursRef) (row : Nat) (ref : CursRef) :
    (p.scrollBefore c row).curs ref = p.curs ref := by
  unfold scrollBefore
  grind [scroll_curs]

theorem scrollAfter_moved (p : Page R) (c : CursRef) (row : Nat) (res : CmoveRes) :
    Moved p (p.scrollAfter c row res) := by
  unfold scrollAfter
  grind [scroll_moved, noteUp_moved, noteDown_moved, Moved.trans, Moved.refl]

theorem scrollAfter_curs (p : Page R) (c : CursRef) (row : Nat) (res : CmoveRes) (ref : CursRef) :
    (p.scrollAfter c row res).curs ref = p.curs ref := by
  unfold scrollAfter
  grind [scroll_curs, noteUp_curs, noteDown_curs]

variable [Rope R]

theorem Kept.cursorMove {p q : Page R} (h : Kept p q) (c : PageCursor) (dir : CmoveDir) :
    q.cursorMove c dir = p.cursorMove c dir := by
  cases dir <;> simp only [Page.cursorMove, cut, h.len, h.rows_length, h.last]

theorem cursorMove_id (p : Page R) (c : PageCursor) (dir : CmoveDir) :
    (p.cursorMove c dir).1.id = c.id := by
  cases dir <;> simp only [cursorMove] <;> grind

/-- Moving a cursor moves that cursor and no other. -/
theorem moveCurs_spec {p : Page R} {ref : CursRef} {c : PageCursor} (hc : p.curs ref = .ok c)
    (dir : CmoveDir) :
    Moved p (p.moveCurs ref c dir) ∧
      (p.moveCurs ref c dir).curs ref = .ok (p.cursorMove c dir).1 ∧
      ∀ ref' ≠ ref, (p.moveCurs ref c dir).curs ref' = p.curs ref' := by
  have h₁ := p.scrollBefore_moved ref c.row
  have hc₁ := (p.scrollBefore_curs ref c.row ref).trans hc
  simp only [moveCurs, h₁.cursorMove]
  have h₂ := setCurs_moved hc₁ (p.cursorMove_id c dir)
  refine ⟨(h₁.trans h₂).trans (scrollAfter_moved ..), ?_, ?_⟩
  · rw [scrollAfter_curs, curs_setCurs_self hc₁]
  · intro ref' hne
    rw [scrollAfter_curs, curs_setCurs_ne hne, scrollBefore_curs]

/-- A peer cursor moves without any effect on the view. -/
theorem moveCurs_peer (p : Page R) (i : Nat) (c : PageCursor) (dir : CmoveDir) :
    p.moveCurs (.peer i) c dir = p.setCurs (p.cursorMove c dir).1 (.peer i) := by
  simp [moveCurs, scrollBefore, scrollAfter]

omit [Rope R] in
theorem setCurs_sameView (p : Page R) (i : Nat) (c : PageCursor) : SameView p (p.setCurs c (.peer i)) :=
  ⟨rfl, rfl, rfl, rfl⟩

theorem moveCurs_sameView (p : Page R) (i : Nat) (c : PageCursor) (dir : CmoveDir) :
    SameView p (p.moveCurs (.peer i) c dir) := by
  rw [moveCurs_peer]
  exact p.setCurs_sameView i _

theorem bcursorMove_of_curs {p : Page R} (hD : p.Distinct) {ref : CursRef} {c : PageCursor}
    (hc : p.curs ref = .ok c) (dir : CmoveDir) :
    p.bcursorMove c.id dir = .ok (p.moveCurs ref c dir) := by
  simp [bcursorMove, findCurs_of_curs hD hc, hc]

/-- The lines stay where they are. -/
theorem bcursorMove_ptrs {p q : Page R} {id : Int} {dir : CmoveDir} (h : p.bcursorMove id dir = .ok q) : q.ptrs = p.ptrs := by
  obtain ⟨ref, -, h⟩ := Except.bind_eq_ok.mp h
  obtain ⟨c, hc, h⟩ := Except.bind_eq_ok.mp h
  rw [← Except.ok.inj h]
  exact (moveCurs_spec hc dir).1.toKept.ptrs

end Page


end CoEditor
