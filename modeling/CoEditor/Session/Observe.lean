-- SUMMARY: What can be seen of a buffer by following its pointers, and where it is found in its document.
import CoEditor.Doc.Text
import CoEditor.Session.Reach

/-!
# Observations

Results about the buffer are stated in terms of what a walk along the chain
sees: the lines in order, their texts, and the places of the cursors.
-/

namespace CoEditor

variable {R : Type}

/-- The lines met by following `next`, at most `fuel` of them. -/
def chainFrom (h : Heap (Line R)) : Nat → Option Ptr → List (Ptr × Line R)
  | 0, _ | _, none => []
  | fuel + 1, some q =>
      match h.get? q with
      | none => []
      | some l => (q, l) :: chainFrom h fuel l.next

/-- The part of a chain that ends with `last`. -/
def upTo (last : Option Ptr) : List (Ptr × Line R) → List (Ptr × Line R)
  | [] => []
  | x :: xs => if some x.1 = last then [x] else x :: upTo last xs

namespace Buffer

/-- The lines from `first` to the end of the chain. -/
def chain (b : Buffer R) : List (Ptr × Line R) := chainFrom b.heap b.heap.cells.length (some b.first)

/-- The id of the line behind a pointer. -/
def idOf (b : Buffer R) (q : Option Ptr) : Option Int := (q.bind b.heap.get?).map Line.id

/-- A cursor with its line named by id. -/
def curs? (b : Buffer R) (c : Cursor) : Int × Option Int × Int := (c.id, b.idOf (some c.ownLine), c.pos)

/-- The peer cursors with their lines named by ids. -/
def peerList (b : Buffer R) : List (Int × Option Int × Int) := b.peerCurss.filterMap fun o => o.map b.curs?

variable [Rope R]

/-- The ids and texts of all lines. -/
def content (b : Buffer R) : List (Int × List Char) := b.chain.map fun x => (x.2.id, Rope.chars x.2.str)

/-- The texts of the lines from `first` to `last`. -/
def texts (b : Buffer R) : List (List Char) := (upTo b.last b.chain).map fun x => Rope.chars x.2.str

/-- Every line fits the scratch pad. -/
def Fits (b : Buffer R) : Prop := ∀ x ∈ b.chain, (Rope.writeCstr x.2.str).length + 1 ≤ spSize

instance (b : Buffer R) : Decidable b.Fits := by
  unfold Fits
  infer_instance

/-- The line that cursor `id` joins to the one above it, if it stands at its start, fits the scratch pad. -/
def JoinFits (b : Buffer R) (id : Int) : Prop :=
  ∀ c cur l, bcursorFind b id = .ok (some c) → b.curs c = .ok cur → b.line cur.ownLine = .ok l → ¬ 0 < cur.pos →
    cur.ownLine ≠ b.first → (Rope.writeCstr l.str).length + 1 ≤ spSize

end Buffer

/-! ## Pages and documents -/

namespace Rep

variable {b : Buffer R} {p : Page R}

/-- The walk along the chain meets the rows of the page. -/
theorem chain (h : Rep b p) : b.chain = p.rows.mapIdx fun i r => (r.ptr, p.lineOf i r) := by
  have hwalk : ∀ (d k fuel : Nat), k + d = p.rows.length → d ≤ fuel →
      chainFrom b.heap fuel p.ptrs[k]? = (p.rows.mapIdx fun i r => (r.ptr, p.lineOf i r)).drop k := by
    intro d
    induction d with
    | zero =>
        intro k fuel hk _
        have hend : p.ptrs[k]? = none := by simp; omega
        rw [hend, List.drop_of_length_le (by simp; omega)]
        cases fuel <;> rfl
    | succ d ih =>
        intro k fuel hk hfuel
        obtain ⟨n, rfl⟩ : ∃ n, fuel = n + 1 := ⟨fuel - 1, by omega⟩
        obtain ⟨r, hr⟩ := Page.exists_row (p := p) (i := k) (by omega)
        have hk' : k < (p.rows.mapIdx fun i r => (r.ptr, p.lineOf i r)).length := by simp; omega
        have hrow : (p.rows.mapIdx fun i r => (r.ptr, p.lineOf i r))[k] = (r.ptr, p.lineOf k r) := by
          simp [(List.getElem?_eq_some_iff.mp hr).2]
        rw [Page.ptrs_of_row hr, List.drop_eq_getElem_cons hk', hrow, ← ih (k + 1) n (by omega) (by omega)]
        simp only [chainFrom, h.cell k r hr, Page.lineOf]
  have hrun := hwalk p.rows.length 0 b.heap.cells.length (Nat.zero_add _) h.loose.chained.length_le
  rwa [h.first, List.drop_zero] at hrun

theorem chain_getElem? (h : Rep b p) (i : Nat) : b.chain[i]? = p.rows[i]?.map fun r => (r.ptr, p.lineOf i r) := by
  rw [h.chain, List.getElem?_mapIdx]

theorem idOf (h : Rep b p) (i : Nat) : b.idOf p.ptrs[i]? = p.idAt i := by
  rw [Page.ptrs_getElem?, Page.idAt, Buffer.idOf]
  cases hr : p.rows[i]? with
  | none => rfl
  | some r =>
      rw [Option.map_some, Option.bind_some, h.cell i r hr]
      rfl

/-- The part of the chain that ends with `last`. -/
theorem upTo_last (h : Rep b p) : upTo b.last b.chain = b.chain.take (p.last + 1) := by
  have hwalk : ∀ (d k : Nat), k + d = p.last → upTo b.last (b.chain.drop k) = (b.chain.drop k).take (d + 1) := by
    intro d
    induction d with
    | zero =>
        intro k hk
        obtain rfl : k = p.last := hk
        obtain ⟨r, hr⟩ := Page.exists_row h.last_lt
        have hget : b.chain[p.last]? = some (r.ptr, p.lineOf p.last r) := by rw [h.chain_getElem?, hr]; rfl
        obtain ⟨hlt, hrow⟩ := List.getElem?_eq_some_iff.mp hget
        rw [List.drop_eq_getElem_cons hlt, hrow, upTo, h.last, Page.ptrs_of_row hr]
        simp
    | succ d ih =>
        intro k hk
        have hlast := h.last_lt
        obtain ⟨r, hr⟩ := Page.exists_row (p := p) (i := k) (by omega)
        have hget : b.chain[k]? = some (r.ptr, p.lineOf k r) := by rw [h.chain_getElem?, hr]; rfl
        obtain ⟨hlt, hrow⟩ := List.getElem?_eq_some_iff.mp hget
        have hne : some r.ptr ≠ b.last := by
          rw [h.last, ← Page.ptrs_of_row hr, Ne, h.ptr_inj (by omega)]
          omega
        rw [List.drop_eq_getElem_cons hlt, hrow, upTo, if_neg hne, ih (k + 1) (by omega), List.take_succ_cons]
  have hrun := hwalk p.last 0 (Nat.zero_add _)
  rwa [List.drop_zero] at hrun

variable [Rope R]

theorem content (h : Rep b p) : b.content = p.doc.content := by
  rw [Buffer.content, h.chain, Doc.content, Page.doc]
  apply List.ext_getElem?
  intro i
  simp only [List.getElem?_map, List.getElem?_mapIdx, Option.map_map]
  rfl

theorem texts (h : Rep b p) : b.texts = p.doc.texts := by
  rw [Buffer.texts, h.upTo_last, h.chain, Doc.texts, Page.doc]
  apply List.ext_getElem?
  intro i
  simp only [List.getElem?_map, List.getElem?_take, List.getElem?_mapIdx]
  split
  · simp only [Option.map_map]
    rfl
  · rfl

theorem fits_iff (h : Rep b p) : b.Fits ↔ p.Fits := by
  constructor
  · intro hb k
    cases hr : p.rows[k]? with
    | none => simp [Page.strAt, hr, spSize]
    | some r =>
        rw [Page.strAt_of_row hr]
        exact hb (r.ptr, p.lineOf k r) (List.mem_of_getElem? (by rw [h.chain_getElem? k, hr]; rfl))
  · intro hp x hx
    obtain ⟨i, hi⟩ := List.getElem?_of_mem hx
    rw [h.chain_getElem?, Option.map_eq_some_iff] at hi
    obtain ⟨r, hr, rfl⟩ := hi
    have hfit := hp i
    rwa [Page.strAt_of_row hr] at hfit

theorem joinFits_iff (h : Rep b p) (id : Int) : b.JoinFits id ↔ p.JoinFits id := by
  obtain ⟨f, hf, hfirst⟩ := h.first_row
  constructor
  · intro hb ref c' hfind hc' hpos h0
    obtain ⟨c, hc, hcursor⟩ := h.curs_ok hc'
    obtain ⟨r, hr, rfl⟩ := Layout.cursor_row hcursor
    rw [Page.strAt_of_row hr]
    refine hb ref _ _ (by rw [h.bcursorFind, hfind]) hc (h.line hr) hpos ?_
    simp only [hfirst, ne_eq, h.row_ptr_inj hr hf]
    exact h0
  · intro hp ref c l hfind hc hl hpos hne
    rw [h.bcursorFind] at hfind
    have hsim := h.curs ref
    rw [hc] at hsim
    obtain ⟨c', hc', hcursor⟩ := hsim.of_ok_left
    obtain ⟨r, hr, rfl⟩ := Layout.cursor_row hcursor
    obtain rfl := Except.ok.inj ((h.line hr).symm.trans hl)
    simp only [hfirst, ne_eq, h.row_ptr_inj hr hf] at hne
    have hfit := hp ref c' (Except.ok.inj hfind) hc' hpos hne
    rwa [Page.strAt_of_row hr] at hfit

end Rep

variable [Rope R] {b : Buffer R} {d : Doc R}

namespace Holds

theorem content (h : Holds b d) : b.content = d.content := by
  obtain ⟨p, hrep, -, rfl⟩ := h
  exact hrep.content

theorem texts (h : Holds b d) : b.texts = d.texts := by
  obtain ⟨p, hrep, -, rfl⟩ := h
  exact hrep.texts

theorem numLines (h : Holds b d) : b.numLines = d.numLines := by
  obtain ⟨p, hrep, -, rfl⟩ := h
  exact hrep.numLines

theorem lineIdCnt (h : Holds b d) : b.lineIdCnt = d.lineIdCnt := by
  obtain ⟨p, hrep, -, rfl⟩ := h
  exact hrep.lineIdCnt

end Holds

end CoEditor
