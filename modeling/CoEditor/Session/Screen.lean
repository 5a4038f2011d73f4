-- SUMMARY: When a painting returns: the lines on the screen have no conversions in them and room in cstr, and the own cursor is on one of them.
import CoEditor.Session.Observe

/-!
# Paintings that return

`ui_update` takes the text of a line for a format, and copies it to a string of
fixed size. What it needs for that it needs of the lines from `top` on, one for
each row of the window. What the screen shows has no influence on it.
-/

namespace CoEditor

open Decimal

variable {R : Type}

/-- The chain of `b` is well linked, and the marks and the cursors of `b` are on it. -/
structure WellLinked (b : Buffer R) (ps : List Ptr) : Prop where
  linked : Linked b.heap ps
  first : ps[0]? = some b.first
  last : ∃ p ∈ ps, b.last = some p
  top : ∃ p ∈ ps, b.top = some p
  bottom : ∃ p ∈ ps, b.bottom = some p
  own : ∃ c, b.ownCurs = some c ∧ c.ownLine ∈ ps
  peers : ∀ c, some c ∈ b.peerCurss → c.ownLine ∈ ps

theorem Rep.wellLinked {b : Buffer R} {p : Page R} (h : Rep b p) : WellLinked b p.ptrs := by
  have hmark : ∀ {i}, i < p.rows.length → ∃ q ∈ p.ptrs, p.ptrs[i]? = some q := by
    intro i hi
    obtain ⟨r, hr⟩ := Page.exists_row hi
    exact ⟨r.ptr, List.mem_of_getElem? (Page.ptrs_of_row hr), Page.ptrs_of_row hr⟩
  have hcursor : ∀ {c' : PageCursor} {c : Cursor}, p.cursor c' = some c → c.ownLine ∈ p.ptrs := by
    intro c' c hc
    obtain ⟨r, hr, rfl⟩ := Layout.cursor_row hc
    exact List.mem_of_getElem? (Page.ptrs_of_row hr)
  obtain ⟨r, hr⟩ := Page.exists_row (h.curs_lt .own p.own rfl)
  have hown := Page.cursor_of_row hr
  refine ⟨h.linked, h.first, h.last ▸ hmark h.last_lt, h.top ▸ hmark h.top_lt, h.bottom ▸ hmark h.bottom_lt,
    ⟨_, h.own.trans hown, hcursor hown⟩, fun c hc => ?_⟩
  rw [h.peers] at hc
  obtain ⟨o, -, ho⟩ := List.mem_map.mp hc
  obtain ⟨d, -, hd⟩ := Option.bind_eq_some_iff.mp ho
  exact hcursor hd

namespace Buffer

/-- The lines from `top` on, at most as many as there are rows. -/
def shown (b : Buffer R) : List (Ptr × Line R) := (b.chain.dropWhile fun x => some x.1 ≠ b.top).take b.height.toNat

end Buffer

/-- As a format the string takes no argument. -/
def NoConversion (s : Bytes) : Prop := ∃ t, printf s = .ok t

instance (s : Bytes) : Decidable (NoConversion s) :=
  match h : printf s with
  | .ok t => .isTrue ⟨t, h⟩
  | .error _ => .isFalse fun ⟨t, ht⟩ => by rw [ht] at h; cases h

section
variable [Rope R]

/-- A line can be printed: it is a format without conversions, and has room in a `cstr` of `size` bytes. -/
def Prints (size : Int) (str : R) : Prop :=
  NoConversion (Rope.writeCstr str) ∧ ((Rope.writeCstr str).length : Int) + 1 ≤ size

instance (size : Int) (str : R) : Decidable (Prints size str) := inferInstanceAs (Decidable (_ ∧ _))

/-- Every line on the screen can be printed, and the own cursor is on one of them. -/
def Buffer.Showable (b : Buffer R) : Prop :=
  (∀ x ∈ b.shown, Prints b.cstrSize x.2.str) ∧ ∃ c ∈ b.ownCurs, c.ownLine ∈ b.shown.map Prod.fst

instance (b : Buffer R) : Decidable b.Showable := inferInstanceAs (Decidable (_ ∧ _))

end

/-! ## Lines in a row -/

/-- The lines from `lit` on, with their addresses. -/
inductive Trail (h : Heap (Line R)) : Option Ptr → List (Ptr × Line R) → Prop where
  | nil : Trail h none []
  | cons {q : Ptr} {l : Line R} {xs : List (Ptr × Line R)} : h.get? q = some l → Trail h l.next xs → Trail h (some q) ((q, l) :: xs)

namespace Trail

variable {h : Heap (Line R)} {lit : Option Ptr} {xs : List (Ptr × Line R)}

theorem head (ht : Trail h lit xs) : lit = (xs.map Prod.fst)[0]? := by
  cases ht <;> rfl

theorem drop (ht : Trail h lit xs) (k : Nat) : Trail h (xs.map Prod.fst)[k]? (xs.drop k) := by
  induction k generalizing lit xs with
  | zero =>
      rw [← ht.head, List.drop_zero]
      exact ht
  | succ k ih =>
      cases ht with
      | nil => exact .nil
      | cons _ ht => exact ih ht

theorem get? (ht : Trail h lit xs) : ∀ x ∈ xs, h.get? x.1 = some x.2 := by
  induction ht with
  | nil => exact fun _ hx => nomatch hx
  | cons hl _ ih => exact List.forall_mem_cons.mpr ⟨hl, ih⟩

end Trail

/-- The lines of a linked list are met one after the other. -/
theorem Linked.trail {h : Heap (Line R)} {ps : List Ptr} (hL : Linked h ps) : ∀ {d k n : Nat}, k + d = ps.length → d ≤ n →
    Trail h ps[k]? (chainFrom h n ps[k]?) ∧ (chainFrom h n ps[k]?).map Prod.fst = ps.drop k := by
  -- `d` lines are left from row `k` on, and `n` rounds are enough for them
  intro d
  induction d with
  | zero =>
      intro k n hk _
      rw [List.getElem?_eq_none (by omega), List.drop_of_length_le (by omega)]
      cases n <;> exact ⟨.nil, rfl⟩
  | succ d ih =>
      intro k m hk hm
      obtain ⟨n, rfl⟩ : ∃ n, m = n + 1 := ⟨m - 1, by omega⟩
      have hlt : k < ps.length := by omega
      obtain ⟨l, hl, -, hnext⟩ := hL.cell k ps[k] (List.getElem?_eq_getElem hlt)
      have hnext : l.next = ps[k + 1]? := hnext
      obtain ⟨ht, hptrs⟩ := ih (k := k + 1) (n := n) (by omega) (by omega)
      rw [List.getElem?_eq_getElem hlt, List.drop_eq_getElem_cons hlt]
      simp only [chainFrom, hl, hnext, List.map_cons, hptrs, and_true]
      exact .cons hl (hnext ▸ ht)

section
variable {b : Buffer R} {ps : List Ptr}

namespace WellLinked

/-- The addresses of the chain, and the chain from row `k` on. -/
theorem chain (h : WellLinked b ps) : b.chain.map Prod.fst = ps ∧ ∀ k, Trail b.heap ps[k]? (b.chain.drop k) := by
  have hlen : ps.length ≤ b.heap.cells.length := (h.linked.chain (k := 0) (Nat.zero_add _)).length_le
  obtain ⟨ht, hptrs⟩ := h.linked.trail (k := 0) (Nat.zero_add _) hlen
  rw [h.first] at ht hptrs
  have hptrs : b.chain.map Prod.fst = ps := hptrs
  exact ⟨hptrs, fun k => by rw [← hptrs]; exact ht.drop k⟩

/-- The chain is in memory. -/
theorem get?_of_chain (h : WellLinked b ps) {x : Ptr × Line R} (hx : x ∈ b.chain) : b.heap.get? x.1 = some x.2 :=
  (h.chain.2 0).get? x (by rwa [List.drop_zero])

/-- The line behind a pointer of the chain. -/
theorem line (h : WellLinked b ps) {q : Ptr} (hq : q ∈ ps) : ∃ l, b.line q = .ok l := by
  obtain ⟨i, hi⟩ := List.getElem?_of_mem hq
  obtain ⟨l, hl⟩ := h.linked.live hi
  exact ⟨l, by simp [Buffer.line, hl]⟩

theorem lineAt (h : WellLinked b ps) {o : Option Ptr} (ho : ∃ p ∈ ps, o = some p) : ∃ l, b.lineAt o = .ok l := by
  obtain ⟨q, hq, rfl⟩ := ho
  exact h.line hq

/-- From `top` on. -/
theorem dropWhile_top (h : WellLinked b ps) {k : Nat} (hk : ps[k]? = b.top) (hlt : k < ps.length) :
    (b.chain.dropWhile fun x => some x.1 ≠ b.top) = b.chain.drop k := by
  have hptrs := h.chain.1
  have hlen : b.chain.length = ps.length := by rw [← hptrs, List.length_map]
  -- no address comes twice, so row `k` is the only one at `top`
  have hat : ∀ i (hi : i < b.chain.length), some b.chain[i].1 = b.top ↔ i = k := by
    intro i hi
    have hget : ps[i]? = some b.chain[i].1 := by rw [← hptrs, List.getElem?_map, List.getElem?_eq_getElem hi, Option.map_some]
    rw [← hk, ← hget, List.getElem?_inj (by omega) h.linked.nodup]
  rw [List.dropWhile_eq_drop_findIdx_not]
  congr 1
  refine (List.findIdx_eq (hlen ▸ hlt)).mpr ⟨by simp [hat _ (hlen ▸ hlt)], fun i hi => ?_⟩
  have hne := (hat i (by omega)).not.mpr (Nat.ne_of_lt hi)
  simp [hne]

theorem shown (h : WellLinked b ps) {k : Nat} (hk : ps[k]? = b.top) (hlt : k < ps.length) :
    b.shown = (b.chain.drop k).take b.height.toNat := by rw [Buffer.shown, h.dropWhile_top hk hlt]

theorem shown_nodup (h : WellLinked b ps) : (b.shown.map Prod.fst).Nodup := by
  obtain ⟨q, hq, htop⟩ := h.top
  obtain ⟨k, hk⟩ := List.getElem?_of_mem hq
  rw [h.shown (hk.trans htop.symm) (List.getElem?_eq_some_iff.mp hk).1, List.map_take, List.map_drop, h.chain.1]
  exact (h.linked.nodup.sublist (List.drop_sublist _ _)).sublist (List.take_sublist _ _)

theorem peers_line (h : WellLinked b ps) : ∀ c, some c ∈ b.peerCurss → ∃ l, b.line c.ownLine = .ok l :=
  fun c hc => h.line (h.peers c hc)

end WellLinked

/-! ## The debug columns -/

/-- The debug columns of all lines. -/
def infoCalls : Nat → List (Ptr × Line R) → List UiCall → List UiCall
  | _, [], calls => calls
  | i, x :: xs, calls => infoCalls (i + 1) xs (calls ++ lineInfo i x.2)

theorem Trail.uiInfo {lit : Option Ptr} {xs : List (Ptr × Line R)} (ht : Trail b.heap lit xs) : ∀ {n i : Nat} {calls : List UiCall},
    xs.length ≤ n → CoEditor.uiInfo b n i lit calls = .ok (infoCalls i xs calls) := by
  induction ht with
  | nil =>
      intro n i calls _
      cases n <;> rfl
  | @cons q l xs hl _ ih =>
      intro n i calls hlen
      obtain ⟨n, rfl⟩ : ∃ m, n = m + 1 := ⟨n - 1, by simp at hlen; omega⟩
      have hline : b.line q = .ok l := by simp [Buffer.line, hl]
      rw [CoEditor.uiInfo, hline, Except.ok_bind_eq, ih (Nat.le_of_succ_le_succ hlen), infoCalls]

theorem WellLinked.uiInfo (h : WellLinked b ps) :
    CoEditor.uiInfo b b.heap.cells.length 0 (some b.first) [.clear] = .ok (infoCalls 0 b.chain [.clear]) := by
  have ht := h.chain.2 0
  rw [h.first, List.drop_zero] at ht
  refine ht.uiInfo ?_
  rw [← List.length_map (f := Prod.fst), h.chain.1]
  exact (h.linked.chain (k := 0) (Nat.zero_add _)).length_le

/-! ## The rows -/

theorem WellLinked.uiPeers_returns (h : WellLinked b ps) (inch : Inch) (i : Nat) (q : Ptr) (calls : List UiCall) :
    ∃ calls', uiPeers inch b i q calls = .ok calls' := by
  refine (Except.foldlM_returns_iff (P := fun _ => True) (Q := fun o => ∀ c, o = some c → ∃ l, b.line c.ownLine = .ok l)
    (fun o _ => ?_) (fun _ _ _ => trivial) b.peerCurss trivial).mpr fun o ho c hc => h.peers_line c (hc ▸ ho)
  cases o with
  | none => exact iff_of_true ⟨_, rfl⟩ fun _ hc => nomatch hc
  | some c =>
      simp only [Option.some.injEq, forall_eq']
      constructor
      · rintro ⟨calls', hrun⟩
        obtain ⟨l, hl, -⟩ := Except.bind_eq_ok.mp hrun
        exact ⟨l, hl⟩
      · rintro ⟨l, hl⟩
        rw [hl]
        exact ⟨_, rfl⟩

/-- Where the own cursor is met on the lines `xs`, which are in the rows from `i` on. -/
def metAt (own : Cursor) : Nat → List (Ptr × Line R) → Option (Int × Int) → Option (Int × Int)
  | _, [], pos => pos
  | i, x :: xs, pos => metAt own (i + 1) xs (if own.ownLine = x.1 then some ((i : Int), own.pos) else pos)

theorem metAt_of_notMem {own : Cursor} {xs : List (Ptr × Line R)} (hown : own.ownLine ∉ xs.map Prod.fst) (i : Nat)
    (pos : Option (Int × Int)) : metAt own i xs pos = pos := by
  induction xs generalizing i with
  | nil => rfl
  | cons x xs ih =>
      rw [List.map_cons, List.mem_cons, not_or] at hown
      rw [metAt, if_neg hown.1, ih hown.2]

theorem metAt_of_getElem? {own : Cursor} {xs : List (Ptr × Line R)} (hnodup : (xs.map Prod.fst).Nodup) {y : Nat}
    (hy : xs[y]?.map Prod.fst = some own.ownLine) (i : Nat) (pos : Option (Int × Int)) :
    metAt own i xs pos = some (((i + y : Nat) : Int), own.pos) := by
  induction xs generalizing i y pos with
  | nil => cases hy
  | cons x xs ih =>
      rw [List.map_cons, List.nodup_cons] at hnodup
      rw [metAt]
      cases y with
      | zero =>
          have hx : x.1 = own.ownLine := Option.some.inj hy
          rw [if_pos hx.symm, metAt_of_notMem (hx ▸ hnodup.1)]
          rfl
      | succ y =>
          rw [ih hnodup.2 hy, Nat.add_right_comm, Nat.add_assoc]

/-- The own cursor is met exactly on its own line. -/
theorem metAt_eq_none (own : Cursor) {xs : List (Ptr × Line R)} (hnodup : (xs.map Prod.fst).Nodup) (i : Nat) :
    metAt own i xs none = none ↔ own.ownLine ∉ xs.map Prod.fst := by
  refine ⟨fun hnone hmem => ?_, fun hmem => metAt_of_notMem hmem i none⟩
  obtain ⟨y, hy⟩ := List.getElem?_of_mem hmem
  rw [List.getElem?_map] at hy
  rw [metAt_of_getElem? hnodup hy] at hnone
  cases hnone

variable [Rope R]

/-- The loop over the rows returns exactly when the lines can be printed, and then knows where the own cursor was met. -/
theorem WellLinked.uiRows_returns (h : WellLinked b ps) (inch : Inch) {own : Cursor} (hown : b.own = .ok own) :
    ∀ {n : Nat} {lit : Option Ptr} {xs : List (Ptr × Line R)}, Trail b.heap lit xs → (xs = [] → n = 0) →
      ∀ (i : Nat) (calls : List UiCall) (pos : Option (Int × Int)),
        ((∃ r, CoEditor.uiRows inch b n i lit calls pos = .ok r) ↔ ∀ x ∈ xs.take n, Prints b.cstrSize x.2.str) ∧
          ∀ r, CoEditor.uiRows inch b n i lit calls pos = .ok r → r.2 = metAt own i (xs.take n) pos := by
  intro n
  induction n with
  | zero =>
      intro lit xs _ _ i calls pos
      rw [CoEditor.uiRows, List.take_zero]
      exact ⟨iff_of_true ⟨_, rfl⟩ (by simp), fun r hr => by rw [← Except.ok.inj hr]; rfl⟩
  | succ n ih =>
      intro lit xs ht hne i calls pos
      cases ht with
      | nil => cases hne rfl
      | @cons q l xs hl ht =>
          have hline : b.line q = .ok l := by simp [Buffer.line, hl]
          rw [CoEditor.uiRows, hown, Except.ok_bind_eq, hline, Except.ok_bind_eq, List.take_succ_cons, List.forall_mem_cons, metAt]
          -- the row stops at the text of its line, or goes on to the next row
          by_cases hfits : ((Rope.writeCstr l.str).length : Int) + 1 ≤ b.cstrSize
          · rw [Buffer.writeCstr, if_pos hfits, Except.ok_bind_eq]
            by_cases hplain : NoConversion (Rope.writeCstr l.str)
            · obtain ⟨t, ht'⟩ := hplain
              obtain ⟨calls', hpeers⟩ := h.uiPeers_returns inch i q (calls ++ [.mvprintw i 0 t, .mvprintw i 25 (bytes "   |" ++ digits l.id)])
              rw [ht', Except.ok_bind_eq, hpeers, Except.ok_bind_eq, and_iff_right (a := Prints b.cstrSize l.str) ⟨⟨t, ht'⟩, hfits⟩]
              cases hnext : l.next with
              | none =>
                  rw [hnext] at ht
                  cases ht
                  rw [List.take_nil, metAt]
                  exact ⟨iff_of_true ⟨_, rfl⟩ (by simp), fun r hr => by rw [← Except.ok.inj hr]⟩
              | some q' =>
                  rw [hnext] at ht
                  exact ih ht (fun hnil => by rw [hnil] at ht; cases ht) (i + 1) calls' _
            · obtain ⟨e, he⟩ : ∃ e, printf (Rope.writeCstr l.str) = .error e := by
                cases hrun : printf (Rope.writeCstr l.str) with
                | ok t => exact absurd ⟨t, hrun⟩ hplain
                | error e => exact ⟨e, rfl⟩
              rw [he, Except.error_bind_eq]
              exact ⟨iff_of_false (by simp) fun hall => hplain hall.1.1, by simp⟩
          · rw [Buffer.writeCstr, if_neg hfits, Except.error_bind_eq]
            exact ⟨iff_of_false (by simp) fun hall => hfits hall.1.2, by simp⟩

/-- A painting returns exactly when the window can be shown. -/
theorem WellLinked.uiUpdate_returns_iff (h : WellLinked b ps) (inch : Inch) :
    (∃ calls, CoEditor.uiUpdate inch b = .ok calls) ↔ b.Showable := by
  obtain ⟨own, hown, -⟩ := h.own
  have hownline : b.own = .ok own := by rw [Buffer.own, hown]
  obtain ⟨q, hq, htop⟩ := h.top
  obtain ⟨k, hk⟩ := List.getElem?_of_mem hq
  have hlt : k < ps.length := (List.getElem?_eq_some_iff.mp hk).1
  have hshown := h.shown (hk.trans htop.symm) hlt
  have hne : b.chain.drop k = [] → b.height.toNat = 0 := fun hnil => by
    have hlen := congrArg List.length h.chain.1
    rw [List.length_map] at hlen
    rw [List.drop_eq_nil_iff] at hnil
    omega
  have htrail := h.chain.2 k
  rw [hk, ← htop] at htrail
  obtain ⟨hreturns, hpos⟩ := h.uiRows_returns inch hownline htrail hne 0 (infoCalls 0 b.chain [.clear]) none
  rw [← hshown] at hreturns hpos
  have hfirst : ∃ p ∈ ps, some b.first = some p := ⟨b.first, List.mem_of_getElem? h.first, rfl⟩
  obtain ⟨first, hfirst⟩ := h.lineAt hfirst
  obtain ⟨last, hlast⟩ := h.lineAt h.last
  obtain ⟨topLine, htopLine⟩ := h.lineAt h.top
  obtain ⟨bottom, hbottom⟩ := h.lineAt h.bottom
  have hmet := metAt_eq_none own h.shown_nodup 0
  rw [Buffer.Showable, ← hreturns, CoEditor.uiUpdate, h.uiInfo, Except.ok_bind_eq]
  simp only [hown, Option.mem_some_iff, exists_eq_left']
  constructor
  · rintro ⟨calls, hrun⟩
    obtain ⟨⟨calls', pos⟩, hrows, hrun⟩ := Except.bind_eq_ok.mp hrun
    refine ⟨⟨_, hrows⟩, not_not.mp fun hno => ?_⟩
    have hnone : pos = none := (hpos _ hrows).trans (hmet.mpr hno)
    simp only [show b.line b.first = .ok first from hfirst, hlast, htopLine, hbottom, Except.ok_bind_eq, hnone] at hrun
    cases hrun
  · rintro ⟨⟨⟨calls', pos⟩, hrows⟩, hmem⟩
    have hsome : pos ≠ none := fun hnone => hmet.mp ((hpos _ hrows).symm.trans hnone) hmem
    obtain ⟨yx, rfl⟩ := Option.ne_none_iff_exists'.mp hsome
    rw [hrows]
    simp only [show b.line b.first = .ok first from hfirst, hlast, htopLine, hbottom, Except.ok_bind_eq]
    exact ⟨_, rfl⟩

/-! ## The fault of a painting -/

/-- Whether a painting returns, and how it fails if it does not, does not depend on what is on the screen. -/
theorem uiUpdate_fault (b : Buffer R) (inch inch' : Inch) : fault? (uiUpdate inch b) = fault? (uiUpdate inch' b) := by
  -- the screen is read at the peers only, and what is read there goes into the calls alone
  have hpeers : ∀ (i : Nat) (lit : Ptr) (calls calls' : List UiCall),
      Sim (fun _ _ => True) (uiPeers inch b i lit calls) (uiPeers inch' b i lit calls') := by
    intro i lit calls calls'
    refine Sim.foldlM _ (fun x y o _ => ?_) trivial
    cases o with
    | none => exact .ok trivial
    | some c => exact (Sim.refl _).bind fun l l' _ => .ok trivial
  have hrows : ∀ (n i : Nat) (lit : Option Ptr) (calls calls' : List UiCall) (pos : Option (Int × Int)),
      Sim (fun x y => x.2 = y.2) (uiRows inch b n i lit calls pos) (uiRows inch' b n i lit calls' pos) := by
    intro n
    induction n with
    | zero => exact fun i lit calls calls' pos => .ok rfl
    | succ n ih =>
        intro i lit calls calls' pos
        cases lit with
        | none => exact .error
        | some q =>
            rw [uiRows, uiRows]
            refine (Sim.refl _).bind fun own _ hown => ?_
            subst hown
            refine (Sim.refl _).bind fun l _ hl => ?_
            subst hl
            refine (Sim.refl _).bind fun cstr _ hcstr => ?_
            subst hcstr
            refine (Sim.refl _).bind fun s _ hs => ?_
            subst hs
            refine (hpeers i q _ _).bind fun x y _ => ?_
            cases l.next with
            | none => exact .ok rfl
            | some q' => exact ih (i + 1) (some q') x y _
  have hsim : Sim (fun _ _ => True) (uiUpdate inch b) (uiUpdate inch' b) := by
    refine (Sim.refl _).bind fun calls _ hcalls => ?_
    subst hcalls
    refine (hrows _ 0 b.top calls calls none).bind fun x y hxy => ?_
    obtain ⟨x, pos⟩ := x
    obtain ⟨y, pos'⟩ := y
    obtain rfl : pos = pos' := hxy
    refine (Sim.refl _).bind fun _ _ _ => (Sim.refl _).bind fun _ _ _ => (Sim.refl _).bind fun _ _ _ =>
      (Sim.refl _).bind fun _ _ _ => ?_
    cases pos with
    | none => exact .error
    | some yx => exact .ok trivial
  generalize uiUpdate inch b = x, uiUpdate inch' b = y at hsim
  cases hsim with
  | ok _ => rfl
  | error => rfl

/-- A painting of the buffer that returns leaves no trace. -/
theorem WellLinked.uiUpdate_paintFault (h : WellLinked b ps) (seen : Bool) : (b.uiUpdate seen).paintFault = none ↔
    b.paintFault = none ∧ (b.u = .ui → seen = true → b.Showable) := by
  unfold Buffer.uiUpdate
  cases hu : b.u with
  | unset => simp
  | null => simp
  | ui =>
      cases seen with
      | false => simp
      | true => simp [fault?_eq_none, h.uiUpdate_returns_iff]

end

/-! ## The screen of a page -/

section
variable [Rope R] {b b' : Buffer R} {p : Page R}

/-- The rows in the window can be printed, and the own cursor is in one of them. -/
def Page.Showable (p : Page R) : Prop :=
  (∀ i r, p.rows[i]? = some r → p.top ≤ i → i < p.top + p.height.toNat → Prints (p.width * p.height + 1) r.str) ∧
    p.top ≤ p.own.row ∧ p.own.row < p.top + p.height.toNat

omit [Rope R] in
theorem Rep.shown_getElem? (h : Rep b p) (i : Nat) : b.shown[i]? =
    if i < p.height.toNat then p.rows[p.top + i]?.map fun r => (r.ptr, p.lineOf (p.top + i) r) else none := by
  rw [h.wellLinked.shown h.top.symm (by rw [Page.ptrs_length]; exact h.top_lt), List.getElem?_take, List.getElem?_drop,
    h.chain_getElem?, h.height]

omit [Rope R] in
theorem Rep.mem_shown (h : Rep b p) {x : Ptr × Line R} : x ∈ b.shown ↔
    ∃ i r, p.rows[i]? = some r ∧ p.top ≤ i ∧ i < p.top + p.height.toNat ∧ x = (r.ptr, p.lineOf i r) := by
  rw [List.mem_iff_getElem?]
  simp only [h.shown_getElem?]
  constructor
  · rintro ⟨i, hi⟩
    split at hi
    · next hlt =>
        obtain ⟨r, hr, hx⟩ := Option.map_eq_some_iff.mp hi
        exact ⟨p.top + i, r, hr, Nat.le_add_right _ _, Nat.add_lt_add_left hlt _, hx.symm⟩
    · cases hi
  · rintro ⟨i, r, hr, hle, hlt, rfl⟩
    refine ⟨i - p.top, ?_⟩
    rw [if_pos (by omega), Nat.add_sub_of_le hle, hr]
    rfl

omit [Rope R] in
/-- The own cursor is on the screen exactly if its row is. -/
theorem Rep.own_shown_iff (h : Rep b p) : (∃ c ∈ b.ownCurs, c.ownLine ∈ b.shown.map Prod.fst) ↔
    p.top ≤ p.own.row ∧ p.own.row < p.top + p.height.toNat := by
  obtain ⟨r, hr⟩ := Page.exists_row (h.curs_lt .own p.own rfl)
  have hown : b.ownCurs = some ⟨p.own.id, r.ptr, p.own.pos⟩ := h.own.trans (Page.cursor_of_row hr)
  simp only [hown, Option.mem_some_iff, exists_eq_left', List.mem_map, h.mem_shown]
  constructor
  · rintro ⟨x, ⟨i, s, hs, hle, hlt, rfl⟩, hptr⟩
    obtain rfl : i = p.own.row := (h.row_ptr_inj hs hr).mp hptr
    exact ⟨hle, hlt⟩
  · rintro ⟨hle, hlt⟩
    exact ⟨_, ⟨p.own.row, r, hr, hle, hlt, rfl⟩, rfl⟩

omit [Rope R] in
theorem Rep.cstrSize (h : Rep b p) : b.cstrSize = p.width * p.height + 1 := by rw [Buffer.cstrSize, h.width, h.height]

theorem Rep.showable_iff (h : Rep b p) : b.Showable ↔ p.Showable := by
  rw [Buffer.Showable, Page.Showable, h.own_shown_iff, h.cstrSize]
  refine and_congr_left fun _ => ?_
  constructor
  · exact fun hall i r hr hle hlt => hall _ (h.mem_shown.mpr ⟨i, r, hr, hle, hlt, rfl⟩)
  · rintro hall x hx
    obtain ⟨i, r, hr, hle, hlt, rfl⟩ := h.mem_shown.mp hx
    exact hall i r hr hle hlt

/-- What is printed of a line is its text. -/
theorem prints_congr {size : Int} {r r' : R} (hchars : Rope.chars r = Rope.chars r') : Prints size r ↔ Prints size r' := by
  rw [Prints, Prints, Rope.writeCstr_eq, Rope.writeCstr_eq, hchars]

/-- A restored page shows the same. -/
theorem Page.restore_showable (p : Page R) (u : Bool) : (p.restore u).Showable ↔ p.Showable := by
  have hrow (i : Nat) : (p.restore u).rows[i]?.map (fun r => Rope.chars r.str) = p.rows[i]?.map fun r => Rope.chars r.str := by
    simp only [Page.restore, binit, unflagged, List.getElem?_mapIdx, restoreRows_getElem?, Option.map_map]
    cases p.rows[i]? with
    | none => rfl
    | some r => exact congrArg some (Rope.chars_reread r.str)
  refine and_congr ⟨fun hall i r hr hle hlt => ?_, fun hall i r hr hle hlt => ?_⟩ Iff.rfl
  · have hi := hrow i
    rw [hr] at hi
    obtain ⟨s, hs, hchars⟩ := Option.map_eq_some_iff.mp hi
    exact (prints_congr hchars).mp (hall i s hs hle hlt)
  · have hi := hrow i
    rw [hr] at hi
    obtain ⟨s, hs, hchars⟩ := Option.map_eq_some_iff.mp hi.symm
    exact (prints_congr hchars).mp (hall i s hs hle hlt)

/-! ## Calls -/

/-- A call that ends with a painting of what its quiet part has left. -/
theorem Rep.paintFault {b₁ : Buffer R} (hquiet : b₁.quiet = b.quiet) {seen : Bool} (h : Rep (b₁.uiUpdate seen) p) :
    (b₁.uiUpdate seen).paintFault = none ↔ b.paintFault = none ∧ (b.u = .ui → seen = true → p.Showable) := by
  have h₁ : Rep b₁ p := by
    unfold Buffer.uiUpdate at h
    split at h
    · exact { h with }
    · exact h
    · split at h
      · exact { h with }
      · exact h
  have hu : b₁.u = b.u := congrArg (·.1.1.2.1) hquiet
  have hfault : b₁.paintFault = b.paintFault := congrArg Prod.snd hquiet
  rw [h₁.wellLinked.uiUpdate_paintFault, h₁.showable_iff, hu, hfault]

/-! ## Snapshots -/

theorem lineNew_fixes (b : Buffer R) (id : Int) (prev next : Option Ptr) : FixesFst b.fixed (lineNew b id prev next) := by
  refine .read fun p => .read fun n => Yields.bind (P := fun c => c.fixed = b.fixed) ?_ fun c hc =>
    Yields.bind (P := fun c => c.fixed = b.fixed) ?_ fun c hc => .ok hc
  · exact (Buffer.modifyLineIf_quiet _ _ prev).keeps.fixes
  · rw [← hc]
    exact (Buffer.modifyLineIf_quiet _ _ next).keeps.fixes

theorem readLine_fixes (o : JsonObject) (b : Buffer R) (id : Int) (prev : Option Ptr) : FixesFst b.fixed (readLine o b id prev) := by
  refine (lineNew_fixes b id prev none).bind fun r hr => ?_
  dsimp only
  split
  · exact .error _
  · exact (r.1.modifyLine_quiet _ _).keeps.fixes.bind fun c hc => .ok (hc.trans hr)

theorem readLines_fixes (o : JsonObject) : ∀ (fuel : Nat) (b : Buffer R) (lit : Ptr) (id : Int),
    FixesFst b.fixed (readLines o b lit id fuel) := by
  intro fuel
  induction fuel with
  | zero =>
      intro b lit id
      rw [readLines]
      split
      · exact .error _
      · exact .ok rfl
  | succ fuel ih =>
      intro b lit id
      rw [readLines]
      split
      · refine (readLine_fixes o b _ _).bind fun r hr => ?_
        rw [← hr]
        exact ih r.1 r.2 _
      · exact .ok rfl

theorem readChain_fixes (o : JsonObject) (b : Buffer R) : FixesFst b.fixed (readChain o b) := by
  refine (readLine_fixes o b _ none).bind fun r hr => ?_
  rw [← hr]
  refine (readLine_fixes o { r.1 with first := r.2 } _ _).bind fun r' hr' => ?_
  have hr' : r'.1.fixed = r.1.fixed := hr'
  rw [← hr']
  exact readLines_fixes o _ r'.1 r'.2 _

omit [Rope R] in
theorem readMarks_fixes (o : JsonObject) (b : Buffer R) (lit : Ptr) : Fixes b.fixed (readMarks o b lit) :=
  .read fun _ => .read fun _ => .read fun _ => .ok rfl

theorem readOwn_fixes (o : JsonObject) (b : Buffer R) : Fixes b.fixed (readOwn o b) := by
  unfold readOwn
  dsimp only
  split
  · exact .error _
  · exact (bcursorNew_keeps b _ _ _).fixes.map fun _ h => h

theorem readPeer_fixes (o : JsonObject) (b : Buffer R) (i : Nat) : Fixes b.fixed (readPeer o b i) := by
  unfold readPeer
  split
  · exact (bcursorNew_keeps b _ _ _).fixes.map fun _ h => h
  · exact .ok rfl

/-- The end of `buffer_deserialize`. -/
def Buffer.withUi (b : Buffer R) (u : Bool) : Buffer R :=
  if u then { b with u := .ui }.uiUpdate true else { b with u := .null, serverMode := true }

/-- Nothing is painted until all is read. -/
theorem readBuffer_unpainted (o : JsonObject) (u : Bool) : Yields (fun b' => ∃ b : Buffer R,
    b.fixed = (readAttrs (R := R) o).fixed ∧ b.paintFault = none ∧ b' = b.withUi u) (readBuffer o u) := by
  unfold readBuffer
  refine (readChain_fixes o (readAttrs o)).bind fun r hr => (readMarks_fixes o r.1 r.2).bind fun b hb =>
    (readOwn_fixes o b).bind fun b₁ hb₁ => ?_
  refine Yields.bind (P := fun c => c.fixed = b₁.fixed) ?_ fun b₂ hb₂ => (binitOnscreenInfo_quiet b₂).keeps.fixes.bind fun b₃ hb₃ => ?_
  · exact Yields.foldlM (g := Buffer.fixed) (fun b i => readPeer_fixes o b i) _ { b₁ with peerCurss := List.replicate maxCursorNum none }
  · have hfixed : b₃.fixed = (readAttrs o).fixed := hb₃.trans (hb₂.trans (hb₁.trans (hb.trans hr)))
    exact .ok ⟨b₃, hfixed, Buffer.paintFault_of_fixed UiPtr.noConfusion hfixed, rfl⟩

omit [Rope R] in
/-- What is painted stays as it is. -/
theorem WellLinked.congr {ps : List Ptr} (h : WellLinked b ps) (hheap : b'.heap = b.heap) (hfirst : b'.first = b.first)
    (hlast : b'.last = b.last) (htop : b'.top = b.top) (hbottom : b'.bottom = b.bottom) (hown : b'.ownCurs = b.ownCurs)
    (hpeers : b'.peerCurss = b.peerCurss) : WellLinked b' ps :=
  ⟨hheap ▸ h.linked, hfirst ▸ h.first, hlast ▸ h.last, htop ▸ h.top, hbottom ▸ h.bottom, hown ▸ h.own, hpeers ▸ h.peers⟩

/-- What a snapshot is read into is painted without a fault exactly if it can be shown. -/
theorem readBuffer_paintFault {o : JsonObject} {u : Bool} (hrun : readBuffer o u = .ok b') {ps : List Ptr}
    (hwell : WellLinked b' ps) : b'.paintFault = none ↔ (u = true → b'.Showable) := by
  obtain ⟨b, -, hfault, rfl⟩ := readBuffer_unpainted o u b' hrun
  cases u with
  | false => simp [Buffer.withUi, hfault]
  | true =>
      have hui : WellLinked ({ b with u := .ui } : Buffer R) ps := hwell.congr rfl rfl rfl rfl rfl rfl rfl
      have hpaint := hui.uiUpdate_paintFault true
      exact hpaint.trans ⟨fun h _ => h.2 rfl rfl, fun h => ⟨hfault, fun _ _ => h rfl⟩⟩

end

end CoEditor
