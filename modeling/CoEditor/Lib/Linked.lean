-- SUMMARY: Doubly linked lists in a heap: the representation predicate and splicing.
import CoEditor.Lib.Heap
import Mathlib.Data.List.Nodup
import Mathlib.Data.List.Perm.Subperm

/-!
# Doubly linked lists

`Linked h ps` says that the cells at the addresses `ps` form one doubly linked
list in the order of `ps`: no address repeats, every cell is live, and the two
links of the cell at position `i` lead to positions `i - 1` and `i + 1`, or are
`NULL` at the two ends. The lemmas say what a change of the heap has to do to
the links for the list to stay linked after one cell is spliced in or out.
`Chain h p ps` only follows one of the links, from `p` to the end, as `Walk` follows
any function.
-/

namespace CoEditor

/-- Cells with a link to either side. -/
class Links (κ : Type) where
  prev : κ → Option Ptr
  next : κ → Option Ptr

variable {κ : Type} [Links κ]

/-- The address before position `i`, `NULL` at the front. -/
def prevAt (ps : List Ptr) (i : Nat) : Option Ptr :=
  if i = 0 then none else ps[i - 1]?

@[simp] theorem prevAt_zero (ps : List Ptr) : prevAt ps 0 = none := rfl

@[simp] theorem prevAt_succ (ps : List Ptr) (i : Nat) : prevAt ps (i + 1) = ps[i]? := by
  simp [prevAt]

/-- The cells at `ps` form one doubly linked list in that order. -/
structure Linked (h : Heap κ) (ps : List Ptr) : Prop where
  nodup : ps.Nodup
  cell : ∀ i p, ps[i]? = some p →
    ∃ x, h.get? p = some x ∧ Links.prev x = prevAt ps i ∧ Links.next x = ps[i + 1]?

namespace Linked

variable {h h' : Heap κ} {ps : List Ptr}

/-- An address stands at one position only. -/
theorem index_inj (hL : Linked h ps) {i j : Nat} {p : Ptr} (hi : ps[i]? = some p)
    (hj : ps[j]? = some p) : i = j := by
  have hlt : i < ps.length := (List.getElem?_eq_some_iff.mp hi).1
  exact (List.getElem?_inj hlt hL.nodup).mp (hi.trans hj.symm)

theorem live (hL : Linked h ps) {i : Nat} {p : Ptr} (hi : ps[i]? = some p) :
    ∃ x, h.get? p = some x := by
  obtain ⟨x, hx, -, -⟩ := hL.cell i p hi
  exact ⟨x, hx⟩

/-- A list stays linked as long as no link of its cells changes. -/
theorem congr (hL : Linked h ps)
    (hsame : ∀ p ∈ ps, ∀ x, h.get? p = some x →
      ∃ x', h'.get? p = some x' ∧ Links.prev x' = Links.prev x ∧ Links.next x' = Links.next x) :
    Linked h' ps where
  nodup := hL.nodup
  cell := by
    intro i p hi
    obtain ⟨x, hx, hprev, hnext⟩ := hL.cell i p hi
    obtain ⟨x', hx', hprev', hnext'⟩ := hsame p (List.mem_of_getElem? hi) x hx
    exact ⟨x', hx', hprev'.trans hprev, hnext'.trans hnext⟩

/-- Splicing in: the new cell points to its two neighbours and they point back. -/
theorem insert (hL : Linked h ps) {k : Nat} {q : Ptr} (hk : k ≤ ps.length) (hq : q ∉ ps)
    (hnew : ∃ x, h'.get? q = some x ∧ Links.prev x = prevAt ps k ∧ Links.next x = ps[k]?)
    (hold : ∀ i p x, ps[i]? = some p → h.get? p = some x →
      ∃ x', h'.get? p = some x' ∧
        Links.prev x' = (if i = k then some q else Links.prev x) ∧
        Links.next x' = (if i + 1 = k then some q else Links.next x)) :
    Linked h' (ps.insertIdx k q) where
  nodup := by
    rw [List.Perm.nodup_iff (List.perm_insertIdx q ps hk)]
    exact List.nodup_cons.mpr ⟨hq, hL.nodup⟩
  cell := by
    intro j p hj
    rcases Nat.lt_trichotomy j k with hlt | heq | hgt
    · rw [List.getElem?_insertIdx_of_lt hlt] at hj
      obtain ⟨x, hx, hprev, hnext⟩ := hL.cell j p hj
      obtain ⟨x', hx', hprev', hnext'⟩ := hold j p x hj hx
      refine ⟨x', hx', ?_, ?_⟩
      · rw [hprev', if_neg (by omega), hprev]
        cases j with
        | zero => simp
        | succ j => simp [List.getElem?_insertIdx_of_lt (show j < k by omega)]
      · rw [hnext']
        split
        · next hjk => subst hjk; simp [List.getElem?_insertIdx_self, hk]
        · next hjk => rw [hnext, List.getElem?_insertIdx_of_lt (by omega)]
    · subst heq
      rw [List.getElem?_insertIdx_self, if_pos hk] at hj
      obtain ⟨x, hx, hprev, hnext⟩ := hnew
      obtain rfl : q = p := by simpa using hj
      refine ⟨x, hx, ?_, ?_⟩
      · rw [hprev]
        cases j with
        | zero => simp
        | succ j => simp [List.getElem?_insertIdx_of_lt (Nat.lt_succ_self j)]
      · rw [hnext, List.getElem?_insertIdx_of_gt (Nat.lt_succ_self j)]
        simp
    · rw [List.getElem?_insertIdx_of_gt hgt] at hj
      obtain ⟨i, rfl⟩ : ∃ i, j = i + 1 := ⟨j - 1, by omega⟩
      simp only [Nat.add_sub_cancel] at hj
      obtain ⟨x, hx, hprev, hnext⟩ := hL.cell i p hj
      obtain ⟨x', hx', hprev', hnext'⟩ := hold i p x hj hx
      refine ⟨x', hx', ?_, ?_⟩
      · rw [hprev', prevAt_succ]
        split
        · next hik => subst hik; simp [List.getElem?_insertIdx_self, hk]
        · next hik =>
            rw [hprev, List.getElem?_insertIdx_of_gt (by omega)]
            cases i with
            | zero => omega
            | succ i => simp
      · rw [hnext', if_neg (by omega), hnext, List.getElem?_insertIdx_of_gt (by omega)]
        simp

/-- Splicing out: the two neighbours of the dropped cell point past it. -/
theorem erase (hL : Linked h ps) {k : Nat} (hk : k < ps.length)
    (hold : ∀ i p x, i ≠ k → ps[i]? = some p → h.get? p = some x →
      ∃ x', h'.get? p = some x' ∧
        Links.prev x' = (if i = k + 1 then prevAt ps k else Links.prev x) ∧
        Links.next x' = (if i + 1 = k then ps[k + 1]? else Links.next x)) :
    Linked h' (ps.eraseIdx k) where
  nodup := hL.nodup.eraseIdx k
  cell := by
    intro j p hj
    by_cases hlt : j < k
    · rw [List.getElem?_eraseIdx_of_lt hlt] at hj
      obtain ⟨x, hx, hprev, hnext⟩ := hL.cell j p hj
      obtain ⟨x', hx', hprev', hnext'⟩ := hold j p x (by omega) hj hx
      refine ⟨x', hx', ?_, ?_⟩
      · rw [hprev', if_neg (by omega), hprev]
        cases j with
        | zero => simp
        | succ j => simp [List.getElem?_eraseIdx_of_lt (show j < k by omega)]
      · rw [hnext']
        split
        · next hjk => rw [List.getElem?_eraseIdx_of_ge (by omega), hjk]
        · next hjk => rw [hnext, List.getElem?_eraseIdx_of_lt (by omega)]
    · rw [List.getElem?_eraseIdx_of_ge (by omega)] at hj
      obtain ⟨x, hx, hprev, hnext⟩ := hL.cell (j + 1) p hj
      obtain ⟨x', hx', hprev', hnext'⟩ := hold (j + 1) p x (by omega) hj hx
      refine ⟨x', hx', ?_, ?_⟩
      · rw [hprev']
        split
        · next hjk =>
            obtain rfl : j = k := by omega
            cases j with
            | zero => simp
            | succ j => simp [List.getElem?_eraseIdx_of_lt (Nat.lt_succ_self j)]
        · next hjk =>
            rw [hprev, prevAt_succ]
            cases j with
            | zero => omega
            | succ j => rw [prevAt_succ, List.getElem?_eraseIdx_of_ge (by omega)]
      · rw [hnext', if_neg (by omega), hnext, List.getElem?_eraseIdx_of_ge (by omega)]

end Linked

/-! ## Following a function -/

/-- From `a` on, `next` leads through `l`, and then nowhere. -/
inductive Walk {α : Type} (next : α → Option α) : α → List α → Prop where
  | stop {a : α} : next a = none → Walk next a [a]
  | step {a a' : α} {l : List α} : next a = some a' → Walk next a' l → Walk next a (a :: l)

namespace Walk

variable {α : Type} {next : α → Option α} {a : α} {l l' : List α}

theorem unique (hw : Walk next a l) (hw' : Walk next a l') : l = l' := by
  induction hw generalizing l' with
  | stop hnone =>
      cases hw' with
      | stop _ => rfl
      | step hnext _ => cases hnone.symm.trans hnext
  | step hnext _ ih =>
      cases hw' with
      | stop hnone => cases hnone.symm.trans hnext
      | step hnext' hrest =>
          obtain rfl := Option.some.inj (hnext.symm.trans hnext')
          rw [ih hrest]

/-- The walk from one of its places on. -/
theorem of_mem (hw : Walk next a l) {c : α} (hc : c ∈ l) : ∃ m, Walk next c m ∧ m.length ≤ l.length := by
  induction hw with
  | stop hnone =>
      obtain rfl := List.mem_singleton.mp hc
      exact ⟨_, .stop hnone, Nat.le_refl _⟩
  | step hnext hrest ih =>
      rcases List.mem_cons.mp hc with rfl | hc
      · exact ⟨_, .step hnext hrest, Nat.le_refl _⟩
      · obtain ⟨m, hm, hlen⟩ := ih hc
        exact ⟨m, hm, Nat.le_succ_of_le hlen⟩

/-- A walk that ends does not come back to a place. -/
theorem nodup (hw : Walk next a l) : l.Nodup := by
  induction hw with
  | stop _ => exact List.nodup_singleton _
  | step hnext hrest ih =>
      refine List.nodup_cons.mpr ⟨fun hmem => ?_, ih⟩
      obtain ⟨m, hm, hlen⟩ := hrest.of_mem hmem
      rw [hm.unique (.step hnext hrest), List.length_cons] at hlen
      omega

/-- All places but the last lead on. -/
theorem next_isSome (hw : Walk next a l) {c : α} (hc : c ∈ l.dropLast) : (next c).isSome := by
  induction hw with
  | stop _ => cases hc
  | @step a a' l hnext hrest ih =>
      have hne : l ≠ [] := by cases hrest <;> exact List.cons_ne_nil _ _
      rw [List.dropLast_cons_of_ne_nil hne] at hc
      rcases List.mem_cons.mp hc with rfl | hc
      · rw [hnext, Option.isSome_some]
      · exact ih hc

end Walk

/-! ## Following one link -/

/-- From `p` on, one after the other, come the cells at `ps`, and then `NULL`. -/
inductive Chain (h : Heap κ) : Option Ptr → List Ptr → Prop where
  | nil : Chain h none []
  | cons {p : Ptr} {x : κ} {ps : List Ptr} : h.get? p = some x → Chain h (Links.next x) ps → Chain h (some p) (p :: ps)

namespace Chain

variable {h h' : Heap κ} {p : Option Ptr} {ps qs : List Ptr}

theorem walk {p : Ptr} (hc : Chain h (some p) ps) : Walk (fun q => (h.get? q).bind Links.next) p ps := by
  induction ps generalizing p with
  | nil => cases hc
  | cons q ps ih =>
      cases hc with
      | @cons _ x _ hx hrest =>
          cases hnext : Links.next x with
          | none =>
              rw [hnext] at hrest
              cases hrest
              exact .stop (by simp [hx, hnext])
          | some r => exact .step (by simp [hx, hnext]) (ih (hnext ▸ hrest))

/-- A chain that ends does not come back to a cell. -/
theorem nodup (hc : Chain h p ps) : ps.Nodup := by
  cases hc with
  | nil => exact List.nodup_nil
  | cons hx hrest => exact (Chain.cons hx hrest).walk.nodup

theorem live (hc : Chain h p ps) {q : Ptr} (hq : q ∈ ps) : ∃ x, h.get? q = some x := by
  induction hc with
  | nil => cases hq
  | cons hx _ ih =>
      rcases List.mem_cons.mp hq with rfl | hq
      · exact ⟨_, hx⟩
      · exact ih hq

theorem length_le (hc : Chain h p ps) : ps.length ≤ h.cells.length := by
  have hsub : ps ⊆ List.range h.cells.length := fun q hq => by
    obtain ⟨x, hx⟩ := hc.live hq
    exact List.mem_range.mpr (Heap.lt_of_get? hx)
  simpa using (List.subperm_of_subset hc.nodup hsub).length_le

/-- A chain stays as long as no link of its cells changes. -/
theorem congr (hc : Chain h p ps)
    (hsame : ∀ q ∈ ps, ∀ x, h.get? q = some x → ∃ x', h'.get? q = some x' ∧ Links.next x' = Links.next x) : Chain h' p ps := by
  induction hc with
  | nil => exact .nil
  | cons hx _ ih =>
      rw [List.forall_mem_cons] at hsame
      obtain ⟨x', hx', hnext⟩ := hsame.1 _ hx
      refine .cons hx' ?_
      rw [hnext]
      exact ih hsame.2

end Chain

/-- A linked list is a chain from each of its cells on. -/
theorem Linked.chain {h : Heap κ} {ps : List Ptr} (hL : Linked h ps) : ∀ {d k : Nat}, k + d = ps.length → Chain h ps[k]? (ps.drop k) := by
  intro d
  induction d with
  | zero =>
      intro k hk
      rw [List.getElem?_eq_none (by omega), List.drop_eq_nil_of_le (by omega)]
      exact .nil
  | succ d ih =>
      intro k hk
      obtain ⟨p, hp⟩ : ∃ p, ps[k]? = some p := ⟨_, List.getElem?_eq_getElem (by omega)⟩
      obtain ⟨hlt, rfl⟩ := List.getElem?_eq_some_iff.mp hp
      obtain ⟨x, hx, -, hnext⟩ := hL.cell k _ hp
      rw [hp, List.drop_eq_getElem_cons hlt]
      refine .cons hx ?_
      rw [hnext]
      exact ih (by omega)

end CoEditor
