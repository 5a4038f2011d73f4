-- SUMMARY: What binit_onscreen_info makes of any chain of lines, whatever their flags were.
import CoEditor.Buffer.File

/-!
# Visibility recomputed

`binit_onscreen_info` walks along the chain once, with one flag for whether the
line before was on the screen and one for whether the own line was passed. The
flags of a line are set from these two alone.
-/

namespace CoEditor

variable {R : Type}

/-- Set the flags of one line. -/
def Heap.mark (h : Heap (Line R)) (p : Ptr) (onScreen : Bool) (where_ : Crp) : Heap (Line R) :=
  match h.get? p with
  | some l => h.set p { l with onScreen, where_ }
  | none => h

theorem Heap.get?_mark_ne {h : Heap (Line R)} {p q : Ptr} (hq : q ≠ p) (on : Bool) (wh : Crp) :
    (h.mark p on wh).get? q = h.get? q := by
  unfold Heap.mark
  split
  · exact Heap.get?_set_ne hq
  · rfl

theorem Heap.get?_mark_self {h : Heap (Line R)} {p : Ptr} {l : Line R} (hl : h.get? p = some l) (on : Bool) (wh : Crp) :
    (h.mark p on wh).get? p = some { l with onScreen := on, where_ := wh } := by
  rw [Heap.mark, hl]
  exact Heap.get?_set_self hl

theorem Heap.get?_mark_str (h : Heap (Line R)) (p q : Ptr) (on : Bool) (wh : Crp) :
    ((h.mark p on wh).get? q).map Line.str = (h.get? q).map Line.str := by
  by_cases hq : q = p
  · subst hq
    cases hl : h.get? q with
    | none => rw [Heap.mark, hl, hl]
    | some l => rw [Heap.get?_mark_self hl, Option.map_some, Option.map_some]
  · rw [Heap.get?_mark_ne hq]

theorem Chain.mark {h : Heap (Line R)} {p : Option Ptr} {ps : List Ptr} (hc : Chain h p ps) (q : Ptr) (on : Bool) (wh : Crp) :
    Chain (h.mark q on wh) p ps := by
  refine hc.congr fun r _ l hl => ?_
  by_cases hrq : r = q
  · subst hrq
    exact ⟨_, Heap.get?_mark_self hl on wh, rfl⟩
  · exact ⟨l, (Heap.get?_mark_ne hrq on wh).trans hl, rfl⟩

theorem Linked.mark {h : Heap (Line R)} {ps : List Ptr} (hL : Linked h ps) (q : Ptr) (on : Bool) (wh : Crp) :
    Linked (h.mark q on wh) ps := by
  refine hL.congr fun r _ l hl => ?_
  by_cases hrq : r = q
  · subst hrq
    exact ⟨_, Heap.get?_mark_self hl on wh, rfl, rfl⟩
  · exact ⟨l, (Heap.get?_mark_ne hrq on wh).trans hl, rfl, rfl⟩

/-- The walk of `binit_onscreen_info` along the lines `ps`, one round a line. -/
def binitWalk (top bottom : Option Ptr) (own : Ptr) : Bool → Crp → List Ptr → Heap (Line R) → Heap (Line R)
  | _, _, [], h => h
  | os, rel, p :: ps, h =>
      let os₁ := if os = false ∧ top = some p then true else os
      let os' := if os = true ∧ bottom = some p then false else os₁
      let atOwn := rel = .above ∧ p = own
      binitWalk top bottom own os' (if atOwn then .bellow else rel) ps (h.mark p os₁ (if atOwn then .same else rel))

/-- `binit_onscreen_info`, given up after `n` rounds of its loop. -/
def binitRounds (b : Buffer R) (n : Nat) : Except Fault (Buffer R) := do
  let own ← b.own
  let os : Bool := b.top = some b.first
  let rel : Crp := if own.ownLine = b.first then .same else .above
  let b ← b.modifyLine b.first ({ · with onScreen := os, where_ := rel })
  let l ← b.line b.first
  binitLoop b own.ownLine n os rel l.next

/-- As many rounds as there are lines in memory. -/
theorem binitOnscreenInfo_eq_rounds (b : Buffer R) : binitOnscreenInfo b = binitRounds b b.heap.cells.length := by
  refine bind_congr fun own => ?_
  cases hl : b.line b.first with
  | error e => simp [Buffer.modifyLine, hl]
  | ok l => simp [Buffer.modifyLine, hl, Heap.set]

/-- The lines when all have their flags; `ps` are those after the first. -/
def binitHeap (b : Buffer R) (own : Ptr) (ps : List Ptr) : Heap (Line R) :=
  let os : Bool := b.top = some b.first
  let rel : Crp := if own = b.first then .same else .above
  binitWalk b.top b.bottom own os rel ps (b.heap.mark b.first os rel)

theorem Linked.binitWalk {ps : List Ptr} {top bottom : Option Ptr} {own : Ptr} : ∀ {qs : List Ptr} {os : Bool} {rel : Crp}
    {h : Heap (Line R)}, Linked h ps → Linked (binitWalk top bottom own os rel qs h) ps := by
  intro qs
  induction qs with
  | nil => exact fun hL => hL
  | cons q qs ih => exact fun hL => ih (hL.mark q _ _)

theorem Linked.binitHeap {b : Buffer R} {ps : List Ptr} (hL : Linked b.heap ps) (own : Ptr) (qs : List Ptr) :
    Linked (binitHeap b own qs) ps := (hL.mark b.first _ _).binitWalk

theorem binitWalk_str (top bottom : Option Ptr) (own q : Ptr) : ∀ (ps : List Ptr) (os : Bool) (rel : Crp) (h : Heap (Line R)),
    ((binitWalk top bottom own os rel ps h).get? q).map Line.str = (h.get? q).map Line.str := by
  intro ps
  induction ps with
  | nil => exact fun _ _ _ => rfl
  | cons p ps ih => exact fun os rel h => (ih _ _ _).trans (h.get?_mark_str p q _ _)

/-- The flags are all that is set. -/
theorem binitHeap_str (b : Buffer R) (own : Ptr) (ps : List Ptr) (q : Ptr) :
    ((binitHeap b own ps).get? q).map Line.str = (b.heap.get? q).map Line.str :=
  (binitWalk_str _ _ _ q ps _ _ _).trans (b.heap.get?_mark_str _ q _ _)

section
variable {b : Buffer R} {own : Ptr} {lit : Option Ptr} {ps : List Ptr}

/-- The loop makes one round for every line that is left, neither more nor fewer. -/
theorem binitLoop_eq : ∀ {n : Nat} {os : Bool} {rel : Crp} {heap : Heap (Line R)} {lit : Option Ptr}, Chain heap lit ps →
    binitLoop { b with heap } own n os rel lit =
      if ps.length ≤ n then .ok { b with heap := binitWalk b.top b.bottom own os rel ps heap } else .error .endless := by
  induction ps with
  | nil =>
      intro n os rel heap lit hc
      cases hc
      cases n <;> rfl
  | cons p ps ih =>
      intro n os rel heap lit hc
      cases hc with
      | @cons _ l _ hl hrest =>
          cases n with
          | zero => rfl
          | succ n =>
              simp only [List.length_cons, Nat.add_le_add_iff_right, binitWalk]
              rw [← ih (hrest.mark p _ _)]
              rw [binitLoop]
              simp only [Buffer.modifyLine, Buffer.line, hl, Except.ok_bind_eq, Except.pure_eq_ok, Heap.get?_set_self hl]
              rw [Heap.mark, hl]
              rfl

theorem binitWalk_get?_notMem {top bottom : Option Ptr} {q : Ptr} (hq : q ∉ ps) : ∀ {os : Bool} {rel : Crp} {heap : Heap (Line R)},
    (binitWalk top bottom own os rel ps heap).get? q = heap.get? q := by
  induction ps with
  | nil => exact rfl
  | cons p ps ih =>
      intro os rel heap
      rw [List.mem_cons, not_or] at hq
      rw [binitWalk, ih hq.2, Heap.get?_mark_ne hq.1]

/-- After the walk the lines from row `i` to row `j` are on the screen, and no others; the walk starts at row `k`. -/
theorem binitWalk_visible {top bottom : Option Ptr} {i j : Nat} (hnodup : ps.Nodup) : ∀ {k : Nat} {os : Bool} {rel : Crp}
    {heap : Heap (Line R)}, (os = true ↔ i < k ∧ k ≤ j) → i < j → (∀ m p, ps[m]? = some p → (top = some p ↔ k + m = i)) →
    (∀ m p, ps[m]? = some p → (bottom = some p ↔ k + m = j)) →
    ∀ m p l, ps[m]? = some p → heap.get? p = some l → ∃ wh, (binitWalk top bottom own os rel ps heap).get? p =
      some { l with onScreen := decide (i ≤ k + m ∧ k + m ≤ j), where_ := wh } := by
  induction ps with
  | nil => exact fun _ _ _ _ m p l hm => nomatch hm
  | cons q ps ih =>
      intro k os rel heap hos hij htop hbottom m p l hm hl
      obtain ⟨hq, hnodup⟩ := List.nodup_cons.mp hnodup
      have htopq : top = some q ↔ k = i := htop 0 q rfl
      have hbottomq : bottom = some q ↔ k = j := hbottom 0 q rfl
      rw [binitWalk]
      -- the flag switches on at the top before it is written, and off at the bottom after it
      have hon : (if os = false ∧ top = some q then true else os) = decide (i ≤ k ∧ k ≤ j) := by
        rw [Bool.eq_iff_iff, decide_eq_true_eq]
        grind
      have hnext : (if os = true ∧ bottom = some q then false else decide (i ≤ k ∧ k ≤ j)) = true ↔ i < k + 1 ∧ k + 1 ≤ j := by
        grind
      simp only [hon]
      cases m with
      | zero =>
          obtain rfl : q = p := Option.some.inj hm
          rw [binitWalk_get?_notMem hq, Heap.get?_mark_self hl]
          exact ⟨_, rfl⟩
      | succ m =>
          have hm' : ps[m]? = some p := hm
          have hpq : p ≠ q := fun h => hq (h ▸ List.mem_of_getElem? hm')
          rw [show k + (m + 1) = k + 1 + m by omega]
          exact ih hnodup hnext hij (fun m p hm => by rw [htop (m + 1) p hm]; omega)
            (fun m p hm => by rw [hbottom (m + 1) p hm]; omega) m p l hm' ((Heap.get?_mark_ne hpq _ _).trans hl)

/-- After the first line the walk goes on along the others. -/
theorem binitRounds_eq {own : Cursor} (hchain : Chain b.heap (some b.first) (b.first :: ps)) (hown : b.own = .ok own) (n : Nat) :
    binitRounds b n =
      if ps.length ≤ n then .ok { b with heap := binitHeap b own.ownLine ps } else .error .endless := by
  cases hchain with
  | @cons _ l _ hl hrest =>
      rw [binitHeap, ← binitLoop_eq (hrest.mark b.first _ _)]
      simp only [binitRounds, hown, Buffer.modifyLine, Buffer.line, hl, Except.ok_bind_eq, Except.pure_eq_ok,
        Heap.get?_set_self hl]
      rw [Heap.mark, hl]
      rfl

theorem binitOnscreenInfo_eq {own : Cursor} (hchain : Chain b.heap (some b.first) (b.first :: ps)) (hown : b.own = .ok own) :
    binitOnscreenInfo b = .ok { b with heap := binitHeap b own.ownLine ps } := by
  have hfuel := hchain.length_le
  rw [List.length_cons] at hfuel
  rw [binitOnscreenInfo_eq_rounds, binitRounds_eq hchain hown, if_pos (by omega)]

/-- The lines from `top` to `bottom` are on the screen and no others, whatever the flags were; the loop makes one round
    for every line after the first. -/
theorem binitOnscreenInfo_visible {own : Cursor} {i j : Nat} (hchain : Chain b.heap (some b.first) ps)
    (hown : b.own = .ok own) (htop : b.top = ps[i]?) (hbottom : b.bottom = ps[j]?) (hij : i < j) (hj : j < ps.length) :
    ∃ heap, binitOnscreenInfo b = .ok { b with heap } ∧
      (∀ n, binitRounds b n = if ps.length ≤ n + 1 then .ok { b with heap } else .error .endless) ∧
      (∀ k p l, ps[k]? = some p → b.heap.get? p = some l →
        ∃ wh, heap.get? p = some { l with onScreen := decide (i ≤ k ∧ k ≤ j), where_ := wh }) ∧
      ∀ p, p ∉ ps → heap.get? p = b.heap.get? p := by
  have hnodup := hchain.nodup
  obtain ⟨rest, rfl⟩ : ∃ rest, ps = b.first :: rest := by
    cases hchain
    exact ⟨_, rfl⟩
  have hrounds := binitRounds_eq hchain hown
  have hplace : ∀ {m k p}, m < (b.first :: rest).length → (b.first :: rest)[k]? = some p →
      ((b.first :: rest)[m]? = some p ↔ k = m) := by
    intro m k p hm hk
    rw [← hk, List.getElem?_inj hm hnodup, eq_comm]
  have hos : b.top = some b.first ↔ 0 = i := htop ▸ hplace (by omega) rfl
  obtain ⟨hfirst, hnodup'⟩ := List.nodup_cons.mp hnodup
  refine ⟨binitHeap b own.ownLine rest, ?_, fun n => ?_, fun k p l hk hl => ?_, fun p hp => ?_⟩
  · exact binitOnscreenInfo_eq hchain hown
  · rw [hrounds, List.length_cons]
    simp only [Nat.add_le_add_iff_right]
  · cases k with
    | zero =>
        obtain rfl : b.first = p := Option.some.inj hk
        have hvisible : decide (b.top = some b.first) = decide (i ≤ 0 ∧ 0 ≤ j) := by
          rw [decide_eq_decide, hos]
          omega
        rw [binitHeap, binitWalk_get?_notMem hfirst, Heap.get?_mark_self hl, hvisible]
        exact ⟨_, rfl⟩
    | succ k =>
        have hk' : rest[k]? = some p := hk
        have hne : p ≠ b.first := fun h => hfirst (h ▸ List.mem_of_getElem? hk')
        rw [show k + 1 = 1 + k by omega]
        refine binitWalk_visible hnodup' ?_ hij ?_ ?_ k p l hk' ((Heap.get?_mark_ne hne _ _).trans hl)
        · rw [decide_eq_true_eq, hos]
          omega
        · intro m q hm
          rw [htop, hplace (by omega) (show (b.first :: rest)[m + 1]? = some q from hm), Nat.add_comm]
        · intro m q hm
          rw [hbottom, hplace hj (show (b.first :: rest)[m + 1]? = some q from hm), Nat.add_comm]
  · rw [List.mem_cons, not_or] at hp
    rw [binitHeap, binitWalk_get?_notMem hp.2, Heap.get?_mark_ne hp.1]

end

/-- Three lines, the last two of them in the window, with flags that say something else. -/
def threeLines : Buffer Bytes :=
  { bufferAlloc Bytes 1 2 80 with
    last := some 2
    top := some 1
    bottom := some 2
    ownCurs := some ⟨0, 1, 0⟩
    heap := ⟨[some ⟨0, [], none, some 1, true, .same⟩, some ⟨1, [], some 0, some 2, false, .same⟩,
      some ⟨2, [], some 1, none, true, .above⟩]⟩ }

theorem binitOnscreenInfo_visible_three : ∃ heap, binitOnscreenInfo threeLines = .ok { threeLines with heap } ∧
    (∀ n, binitRounds threeLines n = if 3 ≤ n + 1 then .ok { threeLines with heap } else .error .endless) ∧
    (∃ wh, heap.get? 0 = some ⟨0, [], none, some 1, false, wh⟩) ∧
    (∃ wh, heap.get? 1 = some ⟨1, [], some 0, some 2, true, wh⟩) ∧ ∃ wh, heap.get? 2 = some ⟨2, [], some 1, none, true, wh⟩ := by
  have hchain : Chain threeLines.heap (some threeLines.first) [0, 1, 2] := .cons rfl (.cons rfl (.cons rfl .nil))
  obtain ⟨heap, hrun, hrounds, hvisible, -⟩ :=
    binitOnscreenInfo_visible (i := 1) (j := 2) hchain rfl rfl rfl (by decide) (by decide)
  exact ⟨heap, hrun, hrounds, hvisible 0 0 _ rfl rfl, hvisible 1 1 _ rfl rfl, hvisible 2 2 _ rfl rfl⟩

end CoEditor
