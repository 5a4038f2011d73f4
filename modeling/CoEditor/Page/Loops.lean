-- SUMMARY: The loops over all cursors: splitting a line, joining two lines, leaving a deleted line.
import CoEditor.Page.Frame

/-!
# Loops over the cursors

A split, a join and a deletion each visit every cursor, look some of them up
again by id and move them. As long as no two cursors have one id, such a loop
changes every cursor on its own, whatever the order of the slots.
-/

namespace CoEditor

variable {R : Type}

namespace Page

/-! ## One visit to each cursor -/

section Visit

variable {p : Page R} {f : Page R → CursRef → PageCursor → Except Fault (Page R)}
  {g : CursRef → PageCursor → PageCursor}

/-- The cursors in `todo` are those of `p`, the others are mapped by `g`. -/
structure Visited (p : Page R) (g : CursRef → PageCursor → PageCursor) (todo : List CursRef)
    (q : Page R) : Prop where
  moved : Moved p q
  curs : ∀ ref c, p.curs ref = .ok c → q.curs ref = .ok (if ref ∈ todo then c else g ref c)

/-- Visiting a cursor maps it by `g` and changes no other; only a visit to the own cursor
    changes the view. -/
def Visits (p : Page R) (f : Page R → CursRef → PageCursor → Except Fault (Page R))
    (g : CursRef → PageCursor → PageCursor) : Prop :=
  ∀ q todo ref o, Visited p g todo q → p.curs ref = .ok o → q.curs ref = .ok o →
    ∃ q', f q ref o = .ok q' ∧ Moved q q' ∧ q'.curs ref = .ok (g ref o) ∧
      (∀ ref' ≠ ref, q'.curs ref' = q.curs ref') ∧ (ref ≠ .own → SameView q q')

theorem Visits.step (hf : Visits p f g) {q : Page R} {ref : CursRef} {todo : List CursRef}
    {o : PageCursor} (hq : Visited p g (ref :: todo) q) (href : ref ∉ todo)
    (ho : p.curs ref = .ok o) :
    ∃ q', f q ref o = .ok q' ∧ Visited p g todo q' ∧ (ref ≠ .own → SameView q q') := by
  have hqo : q.curs ref = .ok o := by simpa using hq.curs ref o ho
  obtain ⟨q', hrun, hmoved, hself, hother, hview⟩ := hf q _ ref o hq ho hqo
  refine ⟨q', hrun, ⟨hq.moved.trans hmoved, ?_⟩, hview⟩
  intro ref' c hc
  by_cases hne : ref' = ref
  · subst hne
    obtain rfl : o = c := Except.ok.inj (ho.symm.trans hc)
    rw [hself, if_neg href]
  · rw [hother ref' hne, hq.curs ref' c hc]
    simp [hne]

theorem Visits.foldlM (hf : Visits p f g) (l : List Nat) :
    ∀ {q : Page R}, l.Nodup → Visited p g (l.map .peer) q →
      ∃ q', l.foldlM (fun q i =>
          match q.peers[i]?.join with
          | none => pure q
          | some o => f q (.peer i) o) q = .ok q' ∧ Visited p g [] q' ∧ SameView q q' := by
  induction l with
  | nil => exact fun _ hq => ⟨_, rfl, hq, .refl _⟩
  | cons i l ih =>
      intro q hnodup hq
      obtain ⟨hi, hl⟩ := List.nodup_cons.mp hnodup
      have hi' : CursRef.peer i ∉ l.map CursRef.peer := by simpa using hi
      rw [List.foldlM_cons]
      cases hj : q.peers[i]?.join with
      | none =>
          refine ih hl ⟨hq.moved, fun ref c hc => ?_⟩
          have hne : ref ≠ .peer i := by
            rintro rfl
            have hqc := hq.curs _ c hc
            rw [← curs_peer_join, hj] at hqc
            cases hqc
          simpa [hne] using hq.curs ref c hc
      | some o =>
          obtain ⟨d, hd, -⟩ := hq.moved.curs_back (curs_peer_join.mp hj)
          obtain rfl : d = o := by
            have hqd := hq.curs _ d hd
            rw [← curs_peer_join, hj] at hqd
            simpa using hqd.symm
          obtain ⟨q', hrun, hq', hview⟩ := hf.step hq hi' hd
          simp only [hrun, Except.ok_bind_eq]
          obtain ⟨q'', hrun', hq'', hview'⟩ := ih hl hq'
          exact ⟨q'', hrun', hq'', (hview (by simp)).trans hview'⟩

/-- A loop over all cursors maps each of them, and shows what its visit to the own cursor shows. -/
theorem Visits.forCurs (hf : Visits p f g) (hslots : p.peers.length = maxCursorNum) :
    ∃ q, p.forCurs f = .ok q ∧ Moved p q ∧
      (∀ ref c, p.curs ref = .ok c → q.curs ref = .ok (g ref c)) ∧
      ∃ q₁, f p .own p.own = .ok q₁ ∧ SameView q₁ q := by
  have hstart : Visited p g (.own :: (List.range maxCursorNum).map .peer) p := by
    refine ⟨.refl p, fun ref c hc => ?_⟩
    rw [if_pos, hc]
    cases ref with
    | own => simp
    | peer i =>
        have hlt := (List.getElem?_eq_some_iff.mp (curs_peer.mp hc)).1
        rw [hslots] at hlt
        simp [hlt]
  obtain ⟨q₁, hrun₁, hq₁, -⟩ := hf.step hstart (by simp) (rfl : p.curs .own = .ok p.own)
  obtain ⟨q₂, hrun₂, hq₂, hview⟩ := hf.foldlM (List.range maxCursorNum) List.nodup_range hq₁
  refine ⟨q₂, ?_, hq₂.moved, fun ref c hc => by simpa using hq₂.curs ref c hc, q₁, hrun₁, hview⟩
  rw [Page.forCurs, hrun₁, Except.ok_bind_eq]
  exact hrun₂

end Visit

/-! ## The three bodies -/

variable [Rope R]

/-- Where `splitOther` takes cursor `o`. -/
def splitCursor (p : Page R) (c : CursRef) (cur : PageCursor) (ref : CursRef) (o : PageCursor) :
    PageCursor :=
  if after c cur ref o then (p.cursorMove { o with pos := o.pos - cur.pos } .down).1 else o

/-- Where `joinOther` takes cursor `o`. -/
def joinCursor (p : Page R) (c : CursRef) (cur : PageCursor) (ref : CursRef) (o : PageCursor) :
    PageCursor :=
  if c ≠ ref ∧ cur.row + 1 = o.row then
    { (p.cursorMove o .up).1 with pos := (p.cursorMove o .up).1.pos + cur.pos }
  else o

theorem splitOther_visits {p : Page R} (hD : p.Distinct) {c : CursRef} {cur : PageCursor}
    (hcur : p.curs c = .ok cur) : Visits p (splitOther · c) (p.splitCursor c cur) := by
  intro q todo ref o hq ho hqo
  have hself : p.splitCursor c cur c cur = cur := by simp [splitCursor, after]
  have hqc : q.curs c = .ok cur := by simpa [hself] using hq.curs c cur hcur
  simp only [splitOther, hqc, Except.ok_bind_eq, splitCursor]
  by_cases hafter : after c cur ref o
  · simp only [hafter, if_true]
    have hset := setCurs_moved hqo (show ({ o with pos := o.pos - cur.pos } : PageCursor).id = o.id from rfl)
    have hset' := curs_setCurs_self hqo { o with pos := o.pos - cur.pos }
    have hrun := bcursorMove_of_curs ((hq.moved.trans hset).distinct hD) hset' .down
    obtain ⟨hmoved, hto, hrest⟩ := moveCurs_spec hset' .down
    refine ⟨_, hrun, hset.trans hmoved, ?_, ?_, ?_⟩
    · rw [hto, (hq.moved.trans hset).cursorMove]
    · intro ref' hne
      rw [hrest ref' hne, curs_setCurs_ne hne]
    · intro hpeer
      cases ref with
      | own => exact absurd rfl hpeer
      | peer i => exact (setCurs_sameView ..).trans (moveCurs_sameView ..)
  · simp only [hafter, Bool.false_eq_true, if_false]
    exact ⟨q, rfl, .refl q, hqo, fun _ _ => rfl, fun _ => .refl q⟩

theorem joinOther_visits {p : Page R} (hD : p.Distinct) {c : CursRef} {cur : PageCursor}
    (hcur : p.curs c = .ok cur) : Visits p (joinOther · c) (p.joinCursor c cur) := by
  intro q todo ref o hq ho hqo
  have hself : p.joinCursor c cur c cur = cur := by simp [joinCursor]
  have hqc : q.curs c = .ok cur := by simpa [hself] using hq.curs c cur hcur
  simp only [joinOther, hqc, Except.ok_bind_eq, joinCursor]
  by_cases hbelow : c ≠ ref ∧ cur.row + 1 = o.row
  · simp only [if_pos hbelow]
    have hrun := bcursorMove_of_curs (hq.moved.distinct hD) hqo .up
    obtain ⟨hmoved, hto, hrest⟩ := moveCurs_spec hqo .up
    have hqc' := (hrest c hbelow.1).trans hqc
    simp only [hrun, hto, hqc', Except.ok_bind_eq]
    refine ⟨_, rfl, hmoved.trans (setCurs_moved hto rfl), ?_, ?_, ?_⟩
    · rw [curs_setCurs_self hto, hq.moved.cursorMove]
    · intro ref' hne
      rw [curs_setCurs_ne hne, hrest ref' hne]
    · intro hpeer
      cases ref with
      | own => exact absurd rfl hpeer
      | peer i => exact (moveCurs_sameView ..).trans (setCurs_sameView ..)
  · simp only [hbelow, if_false]
    exact ⟨q, rfl, .refl q, hqo, fun _ _ => rfl, fun _ => .refl q⟩

/-- With no cursor on row `k` nobody has to leave it. -/
theorem leaveRow_noop {p : Page R} {k : Nat} (h : ∀ ref c, p.curs ref = .ok c → c.row ≠ k) :
    p.forCurs (fun q _ o => q.leaveRow k o) = .ok p := by
  have hloop : ∀ l : List Nat, l.foldlM (fun q i =>
      match q.peers[i]?.join with
      | none => pure q
      | some o => q.leaveRow k o) p = .ok p := by
    intro l
    induction l with
    | nil => rfl
    | cons i l ih =>
        rw [List.foldlM_cons]
        cases hj : p.peers[i]?.join with
        | none => exact ih
        | some o =>
            simp only [leaveRow, runIf_neg (h _ o (curs_peer_join.mp hj)), Except.ok_bind_eq]
            exact ih
  rw [forCurs, leaveRow, runIf_neg (h .own p.own rfl), Except.ok_bind_eq]
  exact hloop _

end Page

end CoEditor
