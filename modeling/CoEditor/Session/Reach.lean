-- SUMMARY: The buffers that arise in a session, and that each of them holds a document and shows a full screen of it.
import CoEditor.Session.Load
import CoEditor.Session.Restore

/-!
# Reachable buffers

A buffer comes from a file or from a snapshot of another one, and goes on with
calls that return. Nothing is assumed of the contents of the file or of the
bytes typed.
-/

namespace CoEditor

variable {R : Type} [Rope R]

/-- Buffer `b` has a cursor with id `id`. -/
def HasCurs (b : Buffer R) (id : Int) : Prop := ∃ c, bcursorFind b id = .ok (some c)

instance (b : Buffer R) (id : Int) : Decidable (HasCurs b id) :=
  match h : bcursorFind b id with
  | .ok (some c) => .isTrue ⟨c, h⟩
  | .ok none => .isFalse fun ⟨c, hc⟩ => by rw [h] at hc; cases hc
  | .error _ => .isFalse fun ⟨c, hc⟩ => by rw [h] at hc; cases hc

instance (used : Int → Prop) [DecidablePred used] (op : Op) : Decidable (op.Legal used) := by
  cases op <;> unfold Op.Legal <;> infer_instance

/-- The buffers of height at least two that arise when every call meets `ok`. No call gives a new
    cursor an id in use. -/
inductive Reached (ok : Buffer R → Op → Prop) : Buffer R → Prop where
  | load {data : Bytes} {id height width : Int} {ui : Bool} {b : Buffer R} : 2 ≤ height →
      bufferFromFile data id height width ui = .ok b → Reached ok b
  | reload {b b' : Buffer R} {s : Bytes} {u : Bool} : Reached ok b → bufferSerialize b = .ok s →
      bufferDeserialize s u = .ok b' → Reached ok b'
  | step {b b' : Buffer R} {op : Op} {res : Bres} : Reached ok b → op.Legal (HasCurs b) → ok b op →
      op.run b = .ok (b', res) → Reached ok b'

/-- The buffers of height at least two that arise in a session. -/
abbrev Reachable : Buffer R → Prop := Reached fun _ _ => True

/-- Make the calls `ops`, if they are legal and return. -/
def replay (b : Buffer R) : List Op → Option (Buffer R)
  | [] => some b
  | op :: ops =>
      if op.Legal (HasCurs b) then
        match op.run b with
        | .ok (b, _) => replay b ops
        | .error _ => none
      else none

theorem Reached.replay_of {ok : Buffer R → Op → Prop} {ops : List Op} (hok : ∀ op ∈ ops, ∀ b, ok b op) :
    ∀ {b b' : Buffer R}, Reached ok b → CoEditor.replay b ops = some b' → Reached ok b' := by
  induction ops with
  | nil =>
      intro b b' hb h
      cases h
      exact hb
  | cons op ops ih =>
      intro b b' hb h
      rw [CoEditor.replay] at h
      split at h
      · next hlegal =>
          split at h
          · next b₁ res hrun =>
              exact ih (fun op' hop' => hok op' (List.mem_cons_of_mem _ hop')) (.step hb hlegal (hok op (List.mem_cons_self ..) b) hrun) h
          · cases h
      · cases h

theorem Reached.replay {ops : List Op} {b b' : Buffer R} (hb : Reachable b) (h : CoEditor.replay b ops = some b') : Reachable b' :=
  hb.replay_of (fun _ _ _ => trivial) h

/-! ## Invariants of a session -/

omit [Rope R] in
/-- The cursors of a buffer are those of its document. -/
theorem Rep.hasCurs {b : Buffer R} {p : Page R} (h : Rep b p) (id : Int) :
    HasCurs b id ↔ p.doc.curs id ≠ none := by
  rw [HasCurs, h.bcursorFind id, Ne, Page.doc_curs_eq_none, ← Page.find_eq_none]
  simp only [Except.ok.injEq]
  exact Option.ne_none_iff_exists'.symm

theorem Op.Legal.congr {used used' : Int → Prop} (h : ∀ id, used id ↔ used' id) {op : Op} :
    op.Legal used ↔ op.Legal used' := by
  cases op <;> simp only [Op.Legal, h]

variable {b b' : Buffer R} {d : Doc R}

theorem Holds.hasCurs (h : Holds b d) (id : Int) : HasCurs b id ↔ d.curs id ≠ none := by
  obtain ⟨p, hrep, -, rfl⟩ := h
  exact hrep.hasCurs id

theorem HoldsSound.hasCurs (h : HoldsSound b d) (id : Int) : HasCurs b id ↔ d.curs id ≠ none := h.holds.hasCurs id

/-- A snapshot of a buffer is read back as its restored document. -/
theorem HoldsSound.reload (h : HoldsSound b d) {s : Bytes} {u : Bool} (hs : bufferSerialize b = .ok s)
    (hrun : bufferDeserialize s u = .ok b') : HoldsSound b' (d.restore u) := by
  obtain ⟨p, hrep, hsound, rfl⟩ := h
  obtain ⟨s', b'', hs', hrun', hrep'⟩ := hrep.restore hsound.toGood (hsound.top_le_last hrep.bottom_lt)
    (hrep.fits hs) u
  obtain rfl := Except.ok.inj (hs.symm.trans hs')
  obtain rfl := Except.ok.inj (hrun.symm.trans hrun')
  exact ⟨_, hrep', hsound.restore u, (hsound.toGood.restore u).2⟩

theorem HoldsExact.reload (h : HoldsExact b d) {s : Bytes} {u : Bool} (hs : bufferSerialize b = .ok s)
    (hrun : bufferDeserialize s u = .ok b') : HoldsExact b' (d.restore u) := by
  obtain ⟨p, hrep, hexact, rfl⟩ := h
  obtain ⟨s', b'', hs', hrun', hrep'⟩ := hrep.restore hexact.toGood (hexact.sound.top_le_last hrep.bottom_lt)
    (hrep.fits hs) u
  obtain rfl := Except.ok.inj (hs.symm.trans hs')
  obtain rfl := Except.ok.inj (hrun.symm.trans hrun')
  exact ⟨_, hrep', hexact.restore u, (hexact.toGood.restore u).2⟩

/-- What holds of the loaded documents and is kept by snapshots and by the effects of the calls that
    meet `ok` holds of every document in a session. -/
theorem Reached.induct {ok : Buffer R → Op → Prop} (Inv : Doc R → Prop)
    (hload : ∀ data width (n : Nat) ui, 2 ≤ n → Inv (Doc.load data width n ui))
    (hrestore : ∀ d u, d.Wf → Inv d → Inv (d.restore u))
    (hstep : ∀ {b : Buffer R} {d e : Doc R} {op : Op} {res : Bres}, HoldsSound b d → Inv d → ok b op →
      op.Effect d res e → Inv e)
    (h : Reached ok b) : ∃ d, HoldsSound b d ∧ Inv d := by
  induction h with
  | load hh hrun =>
      rename_i data id height width ui b
      obtain ⟨n, rfl⟩ : ∃ n : Nat, height = n := ⟨height.toNat, by omega⟩
      obtain ⟨b', hrun', hholds⟩ := bufferFromFile_exact (R := R) data id width (n := n) (by omega) ui
      obtain rfl := Except.ok.inj (hrun.symm.trans hrun')
      exact ⟨_, hholds.sound, hload data width n ui (by omega)⟩
  | reload _ hs hrun ih =>
      obtain ⟨d, hholds, hinv⟩ := ih
      exact ⟨_, hholds.reload hs hrun, hrestore d _ hholds.holds.wf hinv⟩
  | step _ hlegal hok hrun ih =>
      obtain ⟨d, hholds, hinv⟩ := ih
      obtain ⟨e, hholds', heffect⟩ := hholds.run _ ((Op.Legal.congr hholds.hasCurs).mp hlegal) hrun
      exact ⟨e, hholds', hstep hholds hinv hok heffect⟩

/-- Every reachable buffer holds a document and shows a full screen of it. -/
theorem Reached.sound {ok : Buffer R → Op → Prop} (h : Reached ok b) : ∃ d, HoldsSound b d := by
  obtain ⟨d, hd, -⟩ := h.induct (fun _ => True) (fun _ _ _ _ _ => trivial) (fun _ _ _ _ => trivial)
    (fun _ _ _ _ => trivial)
  exact ⟨d, hd⟩

/-- As long as no call stretches the window, it shows exactly a full screen. -/
theorem Reached.exact {ok : Buffer R → Op → Prop} (hok : ∀ b op, ok b op → ¬ op.Stretching b) (h : Reached ok b) :
    ∃ d, HoldsExact b d := by
  induction h with
  | load hh hrun =>
      rename_i data id height width ui b
      obtain ⟨n, rfl⟩ : ∃ n : Nat, height = n := ⟨height.toNat, by omega⟩
      obtain ⟨b', hrun', hholds⟩ := bufferFromFile_exact (R := R) data id width (n := n) (by omega) ui
      obtain rfl := Except.ok.inj (hrun.symm.trans hrun')
      exact ⟨_, hholds⟩
  | reload _ hs hrun ih =>
      obtain ⟨d, hholds⟩ := ih
      exact ⟨_, hholds.reload hs hrun⟩
  | step _ hlegal hstep hrun ih =>
      obtain ⟨d, hholds⟩ := ih
      obtain ⟨e, hholds', -⟩ := hholds.run _ ((Op.Legal.congr hholds.sound.hasCurs).mp hlegal) (hok _ _ hstep) hrun
      exact ⟨e, hholds'⟩

end CoEditor
