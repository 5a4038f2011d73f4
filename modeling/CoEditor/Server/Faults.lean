-- SUMMARY: Which messages a worker survives.
import CoEditor.Server.Cursors
import CoEditor.Server.Members
import CoEditor.Session.Returns

/-!
# Messages that fault

What the messages of users that are logged in need so that a worker handles
them. Each is a call on the buffer, and a fault in the call ends the worker.
-/

namespace CoEditor

variable {R : Type} [Rope R]

/-! ## Edits -/

/-- The payload names a direction. -/
def NamesDir (payload : Option Bytes) : Prop :=
  ∃ s, payload = some s ∧ s.headD 0 ∈ [ch '0', ch '1', ch '2', ch '3']

/-- What a message of a user that is logged in needs of a worker with buffer `buf`. -/
def Message.Ready (msg : Message) (buf : Option (Buffer R)) : Prop :=
  match MsgType.ofCode msg.type with
  | some .fileRequest => ∃ b, buf = some b ∧ b.Fits
  | some .quit | some .insertLine => ∃ b, buf = some b ∧ HasCurs b msg.userId
  | some .insert => msg.payload ≠ none ∧ buf ≠ none
  | some .delete => ∃ b, buf = some b ∧ HasCurs b msg.userId ∧ b.JoinFits msg.userId
  | some .moveCursor => NamesDir msg.payload ∧ ∃ b, buf = some b ∧ HasCurs b msg.userId
  | _ => True

/-- The payload is missing, names a direction, or names none. -/
theorem readDir_cases (payload : Option Bytes) :
    (payload = none ∧ readDir payload = .error .nullStr) ∨
    (NamesDir payload ∧ ∃ dir, readDir payload = .ok dir) ∨
    (payload ≠ none ∧ ¬ NamesDir payload ∧ readDir payload = .error .unset) := by
  cases payload with
  | none => exact .inl ⟨rfl, rfl⟩
  | some s =>
      have hread : readDir (some s) = if s.headD 0 = ch '0' then .ok .up else if s.headD 0 = ch '1' then .ok .down
          else if s.headD 0 = ch '2' then .ok .left else if s.headD 0 = ch '3' then .ok .right else .error .unset := rfl
      rw [hread]
      by_cases hnames : s.headD 0 ∈ [ch '0', ch '1', ch '2', ch '3']
      · refine .inr (.inl ⟨⟨s, rfl, hnames⟩, ?_⟩)
        simp only [List.mem_cons, List.not_mem_nil, or_false] at hnames
        rcases hnames with h | h | h | h <;> rw [h] <;> exact ⟨_, rfl⟩
      · have hnone : ¬ NamesDir (some s) := by
          rintro ⟨s', hs', hmem⟩
          exact hnames (Option.some.inj hs' ▸ hmem)
        simp only [List.mem_cons, List.not_mem_nil, or_false, not_or] at hnames
        obtain ⟨h0, h1, h2, h3⟩ := hnames
        refine .inr (.inr ⟨Option.some_ne_none s, hnone, ?_⟩)
        rw [if_neg h0, if_neg h1, if_neg h2, if_neg h3]

theorem readDir_returns_iff {payload : Option Bytes} : (∃ dir, readDir payload = .ok dir) ↔ NamesDir payload := by
  rcases readDir_cases payload with ⟨rfl, hrun⟩ | ⟨hnames, hrun⟩ | ⟨-, hnames, hrun⟩
  · exact iff_of_false (by simp [hrun]) (by simp [NamesDir])
  · exact iff_of_true hrun hnames
  · exact iff_of_false (by simp [hrun]) hnames

theorem bufferSerialize_returns_iff {b : Buffer R} (hb : Reachable b) : (∃ s, bufferSerialize b = .ok s) ↔ b.Fits := by
  constructor
  · rintro ⟨s, hs⟩
    obtain ⟨d, p, hrep, -, -⟩ := hb.sound
    exact hrep.fits_iff.mpr (hrep.fits hs)
  · intro hfits
    obtain ⟨-, s, -, -, -, hs, -, -⟩ := hb.restored hfits true
    exact ⟨s, hs⟩

namespace World

variable {a : Answers} {w : World R} {fd : Conn} {msg : Message}

theorem onBuf_returns_iff {op : Op} {f : World R → World R} :
    (∃ w', (do let w ← w.onBuf op; pure (f w) : Except Fault (World R)) = .ok w') ↔
      ∃ b, w.proc.buf = some b ∧ ∃ x, op.run b = .ok x := by
  unfold onBuf
  cases w.proc.buf with
  | none => simp
  | some b =>
      simp only [Option.some.injEq, exists_eq_left']
      cases op.run b with
      | error e => simp
      | ok x => simp

/-- A worker handles a message of a user that is logged in exactly if the message has what it needs. -/
theorem handleWorker_returns_iff (hbuf : ∀ b, w.proc.buf = some b → Hosted b) (hneeds : NeedsLogin msg) :
    (∃ w', w.handleWorker a fd msg = .ok w') ↔ msg.Ready w.proc.buf := by
  have hcall : ∀ {op : Op} {f : World R → World R} {P : Buffer R → Prop}, op.By msg.userId →
      (∀ b, op.Ready b ↔ P b) → ((∃ w', (do let w ← w.onBuf op; pure (f w) : Except Fault (World R)) = .ok w') ↔
        ∃ b, w.proc.buf = some b ∧ P b) := by
    intro op f P hby hP
    rw [onBuf_returns_iff]
    refine exists_congr fun b => and_congr_right fun hb => ?_
    rw [(hbuf b hb).returns_iff hby, hP]
  unfold handleWorker Message.Ready
  cases ht : MsgType.ofCode msg.type with
  | none => simp
  | some t =>
      cases t with
      | login => exact absurd (MsgType.ofCode_eq_some.mp ht) hneeds.1
      | quit => exact hcall rfl fun b => Iff.rfl
      | insertLine => exact hcall rfl fun b => Iff.rfl
      | delete => exact hcall rfl fun b => Iff.rfl
      | fileRequest =>
          cases hb : w.proc.buf with
          | none => simp
          | some b =>
              have hserialize := bufferSerialize_returns_iff (hbuf b hb).reachable
              simp only [Option.some.injEq, exists_eq_left', ← hserialize]
              cases hs : bufferSerialize b with
              | error e => simp
              | ok s =>
                  have hjoin : (∃ x, Op.run b (.copyOwn msg.userId) = .ok x) ↔ True := (hbuf b hb).returns_iff rfl
                  refine iff_of_true ?_ ⟨s, rfl⟩
                  rw [Except.ok_bind_eq]
                  exact onBuf_returns_iff.mpr ⟨b, hb, hjoin.mpr trivial⟩
      | insert =>
          cases hpl : msg.payload with
          | none => simp [firstChar, derefStr]
          | some s =>
              simp only [firstChar, derefStr, Except.pure_eq_ok, Except.ok_bind_eq, ne_eq, reduceCtorEq, not_false_eq_true,
                true_and, Option.ne_none_iff_exists']
              have hby : Op.By msg.userId (.insert msg.userId (s.headD 0)) := rfl
              exact (hcall hby fun b => Iff.rfl).trans (by simp [Op.Ready])
      | moveCursor =>
          rw [← readDir_returns_iff]
          cases hdir : readDir msg.payload with
          | error e => simp
          | ok dir =>
              simp only [Except.ok_bind_eq, Except.ok.injEq, exists_eq', true_and]
              exact hcall rfl fun b => Iff.rfl
      | _ => simp

end World

/-- Without a cursor only typing fails without a fault. In every run of a worker in which nobody asks for the file
    who has a cursor in it, a message of a user that is logged in is handled exactly if it has what it needs. -/
theorem edits_need_cursor :
    (∀ (b : Buffer R) (id : Int) (op : Op), Reachable b → ¬ HasCurs b id → op.ActsAt id →
      (op.run b = .ok (b, .failed) ↔ ∃ c, op = .insert id c)) ∧
    ∀ (w₀ w : World R) (trace : List (Step R)) (i : Nat) (fd : Conn) (msg : Message) (a : Answers), WorkerStart w₀ →
      Run JoinsOnce w₀ trace w → w.connAt i = some fd → w.proc.loggedIn a.outside msg.userId = true →
      World.NeedsLogin msg → ((∃ w', w.step (.message i msg a) = .ok w') ↔ msg.Ready w.proc.buf) := by
  constructor
  · intro b id op hb hno hop
    rcases run_missing (hb.find_none hno) hop with ⟨hins, hrun⟩ | ⟨hne, hrun⟩
    · exact iff_of_true hrun hins
    · refine iff_of_false (fun h => ?_) fun ⟨c, hc⟩ => hne c hc
      rw [hrun] at h
      cases h
  · intro w₀ w trace i fd msg a h₀ h hfd hflag hneeds
    have hmode : w.proc.mode = .worker := h.frame.1.trans h₀.mode
    have hhosted := h.hosted h₀ (fun _ _ h => h)
    simp only [World.step, hfd, World.handleMsg_admitted (.inl hflag), hmode]
    exact World.handleWorker_returns_iff hhosted hneeds

/-- Anna is logged in, but has not asked for the document. -/
theorem edits_need_cursor_demo : ∃ (b : Buffer ListRope) (w : World ListRope) (trace : List (Step ListRope)),
    (∀ op : Op, op.ActsAt 1 → (op.run b = .ok (b, .failed) ↔ ∃ c, op = .insert 1 c)) ∧
    Run JoinsOnce (demoWorld .worker demoDisk (some b)) trace w ∧
    ((∃ w', w.step (.message 0 annaInsert demoAnswers) = .ok w') ↔ annaInsert.Ready w.proc.buf) := by
  obtain ⟨b, -, -, -, -, -, -, hb, hno, -⟩ := demo_joins
  obtain ⟨w, trace, h, -, -, hflag, hfd⟩ := demo_login_run b
  obtain ⟨hmissing, hrun⟩ := edits_need_cursor (R := ListRope)
  exact ⟨b, w, trace, fun op => hmissing b 1 op (.load (by decide) hb) hno, h,
    hrun _ w trace 0 0 annaInsert demoAnswers (demoWorld_worker hb) h hfd hflag ⟨by decide, by decide⟩⟩

/-- Anna breaks a line before she has asked for the document, and the worker follows a `NULL`. -/
theorem line_break_without_cursor : ∃ (b : Buffer ListRope) (w : World ListRope) (trace : List (Step ListRope)),
    WorkerStart (demoWorld .worker demoDisk (some b)) ∧ AnyRun (demoWorld .worker demoDisk (some b)) trace w ∧
    ¬ HasCurs b 1 ∧ w.proc.buf = some b ∧ w.proc.loggedIn demoAnswers.outside 1 = true ∧
    Op.run b (.insertLine 1) = .error .nullDeref ∧
    w.step (.message 0 (createMsg .insertLine 1 1 0 none) demoAnswers) = .error .nullDeref := by
  obtain ⟨b, -, -, -, -, -, -, hb, hno, -⟩ := demo_joins
  obtain ⟨w, trace, h, hmode, hbuf, hflag, hfd⟩ := demo_login_run b
  have hreach : Reachable b := .load (by decide) hb
  have hmissing := run_missing (hreach.find_none hno) (show Op.ActsAt 1 (.insertLine 1) from .inr rfl)
  obtain ⟨⟨c, hc⟩, -⟩ | ⟨-, hrun⟩ := hmissing
  · cases hc
  · refine ⟨b, w, trace, demoWorld_worker hb, h.mono fun _ _ _ => trivial, hno, hbuf, hflag, hrun, ?_⟩
    have hstep : w.handleMsg demoAnswers 0 (createMsg .insertLine 1 1 0 none) = _ := World.handleMsg_admitted (.inl hflag)
    have hcode : MsgType.ofCode (createMsg .insertLine 1 1 0 none).type = some .insertLine :=
      MsgType.ofCode_eq_some.mpr rfl
    have hcall : (w.readsClient 1).onBuf (.insertLine 1) = .error .nullDeref := by
      have hbuf' : (w.readsClient 1).proc.buf = some b := hbuf
      simp only [World.onBuf, hbuf', hrun, Except.error_bind_eq]
    simp only [World.step, hfd, hstep, hmode, World.handleWorker, hcode]
    exact congrArg (· >>= _) hcall

end CoEditor
