-- SUMMARY: Runs of the server and of a worker, and what one message can do to the process that handles it.
import CoEditor.Server.Defs

/-!
# Runs

A run is a sequence of events that the process survives. The trace of a run
lists its steps, the latest one first.
-/

namespace CoEditor

variable {R : Type} [Rope R]

/-- A step of a run. -/
structure Step (R : Type) where
  pre : World R
  event : Event
  post : World R

/-- A connection is accepted once. -/
def Event.Possible (w : World R) : Event → Prop
  | .accept fd => fd ∉ w.accepted
  | _ => True

/-- The runs from `w₀` in which every event meets `ok`. -/
inductive Run (ok : World R → Event → Prop) (w₀ : World R) : List (Step R) → World R → Prop where
  | init : Run ok w₀ [] w₀
  | step {trace : List (Step R)} {w w' : World R} {ev : Event} : Run ok w₀ trace w → ev.Possible w → ok w ev →
      w.step ev = .ok w' → Run ok w₀ (⟨w, ev, w'⟩ :: trace) w'

/-- All runs from `w₀`. -/
abbrev AnyRun (w₀ : World R) : List (Step R) → World R → Prop := Run (fun _ _ => True) w₀

theorem Run.mono {ok ok' : World R → Event → Prop} (h : ∀ w ev, ok w ev → ok' w ev) {w₀ w : World R}
    {trace : List (Step R)} (hrun : Run ok w₀ trace w) : Run ok' w₀ trace w := by
  induction hrun with
  | init => exact .init
  | step _ hpossible hok hev ih => exact .step ih hpossible (h _ _ hok) hev

/-- A step of a run follows the run up to it. -/
theorem Run.of_mem {ok : World R → Event → Prop} {w₀ w : World R} {trace : List (Step R)} (h : Run ok w₀ trace w)
    {s : Step R} (hs : s ∈ trace) : ∃ t, Run ok w₀ t s.pre ∧ s.pre.step s.event = .ok s.post := by
  induction h with
  | init => cases hs
  | @step trace w w' ev hrun _ _ hev ih =>
      rcases List.mem_cons.mp hs with rfl | hs
      · exact ⟨trace, hrun, hev⟩
      · exact ih hs

/-- The steps of a run up to some point. -/
theorem Run.of_suffix {ok : World R → Event → Prop} {w₀ w : World R} {trace : List (Step R)} (h : Run ok w₀ trace w)
    {s : Step R} {t : List (Step R)} (hs : s :: t <:+ trace) :
    Run ok w₀ t s.pre ∧ s.event.Possible s.pre ∧ ok s.pre s.event ∧ s.pre.step s.event = .ok s.post := by
  induction h with
  | init => cases List.suffix_nil.mp hs
  | step hrun hpossible hok hev ih =>
      rcases List.suffix_cons_iff.mp hs with heq | hs
      · obtain ⟨rfl, rfl⟩ := List.cons.inj heq
        exact ⟨hrun, hpossible, hok, hev⟩
      · exact ih hs

/-- A run in which every step meets `ok`. -/
theorem Run.of_forall {ok ok' : World R → Event → Prop} {w₀ w : World R} {trace : List (Step R)} (h : Run ok w₀ trace w)
    (hall : ∀ s ∈ trace, ok' s.pre s.event) : Run ok' w₀ trace w := by
  induction h with
  | init => exact .init
  | step _ hpossible _ hev ih =>
      obtain ⟨hs, hall⟩ := List.forall_mem_cons.mp hall
      exact .step (ih hall) hpossible hs hev

/-- A worker at the start of its main loop. -/
structure WorkerStart (w : World R) : Prop where
  mode : w.proc.mode = .worker
  pollList : w.proc.pollList = List.replicate maxClients none
  clients : w.proc.clients = List.replicate (maxClients + 1) false
  buf : ∃ name fileId, loadBuffer w.disk name fileId = .ok w.proc.buf
  accepted : w.accepted = []
  closed : w.closed = []
  sent : w.sent = []

/-- The main server at the start of its main loop. -/
structure ServerStart (w : World R) : Prop where
  mode : w.proc.mode = .server
  hport : w.proc.hport = 46958
  pollList : w.proc.pollList = List.replicate maxClients none
  clients : w.proc.clients = List.replicate (maxClients + 1) false
  workers : w.proc.workers = List.replicate (maxWorkers + 1) (0, 0)
  accepted : w.accepted = []
  closed : w.closed = []
  sent : w.sent = []
  children : w.children = []

/-- A worker that `get_worker` forks starts like this. -/
theorem startWorker_start {d : Disk} {p : Proc R} {fileId port pid : Int} {child : Child R}
    (h : startWorker d p fileId port pid = .ok child) :
    WorkerStart { proc := child.proc, disk := d, accepted := [], closed := [], sent := [], children := [] } := by
  obtain ⟨name, -, h⟩ := Except.bind_eq_ok.mp h
  obtain ⟨buf, hbuf, h⟩ := Except.bind_eq_ok.mp h
  obtain rfl := Except.ok.inj h
  exact ⟨rfl, rfl, rfl, ⟨name, fileId, hbuf⟩, rfl, rfl, rfl⟩

/-! ## One message -/

theorem arraySet_ok {α : Type} {l l' : List α} {i : Int} {x : α} (h : arraySet l i x = .ok l') :
    0 ≤ i ∧ i.toNat < l.length ∧ l' = l.set i.toNat x := by
  unfold arraySet at h
  split at h
  · next hi => exact ⟨hi.1, hi.2, (Except.ok.inj h).symm⟩
  · cases h

omit [Rope R] in
theorem Proc.setClient_ok {p p' : Proc R} {u : Int} {flag : Bool} (h : p.setClient u flag = .ok p') :
    p.InTable u ∧ p' = { p with clients := p.clients.set u.toNat flag } := by
  obtain ⟨clients, hclients, h⟩ := Except.bind_eq_ok.mp h
  obtain ⟨h0, hlt, rfl⟩ := arraySet_ok hclients
  exact ⟨⟨h0, hlt⟩, (Except.ok.inj h).symm⟩

namespace World

variable {a : Answers} {w w' : World R} {fd : Conn} {msg : Message}

/-- What a step leaves alone that handles no message. -/
structure Idle (w w' : World R) : Prop where
  mode : w'.proc.mode = w.proc.mode
  clients : w'.proc.clients = w.proc.clients
  workers : w'.proc.workers = w.proc.workers
  hport : w'.proc.hport = w.proc.hport
  buf : w'.proc.buf = w.proc.buf
  sent : w'.sent = w.sent
  children : w'.children.Sublist w.children

/-- A step handles a message, or leaves most things alone. -/
theorem step_cases {ev : Event} (h : w.step ev = .ok w') :
    (∃ i msg a fd, ev = .message i msg a ∧ w.connAt i = some fd ∧ w.handleMsg a fd msg = .ok w') ∨
      (∀ i msg a fd, ev = .message i msg a → w.connAt i ≠ some fd) ∧ Idle w w' := by
  have hidle : ∀ {w'}, (.ok w : Except Fault (World R)) = .ok w' → Idle w w' := by
    intro w' h
    obtain rfl := Except.ok.inj h
    exact ⟨rfl, rfl, rfl, rfl, rfl, rfl, .refl _⟩
  cases ev with
  | accept fd =>
      obtain rfl := Except.ok.inj h
      exact .inr ⟨by simp, ⟨rfl, rfl, rfl, rfl, rfl, rfl, .refl _⟩⟩
  | hangup i =>
      refine .inr ⟨by simp, ?_⟩
      simp only [step] at h
      split at h
      · exact hidle h
      · obtain rfl := Except.ok.inj h
        exact ⟨rfl, rfl, rfl, rfl, rfl, rfl, .refl _⟩
  | eof i => exact .inr ⟨by simp, hidle h⟩
  | files d =>
      obtain rfl := Except.ok.inj h
      exact .inr ⟨by simp, ⟨rfl, rfl, rfl, rfl, rfl, rfl, .refl _⟩⟩
  | gone pid =>
      obtain rfl := Except.ok.inj h
      exact .inr ⟨by simp, ⟨rfl, rfl, rfl, rfl, rfl, rfl, List.filter_sublist⟩⟩
  | message i msg a =>
      simp only [step] at h
      split at h
      · next hnone =>
          refine .inr ⟨?_, hidle h⟩
          rintro i' msg' a' fd he hfd
          obtain ⟨rfl, -, -⟩ := Event.message.inj he
          rw [hnone] at hfd
          cases hfd
      · next fd hfd => exact .inl ⟨i, msg, a, fd, rfl, hfd, h⟩

/-- Does the message get past the check for a login? -/
def Admits (a : Answers) (w : World R) (msg : Message) : Prop :=
  w.proc.loggedIn a.outside msg.userId = true ∨ ¬ NeedsLogin msg

/-- A message is refused, or handled in the mode of the process. -/
theorem handleMsg_cases (h : w.handleMsg a fd msg = .ok w') :
    ¬ Admits a w msg ∧ w' = (w.readsClient msg.userId).closeSocket fd ∨
      Admits a w msg ∧ (w.proc.mode = .server ∧ (w.readsClient msg.userId).handleServer a fd msg = .ok w' ∨
        w.proc.mode = .worker ∧ (w.readsClient msg.userId).handleWorker a fd msg = .ok w') := by
  unfold handleMsg at h
  dsimp only at h
  have hflag : (w.readsClient msg.userId).proc.loggedIn a.outside msg.userId = w.proc.loggedIn a.outside msg.userId :=
    rfl
  have hmode : (w.readsClient msg.userId).proc.mode = w.proc.mode := rfl
  rw [hflag, hmode] at h
  split at h
  · next hno =>
      obtain rfl := Except.ok.inj h
      exact .inl ⟨fun hadm => hadm.elim (fun ht => by rw [hno.1] at ht; cases ht) fun hn => hn hno.2, rfl⟩
  · next hyes =>
      have hadm : Admits a w msg := by
        by_cases hn : NeedsLogin msg
        · exact .inl (by simpa [hn] using hyes)
        · exact .inr hn
      split at h
      · next hm => exact .inr ⟨hadm, .inl ⟨hm, h⟩⟩
      · next hm => exact .inr ⟨hadm, .inr ⟨hm, h⟩⟩

omit [Rope R] in
theorem login_cases (h : w.login a fd msg = .ok w') : ∃ u, validateUser w.disk msg.payload = .ok u ∧
    (0 ≤ u ∧ (∃ list proc, w.proc.setClient u true = .ok proc ∧
        w' = { w with proc }.sendMsg fd (createMsg .msgOk u (-1) (-1) (some list))) ∨
      u < 0 ∧ w' = w.sendMsg fd (createMsg .msgFailed (-1) (-1) (-1) none)) := by
  obtain ⟨u, hu, h⟩ := Except.bind_eq_ok.mp h
  refine ⟨u, hu, ?_⟩
  split at h
  · next h0 =>
      obtain ⟨proc, hproc, h⟩ := Except.bind_eq_ok.mp h
      obtain ⟨list, -, h⟩ := Except.bind_eq_ok.mp h
      exact .inl ⟨h0, list, proc, hproc, (Except.ok.inj h).symm⟩
  · next h0 => exact .inr ⟨by omega, (Except.ok.inj h).symm⟩

omit [Rope R] in
theorem answer_cases {ok : Prop} [Decidable ok] {userId : Int} (h : w.answer a fd ok userId = .ok w') :
    (ok ∧ ∃ list, w' = w.sendMsg fd (createMsg .msgOk userId (-1) (-1) (some list))) ∨
      ¬ ok ∧ w' = w.sendMsg fd (createMsg .msgFailed (-1) (-1) (-1) none) := by
  unfold answer at h
  split at h
  · next hok =>
      obtain ⟨list, -, h⟩ := Except.bind_eq_ok.mp h
      exact .inl ⟨hok, list, (Except.ok.inj h).symm⟩
  · next hno => exact .inr ⟨hno, (Except.ok.inj h).symm⟩

omit [Rope R] in
theorem answer_sends {ok : Prop} [Decidable ok] {userId : Int} (h : w.answer a fd ok userId = .ok w') :
    ∃ m, w' = w.sendMsg fd m := by
  obtain ⟨-, list, rfl⟩ | ⟨-, rfl⟩ := answer_cases h
  · exact ⟨_, rfl⟩
  · exact ⟨_, rfl⟩

theorem onBuf_cases {op : Op} (h : w.onBuf op = .ok w') :
    ∃ b b' res, w.proc.buf = some b ∧ op.run b = .ok (b', res) ∧ w' = w.setBuf b' := by
  unfold onBuf at h
  split at h
  · cases h
  · next b hb =>
      obtain ⟨⟨b', res⟩, hrun, h⟩ := Except.bind_eq_ok.mp h
      exact ⟨b, b', res, hb, hrun, (Except.ok.inj h).symm⟩

end World

/-- The call on the buffer that an edit asks for. -/
inductive Message.Asks (msg : Message) : Op → Prop where
  | insert {s : Bytes} : msg.type = MsgType.insert.code → msg.payload = some s →
      Asks msg (.insert msg.userId (s.headD 0))
  | insertLine : msg.type = MsgType.insertLine.code → Asks msg (.insertLine msg.userId)
  | del : msg.type = MsgType.delete.code → Asks msg (.del msg.userId)
  | move {dir : CmoveDir} : msg.type = MsgType.moveCursor.code → readDir msg.payload = .ok dir →
      Asks msg (.move msg.userId dir)

theorem Message.Asks.type_ne {msg : Message} {op : Op} (h : msg.Asks op) {t : MsgType}
    (ht : t ∉ [MsgType.insert, .insertLine, .delete, .moveCursor]) : msg.type ≠ t.code := by
  simp only [List.mem_cons, List.not_mem_nil, or_false, not_or] at ht
  cases h with
  | insert h => exact MsgType.ne_code h (Ne.symm ht.1)
  | insertLine h => exact MsgType.ne_code h (Ne.symm ht.2.1)
  | del h => exact MsgType.ne_code h (Ne.symm ht.2.2.1)
  | move h => exact MsgType.ne_code h (Ne.symm ht.2.2.2)

/-- What a worker does with a message that it admits. -/
inductive WorkerDoes (a : Answers) (w : World R) (fd : Conn) (msg : Message) : World R → Prop where
  | login {w' : World R} : msg.type = MsgType.login.code → w.login a fd msg = .ok w' → WorkerDoes a w fd msg w'
  | join {b b' : Buffer R} {s : Bytes} {res : Bres} : msg.type = MsgType.fileRequest.code → w.proc.buf = some b →
      bufferSerialize b = .ok s → Op.run b (.copyOwn msg.userId) = .ok (b', res) →
      WorkerDoes a w fd msg
        (((w.sendMsg fd (createMsg .fileResponse msg.userId msg.fileId msg.fileVersion (some s))).setBuf b').sendMsgEveryone
          fd (createMsg .addCursor msg.userId msg.fileId msg.fileVersion none))
  | leave {b b' : Buffer R} {res : Bres} : msg.type = MsgType.quit.code → w.proc.buf = some b →
      Op.run b (.free msg.userId) = .ok (b', res) →
      WorkerDoes a w fd msg
        (((w.setBuf b').sendMsgEveryone fd
          (createMsg .deleteCursor msg.userId msg.fileId msg.fileVersion none)).closeSocket fd)
  | edit {b b' : Buffer R} {op : Op} {res : Bres} : msg.Asks op → w.proc.buf = some b → op.run b = .ok (b', res) →
      WorkerDoes a w fd msg ((w.setBuf b').sendMsgEveryone fd msg)
  | ignore : (∀ t ∈ [MsgType.login, .fileRequest, .quit, .insert, .insertLine, .delete, .moveCursor],
      msg.type ≠ t.code) → WorkerDoes a w fd msg w

/-- What the main server does with a message that it admits. -/
inductive ServerDoes (a : Answers) (w : World R) (fd : Conn) (msg : Message) : World R → Prop where
  | login {w' : World R} : msg.type = MsgType.login.code → w.login a fd msg = .ok w' → ServerDoes a w fd msg w'
  | register {disk : Disk} {u : Int} {w' : World R} : msg.type = MsgType.register.code →
      validateRegister a.freed w.disk msg.payload = .ok (disk, u) → { w with disk }.answer a fd (0 ≤ u) u = .ok w' →
      ServerDoes a w fd msg w'
  | fileRequest {w₁ : World R} {port : Int} : msg.type = MsgType.fileRequest.code →
      getWorker a w msg.fileId = .ok (w₁, port) →
      ServerDoes a w fd msg (w₁.sendMsg fd
        (createMsg .fileResponse (-1) msg.fileId msg.fileVersion (some (ch 'M' :: Decimal.digits port))))
  | createFile {disk : Disk} {fileId : Int} {w' : World R} : msg.type = MsgType.createFile.code →
      createFile a.fails w.disk msg.payload = .ok (disk, fileId) →
      { w with disk }.answer a fd (0 < fileId) msg.userId = .ok w' → ServerDoes a w fd msg w'
  | deleteFile {disk : Disk} {err : Int} {w' : World R} : msg.type = MsgType.deleteFile.code →
      deleteFile a.fails w.disk msg.fileId = .ok (disk, err) →
      { w with disk }.answer a fd (err = 0) msg.userId = .ok w' → ServerDoes a w fd msg w'
  | quit {proc : Proc R} : msg.type = MsgType.quit.code → w.proc.setClient msg.userId false = .ok proc →
      ServerDoes a w fd msg ({ w with proc }.closeSocket fd)
  | ignore : (∀ t ∈ [MsgType.login, .register, .fileRequest, .createFile, .deleteFile, .quit], msg.type ≠ t.code) →
      ServerDoes a w fd msg w

namespace World

variable {a : Answers} {w w' : World R} {fd : Conn} {msg : Message}

theorem handleWorker_does (h : w.handleWorker a fd msg = .ok w') : WorkerDoes a w fd msg w' := by
  unfold handleWorker at h
  split at h
  · next ht => exact .login (MsgType.ofCode_eq_some.mp ht) h
  · next ht =>
      split at h
      · cases h
      · next b hb =>
          obtain ⟨s, hs, h⟩ := Except.bind_eq_ok.mp h
          obtain ⟨w₂, hw₂, h⟩ := Except.bind_eq_ok.mp h
          obtain ⟨b₁, b', res, hb₁, hrun, rfl⟩ := onBuf_cases hw₂
          obtain rfl := Option.some.inj (hb.symm.trans hb₁)
          obtain rfl := Except.ok.inj h
          exact .join (MsgType.ofCode_eq_some.mp ht) hb hs hrun
  · next ht =>
      obtain ⟨w₁, hw₁, h⟩ := Except.bind_eq_ok.mp h
      obtain ⟨b, b', res, hb, hrun, rfl⟩ := onBuf_cases hw₁
      obtain rfl := Except.ok.inj h
      exact .leave (MsgType.ofCode_eq_some.mp ht) hb hrun
  · next ht =>
      obtain ⟨c, hc, h⟩ := Except.bind_eq_ok.mp h
      obtain ⟨w₁, hw₁, h⟩ := Except.bind_eq_ok.mp h
      obtain ⟨b, b', res, hb, hrun, rfl⟩ := onBuf_cases hw₁
      obtain rfl := Except.ok.inj h
      obtain ⟨s, hs, hc⟩ := Except.bind_eq_ok.mp hc
      obtain rfl := Except.ok.inj hc
      cases hpl : msg.payload with
      | none => rw [hpl] at hs; cases hs
      | some s' =>
          rw [hpl] at hs
          obtain rfl := Except.ok.inj hs
          exact .edit (.insert (MsgType.ofCode_eq_some.mp ht) hpl) hb hrun
  · next ht =>
      obtain ⟨w₁, hw₁, h⟩ := Except.bind_eq_ok.mp h
      obtain ⟨b, b', res, hb, hrun, rfl⟩ := onBuf_cases hw₁
      obtain rfl := Except.ok.inj h
      exact .edit (.insertLine (MsgType.ofCode_eq_some.mp ht)) hb hrun
  · next ht =>
      obtain ⟨w₁, hw₁, h⟩ := Except.bind_eq_ok.mp h
      obtain ⟨b, b', res, hb, hrun, rfl⟩ := onBuf_cases hw₁
      obtain rfl := Except.ok.inj h
      exact .edit (.del (MsgType.ofCode_eq_some.mp ht)) hb hrun
  · next ht =>
      obtain ⟨dir, hdir, h⟩ := Except.bind_eq_ok.mp h
      obtain ⟨w₁, hw₁, h⟩ := Except.bind_eq_ok.mp h
      obtain ⟨b, b', res, hb, hrun, rfl⟩ := onBuf_cases hw₁
      obtain rfl := Except.ok.inj h
      exact .edit (.move (MsgType.ofCode_eq_some.mp ht) hdir) hb hrun
  · next h₁ h₂ h₃ h₄ h₅ h₆ h₇ =>
      obtain rfl := Except.ok.inj h
      refine .ignore ?_
      simp only [List.forall_mem_cons, List.not_mem_nil, false_implies, implies_true, and_true, ← MsgType.ofCode_eq_some.not]
      exact ⟨h₁, h₂, h₃, h₄, h₅, h₆, h₇⟩

/-- What a worker does for a user who is logged in. -/
theorem handleMsg_worker_does (hmode : w.proc.mode = .worker) (hflag : w.proc.loggedIn a.outside msg.userId = true)
    (h : w.handleMsg a fd msg = .ok w') : WorkerDoes a (w.readsClient msg.userId) fd msg w' := by
  rcases handleMsg_cases h with ⟨hno, -⟩ | ⟨-, ⟨hserver, -⟩ | ⟨-, h⟩⟩
  · exact absurd (.inl hflag) hno
  · rw [hmode] at hserver
    cases hserver
  · exact handleWorker_does h

theorem handleServer_does (h : w.handleServer a fd msg = .ok w') : ServerDoes a w fd msg w' := by
  unfold handleServer at h
  split at h
  · next ht => exact .login (MsgType.ofCode_eq_some.mp ht) h
  · next ht =>
      obtain ⟨⟨disk, u⟩, hrun, h⟩ := Except.bind_eq_ok.mp h
      exact .register (MsgType.ofCode_eq_some.mp ht) hrun h
  · next ht =>
      obtain ⟨⟨w₁, port⟩, hrun, h⟩ := Except.bind_eq_ok.mp h
      obtain rfl := Except.ok.inj h
      exact .fileRequest (MsgType.ofCode_eq_some.mp ht) hrun
  · next ht =>
      obtain ⟨⟨disk, fileId⟩, hrun, h⟩ := Except.bind_eq_ok.mp h
      exact .createFile (MsgType.ofCode_eq_some.mp ht) hrun h
  · next ht =>
      obtain ⟨⟨disk, err⟩, hrun, h⟩ := Except.bind_eq_ok.mp h
      exact .deleteFile (MsgType.ofCode_eq_some.mp ht) hrun h
  · next ht =>
      obtain ⟨proc, hproc, h⟩ := Except.bind_eq_ok.mp h
      obtain rfl := Except.ok.inj h
      exact .quit (MsgType.ofCode_eq_some.mp ht) hproc
  · next h₁ h₂ h₃ h₄ h₅ h₆ =>
      obtain rfl := Except.ok.inj h
      refine .ignore ?_
      simp only [List.forall_mem_cons, List.not_mem_nil, false_implies, implies_true, and_true, ← MsgType.ofCode_eq_some.not]
      exact ⟨h₁, h₂, h₃, h₄, h₅, h₆⟩

/-- What stays the same while a worker is looked up. -/
structure SameFront (w w' : World R) : Prop where
  mode : w'.proc.mode = w.proc.mode
  clients : w'.proc.clients = w.proc.clients
  pollList : w'.proc.pollList = w.proc.pollList
  accepted : w'.accepted = w.accepted
  closed : w'.closed = w.closed
  sent : w'.sent = w.sent

/-- The file has a worker, or one is forked under the next free ports. -/
theorem getWorker_cases {fileId port : Int} (h : getWorker a w fileId = .ok (w', port)) :
    (∃ pid, arrayGet w.proc.workers fileId = .ok (port, pid) ∧ port ≠ 0 ∧ w' = w) ∨
      ∃ pid lp answers rest workers, arrayGet w.proc.workers fileId = .ok (0, pid) ∧
        nextFree a.portFree w.proc.hport = .ok (lp, answers) ∧ nextFree answers (lp + 1) = .ok (port, rest) ∧
        arraySet w.proc.workers fileId (port, a.pid) = .ok workers ∧
        w' = { w with
          proc := { w.proc with hport := port + 1, workers }
          children := if 0 < a.pid then
              match startWorker w.disk { w.proc with hport := port + 1 } fileId port a.pid with
              | .ok child => child :: w.children
              | .error _ => w.children
            else w.children } := by
  obtain ⟨⟨port', pid⟩, hentry, h⟩ := Except.bind_eq_ok.mp h
  dsimp only at h
  split at h
  · next hne =>
      obtain ⟨rfl, rfl⟩ := Prod.mk.inj (Except.ok.inj h)
      exact .inl ⟨pid, hentry, hne, rfl⟩
  · next h0 =>
      obtain rfl : port' = 0 := not_not.mp h0
      obtain ⟨⟨lp, answers⟩, hlp, h⟩ := Except.bind_eq_ok.mp h
      dsimp only at h
      obtain ⟨⟨pp, rest⟩, hpp, h⟩ := Except.bind_eq_ok.mp h
      dsimp only at h
      obtain ⟨workers, hset, h⟩ := Except.bind_eq_ok.mp h
      obtain ⟨rfl, rfl⟩ := Prod.mk.inj (Except.ok.inj h)
      exact .inr ⟨pid, lp, answers, rest, workers, hentry, hlp, hpp, hset, rfl⟩

theorem getWorker_front {fileId port : Int} (h : getWorker a w fileId = .ok (w', port)) : SameFront w w' := by
  obtain ⟨-, -, -, rfl⟩ | ⟨-, -, -, -, -, -, -, -, -, rfl⟩ := getWorker_cases h
  · exact ⟨rfl, rfl, rfl, rfl, rfl, rfl⟩
  · exact ⟨rfl, rfl, rfl, rfl, rfl, rfl⟩

/-- What a message leaves alone: at most the connection it came over is closed. -/
structure Frame (w w' : World R) (fd : Conn) : Prop where
  mode : w'.proc.mode = w.proc.mode
  length : w'.proc.clients.length = w.proc.clients.length
  accepted : w'.accepted = w.accepted
  conns : w'.proc.pollList = w.proc.pollList ∧ w'.closed = w.closed ∨
    w'.proc.pollList = (w.closeSocket fd).proc.pollList ∧ w'.closed = fd :: w.closed

/-- A message is handled within its frame. -/
theorem handleMsg_frame (h : w.handleMsg a fd msg = .ok w') : Frame w w' fd := by
  have hlogin : (w.readsClient msg.userId).login a fd msg = .ok w' → Frame w w' fd := by
    intro h
    obtain ⟨u, -, ⟨-, list, proc, hproc, rfl⟩ | ⟨-, rfl⟩⟩ := login_cases h
    · obtain ⟨-, rfl⟩ := Proc.setClient_ok hproc
      exact ⟨rfl, List.length_set, rfl, .inl ⟨rfl, rfl⟩⟩
    · exact ⟨rfl, rfl, rfl, .inl ⟨rfl, rfl⟩⟩
  have hanswer : ∀ {disk : Disk} {ok : Prop} [Decidable ok] {u : Int},
      { w.readsClient msg.userId with disk }.answer a fd ok u = .ok w' → Frame w w' fd := by
    intro disk ok _ u h
    obtain ⟨m, rfl⟩ := answer_sends h
    exact ⟨rfl, rfl, rfl, .inl ⟨rfl, rfl⟩⟩
  obtain ⟨-, rfl⟩ | ⟨-, ⟨-, h⟩ | ⟨-, h⟩⟩ := handleMsg_cases h
  · exact ⟨rfl, rfl, rfl, .inr ⟨rfl, rfl⟩⟩
  · cases handleServer_does h with
    | login _ h => exact hlogin h
    | register _ _ h => exact hanswer h
    | fileRequest _ hrun =>
        have hfront := getWorker_front hrun
        exact ⟨hfront.mode, congrArg List.length hfront.clients, hfront.accepted, .inl ⟨hfront.pollList, hfront.closed⟩⟩
    | createFile _ _ h => exact hanswer h
    | deleteFile _ _ h => exact hanswer h
    | quit _ hproc =>
        obtain ⟨-, rfl⟩ := Proc.setClient_ok hproc
        exact ⟨rfl, List.length_set, rfl, .inr ⟨rfl, rfl⟩⟩
    | ignore => exact ⟨rfl, rfl, rfl, .inl ⟨rfl, rfl⟩⟩
  · cases handleWorker_does h with
    | login _ h => exact hlogin h
    | join => exact ⟨rfl, rfl, rfl, .inl ⟨rfl, rfl⟩⟩
    | leave => exact ⟨rfl, rfl, rfl, .inr ⟨rfl, rfl⟩⟩
    | edit => exact ⟨rfl, rfl, rfl, .inl ⟨rfl, rfl⟩⟩
    | ignore => exact ⟨rfl, rfl, rfl, .inl ⟨rfl, rfl⟩⟩

theorem step_frame {ev : Event} (h : w.step ev = .ok w') :
    w'.proc.mode = w.proc.mode ∧ w'.proc.clients.length = w.proc.clients.length := by
  rcases step_cases h with ⟨i, msg, a, fd, -, -, h⟩ | ⟨-, hidle⟩
  · exact ⟨(handleMsg_frame h).mode, (handleMsg_frame h).length⟩
  · exact ⟨hidle.mode, congrArg List.length hidle.clients⟩

end World

/-- A process keeps its mode and the size of its table of clients. -/
theorem Run.frame {ok : World R → Event → Prop} {w₀ w : World R} {trace : List (Step R)} (h : Run ok w₀ trace w) :
    w.proc.mode = w₀.proc.mode ∧ w.proc.clients.length = w₀.proc.clients.length := by
  induction h with
  | init => exact ⟨rfl, rfl⟩
  | step _ _ _ hev ih =>
      obtain ⟨hmode, hlength⟩ := World.step_frame hev
      exact ⟨hmode.trans ih.1, hlength.trans ih.2⟩

/-! ## Runs that can be computed -/

omit [Rope R] in
instance (w : World R) : DecidablePred (Event.Possible w)
  | .accept fd => inferInstanceAs (Decidable (fd ∉ w.accepted))
  | .hangup _ | .message .. | .eof _ | .files _ | .gone _ => .isTrue trivial

/-- The run of these events, as long as they meet `ok` and the process survives. -/
def World.play (ok : World R → Event → Prop) [∀ w, DecidablePred (ok w)] (w : World R) (trace : List (Step R)) :
    List Event → Option (World R × List (Step R))
  | [] => some (w, trace)
  | ev :: evs =>
      if ev.Possible w ∧ ok w ev then
        match w.step ev with
        | .ok w' => w'.play ok (⟨w, ev, w'⟩ :: trace) evs
        | .error _ => none
      else none

theorem Run.play {ok : World R → Event → Prop} [∀ w, DecidablePred (ok w)] {w₀ : World R} {evs : List Event} :
    ∀ {w w' : World R} {trace trace' : List (Step R)}, Run ok w₀ trace w → w.play ok trace evs = some (w', trace') →
      Run ok w₀ trace' w' := by
  induction evs with
  | nil =>
      intro w w' trace trace' h hplay
      cases hplay
      exact h
  | cons ev evs ih =>
      intro w w' trace trace' h hplay
      rw [World.play] at hplay
      split at hplay
      · next hok =>
          split at hplay
          · next w₁ hstep => exact ih (h.step hok.1 hok.2 hstep) hplay
          · cases hplay
      · cases hplay

end CoEditor
