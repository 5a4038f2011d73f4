-- SUMMARY: Clients that are connected to a worker but have not been sent the document, and what they are told.
import CoEditor.Client.Watching
import CoEditor.Server.Owners

/-!
# Newcomers

`send_msg_everyone` tells all open connections what happens, those of clients
that have not been sent the document among them. A client that is told of an
edit when it has no buffer does not survive. It is spared this while the worker
makes calls only when everybody else has been sent the document.
-/

namespace CoEditor

variable {R : Type} [Rope R]

/-- `FILE_RESPONSE` has been put on the connection. -/
def World.HasSnapshot (w : World R) (c : Conn) : Prop := ∃ msg ∈ w.inbox c, msg.type = MsgType.fileResponse.code

/-- The message tells of an edit or of a cursor. -/
def Message.IsNews (msg : Message) : Prop :=
  ∃ t ∈ [MsgType.insert, .insertLine, .delete, .moveCursor, .addCursor, .deleteCursor], msg.type = t.code

/-- A call is made only when all others have been sent the document, and the document is asked for only over a connection that
    somebody has logged in over. -/
structure Event.AmongMembers (w : World R) (ev : Event) : Prop where
  members : ∀ e, w.entry ev = some e → ∀ c ∈ w.others e.fd, w.HasSnapshot c
  loggedIn : ∀ e, w.entry ev = some e → e.msg.type = MsgType.fileRequest.code → ∃ u, w.Welcomed e.fd u

/-- The client that `e` becomes when it handles these messages one after another while its user presses keys. -/
inductive Editor.Runs (e : Editor R) : List Message → Editor R → Prop where
  | init : Runs e [] e
  | handle {msgs : List Message} {e₁ e' : Editor R} {msg : Message} {out : List Message} : Runs e msgs e₁ →
      e₁.handleMsg msg.received = .ok (e', out) → Runs e (msgs ++ [msg]) e'
  | press {msgs : List Message} {e₁ e' : Editor R} {key : Key} {msg : Message} : Runs e msgs e₁ →
      e₁.handleInput key = .ok (e', msg, false) → Runs e msgs e'

/-! ## The client -/

namespace Editor

variable {e e' : Editor R} {msg : Message} {msgs out : List Message}

/-- A client that has a buffer keeps one, and it gets one with the document. -/
theorem handleMsg_buf (h : e.handleMsg msg = .ok (e', out)) (hbuf : e.b.isSome ∨ msg.type = MsgType.fileResponse.code) :
    e'.b.isSome := by
  have honBuf : ∀ {op}, (·, ([] : List Message)) <$> e.onBuf op = .ok (e', out) → e'.b.isSome := by
    intro op h
    obtain ⟨-, b, b', res, -, -, rfl⟩ := map_onBuf_cases h
    rfl
  have hkept : ∀ {t : MsgType}, MsgType.ofCode msg.type = some t → t ≠ .fileResponse → e.b.isSome := by
    intro t ht hne
    refine hbuf.resolve_right fun hcode => hne ?_
    rw [hcode, MsgType.ofCode_code] at ht
    exact (Option.some.inj ht).symm
  unfold handleMsg at h
  split at h
  · next ht =>
      obtain ⟨rfl, -⟩ := Prod.mk.inj (Except.ok.inj h)
      exact hkept ht (by decide)
  · obtain ⟨b, -, h⟩ := Except.bind_eq_ok.mp h
    obtain ⟨rfl, -⟩ := Prod.mk.inj (Except.ok.inj h)
    rfl
  · obtain ⟨c, -, h⟩ := Except.bind_eq_ok.mp h
    exact honBuf h
  · exact honBuf h
  · exact honBuf h
  · obtain ⟨dir, -, h⟩ := Except.bind_eq_ok.mp h
    exact honBuf h
  · next ht =>
      split at h
      · obtain ⟨e₁, hrun, he⟩ := Except.map_eq_ok.mp h
        obtain ⟨rfl, rfl⟩ := Prod.mk.inj he
        unfold addCursor at hrun
        split at hrun
        · cases hrun
        · obtain ⟨f, -, hrun⟩ := Except.bind_eq_ok.mp hrun
          obtain ⟨b, b', res, -, -, rfl⟩ := onBuf_cases hrun
          rfl
      · obtain ⟨rfl, -⟩ := Prod.mk.inj (Except.ok.inj h)
        exact hkept ht (by decide)
  · exact honBuf h
  · next h₁ h₂ h₃ h₄ h₅ h₆ h₇ h₈ =>
      obtain ⟨rfl, -⟩ := Prod.mk.inj (Except.ok.inj h)
      exact hbuf.resolve_right fun hcode => h₂ (by rw [hcode, MsgType.ofCode_code])

theorem Runs.buf (h : e.Runs msgs e') (hsnap : ∃ m ∈ msgs, m.type = MsgType.fileResponse.code) : e'.b.isSome := by
  induction h with
  | init => simp at hsnap
  | @handle msgs e₁ e' msg out _ hmsg ih =>
      refine handleMsg_buf hmsg ?_
      obtain ⟨m, hm, ht⟩ := hsnap
      rcases List.mem_append.mp hm with hm | hm
      · exact .inl (ih ⟨m, hm, ht⟩)
      · obtain rfl := List.mem_singleton.mp hm
        exact .inr ht
  | press _ hkey =>
      obtain ⟨b, b', op, own, res, -, -, -, -, -, -, rfl⟩ := handleInput_ok hkey
      rfl

end Editor

/-! ## What is put on a connection -/

/-- Nothing in the list tells of an edit or a cursor before there is the document. -/
def SnapshotFirst (msgs : List Message) : Prop :=
  ∀ old msg rest, msgs = old ++ msg :: rest → msg.IsNews → ∃ m ∈ old, m.type = MsgType.fileResponse.code

theorem SnapshotFirst.append {msgs more : List Message} (h : SnapshotFirst msgs)
    (hmore : ∀ msg ∈ more, msg.IsNews → ∃ m ∈ msgs, m.type = MsgType.fileResponse.code) : SnapshotFirst (msgs ++ more) := by
  intro old msg rest heq hnews
  have hlate : (∃ m ∈ msgs, m.type = MsgType.fileResponse.code) → msgs <+: old → ∃ m ∈ old, m.type = MsgType.fileResponse.code :=
    fun ⟨m, hm, ht⟩ hpre => ⟨m, hpre.subset hm, ht⟩
  -- the message is one of the new ones, or it was there before
  rcases List.append_eq_append_iff.mp heq with ⟨mid, rfl, hmid⟩ | ⟨mid, hmid, hrest⟩
  · exact hlate (hmore msg (by rw [hmid]; simp) hnews) (List.prefix_append ..)
  · cases mid with
    | nil =>
        rw [List.append_nil] at hmid
        subst hmid
        exact hmore msg (by rw [← List.nil_append more, ← hrest]; simp) hnews
    | cons m mid =>
        obtain ⟨rfl, -⟩ := List.cons.inj hrest
        exact h old msg mid hmid hnews

namespace World

variable {w w' : World R} {ev : Event} {c fd : Conn} {msg : Message} {replies : List Message}

omit [Rope R] in
/-- A reply tells of no edit. -/
theorem Replied.not_news (h : w.Replied fd ev replies) (hmem : msg ∈ replies) : ¬ msg.IsNews := by
  have hno : ∀ {t : MsgType} {userId fileId fileVersion : Int} {payload : Option Bytes},
      t ∉ [MsgType.insert, .insertLine, .delete, .moveCursor, .addCursor, .deleteCursor] →
        ¬ (createMsg t userId fileId fileVersion payload).IsNews := by
    rintro t userId fileId fileVersion payload hno ⟨t', hmem, ht⟩
    exact hno (MsgType.code_inj.mp ht ▸ hmem)
  cases h with
  | nothing => cases hmem
  | welcome | reject | snapshot =>
      obtain rfl := List.mem_singleton.mp hmem
      exact hno (by decide)

end World

section
variable {w₀ w : World R} {trace : List (Step R)} {c : Conn}

/-- Nobody is told of an edit before he has been sent the document. -/
theorem Run.snapshotFirst (h₀ : WorkerStart w₀) (h : Run (fun w ev => ev.AmongMembers w) w₀ trace w) (c : Conn) :
    SnapshotFirst (w.inbox c) := by
  induction h with
  | init =>
      intro old msg rest heq
      rw [World.inbox, h₀.sent] at heq
      simp at heq
  | @step trace w w' ev hrun _ hok hstep ih =>
      obtain ⟨fd, replies, hsends, hreplied, hentry⟩ := World.step_sends (hrun.frame.1.trans h₀.mode) hstep
      rw [(hrun.polled h₀.pollList h₀.closed).inbox hsends c, List.append_assoc]
      refine ih.append fun msg hmsg hnews => ?_
      rcases List.mem_append.mp hmsg with hmsg | hmsg
      · split at hmsg
        · exact absurd hnews (hreplied.not_news hmsg)
        · cases hmsg
      · split at hmsg
        · next hc =>
            obtain ⟨e, he, -⟩ := World.mem_news.mp hmsg
            exact hok.members e he c (hentry e he ▸ hc)
        · cases hmsg

/-- Over a connection that nobody has logged in over, nothing is learned of the document. -/
theorem Run.rejected (h₀ : WorkerStart w₀) (h : Run (fun w ev => ev.AmongMembers w) w₀ trace w)
    (hno : ∀ s ∈ trace, ∀ u, ¬ s.LogsIn c u) : ∀ msg ∈ w.inbox c, msg = createMsg .msgFailed (-1) (-1) (-1) none := by
  induction h with
  | init => simp [World.inbox, h₀.sent]
  | @step trace w w' ev hrun _ hok hstep ih =>
      obtain ⟨hlast, hbefore⟩ := List.forall_mem_cons.mp hno
      have hpolled := hrun.polled h₀.pollList h₀.closed
      have hmode := hrun.frame.1.trans h₀.mode
      -- without a login there is no `MSG_OK`, and without one the document is not asked for over the connection
      have hwelcome : ∀ u, ¬ w'.Welcomed c u := by
        intro u hu
        rcases (hpolled.welcomed hmode hstep).mp hu with hu | hlogin
        · obtain ⟨s, hs, hlogin⟩ := (hrun.welcomed_iff h₀).mp hu
          exact hbefore s hs u hlogin
        · exact hlast u hlogin
      obtain ⟨fd, replies, hsends, hreplied, hentry⟩ := World.step_sends hmode hstep
      intro msg hmsg
      have hmsg' := hmsg
      rw [hpolled.inbox hsends c, List.mem_append, List.mem_append] at hmsg
      rcases hmsg with (hmsg | hmsg) | hmsg
      · exact ih hbefore msg hmsg
      · split at hmsg
        · next hc =>
            subst hc
            cases hreplied with
            | nothing => cases hmsg
            | @welcome i m a u list =>
                obtain rfl := List.mem_singleton.mp hmsg
                exact absurd ⟨_, hmsg', rfl, rfl⟩ (hwelcome u)
            | reject => exact List.mem_singleton.mp hmsg
            | @snapshot e s he hfd ht =>
                obtain ⟨u, hu⟩ := hok.loggedIn e he ht
                exact absurd ((hpolled.welcomed hmode hstep).mpr (.inl (hfd ▸ hu))) (hwelcome u)
        · cases hmsg
      · split at hmsg
        · next hc =>
            -- who is told of a call has been sent the document before, but here only `MSG_FAILED` was
            obtain ⟨e, he, -⟩ := World.mem_news.mp hmsg
            obtain ⟨m, hm, ht⟩ := hok.members e he c (hentry e he ▸ hc)
            rw [ih hbefore m hm] at ht
            cases MsgType.code_inj.mp ht
        · cases hmsg

end

instance (w : World R) (ev : Event) : Decidable (ev.AmongMembers w) :=
  decidable_of_iff ((∀ e ∈ w.entry ev, ∀ c ∈ w.others e.fd, ∃ msg ∈ w.inbox c, msg.type = MsgType.fileResponse.code) ∧
    ∀ e ∈ w.entry ev, e.msg.type = MsgType.fileRequest.code → ∃ msg ∈ w.inbox e.fd, msg.type = MsgType.msgOk.code)
    ⟨fun ⟨hmembers, hlogin⟩ => ⟨hmembers, fun e he ht => (hlogin e he ht).elim fun msg h => ⟨msg.userId, msg, h.1, h.2, rfl⟩⟩,
      fun ⟨hmembers, hlogin⟩ => ⟨hmembers, fun e he ht => (hlogin e he ht).elim fun _ ⟨msg, hmem, h, _⟩ => ⟨msg, hmem, h⟩⟩⟩

/-- Anna joins, then Bert connects, logs in, joins, and types. -/
def turnEvents : List Event :=
  [.accept 0, .message 0 annaLogin demoAnswers, .message 0 (createMsg .fileRequest 1 1 (-1) none) demoAnswers,
    .accept 1, .message 1 bertLogin demoAnswers, .message 1 (createMsg .fileRequest 2 1 (-1) none) demoAnswers,
    .message 1 (createMsg .insert 2 1 0 (some (bytes "x"))) demoAnswers]

theorem Editor.Runs.watch {e : Editor R} {msgs : List Message} :
    ∀ {e₁ e' : Editor R} {old : List Message}, e.Runs old e₁ → e₁.watch (msgs.map Message.received) = .ok e' →
      e.Runs (old ++ msgs) e' := by
  induction msgs with
  | nil =>
      intro e₁ e' old hold h
      obtain rfl := Except.ok.inj h
      rwa [List.append_nil]
  | cons msg msgs ih =>
      intro e₁ e' old hold h
      obtain ⟨e₂, hmsg, h⟩ := Except.bind_eq_ok.mp h
      obtain ⟨⟨e₂, out⟩, hrun, rfl⟩ := Except.map_eq_ok.mp hmsg
      rw [List.append_cons]
      exact ih (.handle hold hrun) h

/-- A message with an ASCII payload is received as it was sent. -/
theorem Message.received_of_ascii {msg : Message} (h : ∀ pl ∈ msg.payload, ∀ c ∈ pl, c.toNat < 128) : msg.received = msg := by
  have hsent : CoEditor.sentPayload msg.payload = msg.payload := by
    cases hpl : msg.payload with
    | none => rfl
    | some pl => exact if_pos (Utf8.valid_iff.mp (Utf8.valid_ascii (h pl hpl)))
  rw [received, hsent]

end CoEditor
