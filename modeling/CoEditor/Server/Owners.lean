-- SUMMARY: Whose messages a worker acts on: flags of users against the logins over a connection.
import CoEditor.Server.Log

/-!
# Owners

The flags of a worker tell which users have logged in, and a message tells on
its own whose it is. Nothing ties a user to the connection of his login. Only
while nobody speaks for a user who has logged in over another connection does
a message that is acted on come from the user it names.
-/

namespace CoEditor

variable {R : Type} [Rope R]

/-- `MSG_OK` for user `u` has been put on the connection. -/
def World.Welcomed (w : World R) (fd : Conn) (u : Int) : Prop :=
  ∃ msg ∈ w.inbox fd, msg.type = MsgType.msgOk.code ∧ msg.userId = u

/-- The message is an edit, asks for the document, or says goodbye. -/
def Message.IsCall (msg : Message) : Prop :=
  ∃ t ∈ [MsgType.insert, .insertLine, .delete, .moveCursor, .fileRequest, .quit], msg.type = t.code

/-- A message that wants something of the worker names a user of the table, or one without a flag behind the table; and if he
    has logged in, he has done so over this connection. -/
def Event.FromOwner (w : World R) (ev : Event) : Prop :=
  ∀ i msg a fd, ev = .message i msg a → w.connAt i = some fd → msg.IsCall →
    (w.proc.InTable msg.userId ∨ a.outside msg.userId = false) ∧ ∀ c, w.Welcomed c msg.userId → w.Welcomed fd msg.userId

/-- In this step a `QUIT` comes over the connection. -/
def Step.QuitsOver (s : Step R) (fd : Conn) : Prop :=
  ∃ i msg a, s.event = .message i msg a ∧ s.pre.connAt i = some fd ∧ msg.type = MsgType.quit.code

/-! ## Who has logged in over a connection -/

omit [Rope R] in
theorem Message.IsCall.needsLogin {msg : Message} (h : msg.IsCall) : World.NeedsLogin msg := by
  obtain ⟨t, hmem, ht⟩ := h
  refine ⟨MsgType.ne_code ht ?_, MsgType.ne_code ht ?_⟩
  · rintro rfl
    exact absurd hmem (by decide)
  · rintro rfl
    exact absurd hmem (by decide)

/-- The others are told of edits and of cursors. -/
theorem Message.Calls.news_type {msg : Message} {op : Op} (h : msg.Calls op) {t : MsgType}
    (ht : t ∉ [MsgType.insert, .insertLine, .delete, .moveCursor, .addCursor, .deleteCursor]) : msg.news.type ≠ t.code := by
  have hmem : ∀ t' ∈ [MsgType.insert, .insertLine, .delete, .moveCursor, .addCursor, .deleteCursor], t'.code ≠ t.code :=
    fun t' hmem heq => ht (MsgType.code_inj.mp heq ▸ hmem)
  cases h with
  | join hcode =>
      simp only [Message.news, hcode, MsgType.ofCode_code]
      exact hmem .addCursor (by decide)
  | leave hcode =>
      simp only [Message.news, hcode, MsgType.ofCode_code]
      exact hmem .deleteCursor (by decide)
  | edit hasks =>
      rw [hasks.news_eq]
      cases hasks with
      | insert hcode => exact hcode ▸ hmem .insert (by decide)
      | insertLine hcode => exact hcode ▸ hmem .insertLine (by decide)
      | del hcode => exact hcode ▸ hmem .delete (by decide)
      | move hcode => exact hcode ▸ hmem .moveCursor (by decide)

namespace World

variable {w w' : World R} {ev : Event} {c fd : Conn} {u : Int} {msg : Message}

omit [Rope R] in
theorem mem_news : msg ∈ w.news ev ↔ ∃ e, w.entry ev = some e ∧ msg = e.msg.news := by
  rw [news]
  cases w.entry ev with
  | none => simp
  | some e => simp

/-- A `LOGIN` is answered, and nobody else is told of it. -/
theorem Polled.welcomed (h : w.Polled) (hmode : w.proc.mode = .worker) (hstep : w.step ev = .ok w') :
    w'.Welcomed c u ↔ w.Welcomed c u ∨ (⟨w, ev, w'⟩ : Step R).LogsIn c u := by
  obtain ⟨fd, replies, hsends, hreplied, -⟩ := step_sends hmode hstep
  have hinbox := h.inbox hsends c
  constructor
  · rintro ⟨m, hm, ht, rfl⟩
    rw [hinbox, List.mem_append, List.mem_append] at hm
    -- it was there, or it is the reply of this step, or it tells of a call
    rcases hm with (hm | hm) | hm
    · exact .inl ⟨m, hm, ht, rfl⟩
    · split at hm
      · next hc =>
          subst hc
          cases hreplied with
          | nothing => cases hm
          | @welcome i msg a v list hev hfd hcode =>
              obtain rfl := List.mem_singleton.mp hm
              have hnone : w.news ev = [] := by
                have hentry : w.entry ev = none := by
                  refine entry_eq_none.mpr ?_
                  rintro op ⟨i', msg', a', fd', he, -, -, hcalls⟩
                  obtain ⟨rfl, rfl, rfl⟩ := Event.message.inj (hev.symm.trans he)
                  exact hcalls.type_ne (by decide) hcode
                rw [news, hentry]
                rfl
              rw [hnone] at hsends
              have hsent : w'.sent = w.sent ++ [(c, .sendMsg (createMsg .msgOk v (-1) (-1) (some list)))] := by
                simpa [Sends] using hsends
              exact .inr ⟨msg, ⟨i, a, hev, hfd, list, hsent⟩, hcode⟩
          | reject =>
              obtain rfl := List.mem_singleton.mp hm
              cases MsgType.code_inj.mp ht
          | snapshot =>
              obtain rfl := List.mem_singleton.mp hm
              cases MsgType.code_inj.mp ht
      · cases hm
    · split at hm
      · obtain ⟨e, he, rfl⟩ := mem_news.mp hm
        obtain ⟨-, -, -, -, -, hcalls⟩ := entry_eq_some.mp he
        exact absurd ht (hcalls.news_type (by decide))
      · cases hm
  · rintro (⟨m, hm, h⟩ | ⟨msg, ⟨i, a, -, -, list, hsent⟩, -⟩)
    · exact ⟨m, by rw [hinbox, List.append_assoc]; exact List.mem_append_left _ hm, h⟩
    · refine ⟨createMsg .msgOk u (-1) (-1) (some list), ?_, rfl, rfl⟩
      rw [World.inbox, show w'.sent = _ from hsent]
      simp [Send.msg]

/-- After a `QUIT` the connection is closed, whoever was meant by it. -/
theorem handleMsg_quit {a : Answers} (h : w.handleMsg a fd msg = .ok w') (ht : msg.type = MsgType.quit.code) :
    fd ∈ w'.closed := by
  have hne : ∀ {t : MsgType}, t ≠ .quit → msg.type = t.code → False := fun hne ht' => hne (Message.type_unique ht' ht)
  obtain ⟨-, rfl⟩ | ⟨-, ⟨-, h⟩ | ⟨-, h⟩⟩ := handleMsg_cases h
  -- one that is refused closes its connection, too
  · exact List.mem_cons_self ..
  · cases handleServer_does h with
    | login ht' | register ht' | fileRequest ht' | createFile ht' | deleteFile ht' => exact (hne (by decide) ht').elim
    | quit => exact List.mem_cons_self ..
    | ignore hts => exact absurd ht (hts .quit (by simp))
  · cases handleWorker_does h with
    | login ht' | join ht' => exact (hne (by decide) ht').elim
    | leave => exact List.mem_cons_self ..
    | edit hasks => exact absurd ht (hasks.type_ne (by decide))
    | ignore hts => exact absurd ht (hts .quit (by simp))

end World

section
variable {ok : World R → Event → Prop} {w₀ w : World R} {trace new old : List (Step R)} {fd : Conn} {u : Int} {s : Step R}

/-- The users that were welcomed over a connection are those that have logged in over it. -/
theorem Run.welcomed_iff (h₀ : WorkerStart w₀) (h : Run ok w₀ trace w) : w.Welcomed fd u ↔ ∃ s ∈ trace, s.LogsIn fd u := by
  induction h with
  | init => simp [World.Welcomed, World.inbox, h₀.sent]
  | step hrun _ _ hstep ih =>
      rw [(hrun.polled h₀.pollList h₀.closed).welcomed (hrun.frame.1.trans h₀.mode) hstep, ih, List.exists_mem_cons_iff]
      exact or_comm

theorem Run.quit_closed (h : Run ok w₀ trace w) (hs : s ∈ trace) (hquit : s.QuitsOver fd) : fd ∈ w.closed := by
  induction h with
  | init => cases hs
  | step _ _ _ hstep ih =>
      rcases List.mem_cons.mp hs with rfl | hs
      · obtain ⟨i, msg, a, rfl, hfd, ht⟩ := hquit
        simp only [World.step, hfd] at hstep
        exact World.handleMsg_quit hstep ht
      · exact World.step_closed hstep (ih hs)

/-- As long as nobody speaks for a user who has logged in over another connection only: whenever an edit, a request for the
    document or a goodbye does more than get its connection closed, its user has logged in over this connection before, and
    no `QUIT` has come over it. -/
theorem edits_need_login (h₀ : WorkerStart w₀) (h : Run (fun w ev => ev.FromOwner w) w₀ (new ++ s :: old) w) {i : Nat}
    {msg : Message} {a : Answers} (hev : s.event = .message i msg a) (hfd : s.pre.connAt i = some fd) (hcall : msg.IsCall) :
    ((∃ s' ∈ old, s'.LogsIn fd msg.userId) ∧ ∀ s' ∈ old, ¬ s'.QuitsOver fd) ∨
      s.post = (s.pre.readsClient msg.userId).closeSocket fd := by
  obtain ⟨hrun, -, hok, hstep⟩ := h.of_suffix (s := s) (t := old) (List.suffix_append _ _)
  have hpolled := hrun.polled h₀.pollList h₀.closed
  rw [hev] at hok hstep
  obtain ⟨htable, howner⟩ := hok i msg a fd rfl hfd hcall
  simp only [World.step, hfd] at hstep
  rcases World.handleMsg_cases hstep with ⟨-, hpost⟩ | ⟨hadm, -⟩
  · exact .inr hpost
  · have hflag := hadm.resolve_right fun h => h hcall.needsLogin
    -- the flag was found in the table, where a login has raised it
    have hin : s.pre.proc.InTable msg.userId := by
      by_contra hout
      rw [Proc.loggedIn, if_neg hout, htable.resolve_left hout] at hflag
      cases hflag
    have hlen : s.pre.proc.clients.length = maxClients + 1 := by rw [hrun.frame.2, h₀.clients, List.length_replicate]
    have hu : 0 ≤ msg.userId ∧ msg.userId ≤ maxClients := by
      obtain ⟨hpos, hlt⟩ := hin
      have : (maxClients : Int) = 5 := rfl
      omega
    obtain ⟨s', hs', c, hlogin⟩ := hrun.login_of_flag h₀.clients hu hflag
    -- that login may have come over another connection, but then the condition gives one over this
    have hwelcomed := howner c ((hrun.welcomed_iff h₀).mpr ⟨s', hs', hlogin⟩)
    refine .inl ⟨(hrun.welcomed_iff h₀).mp hwelcomed, fun s' hs' hquit => ?_⟩
    exact hpolled.notClosed i fd hfd (hrun.quit_closed hs' hquit)

end

/-- A client that has never logged in asks for the document under the name of user 1, and gets it. -/
theorem snapshot_without_login : ∃ (b : Buffer ListRope) (w w' : World ListRope) (trace : List (Step ListRope)) (s : Bytes),
    WorkerStart (demoWorld .worker demoDisk (some b)) ∧ AnyRun (demoWorld .worker demoDisk (some b)) trace w ∧
    (∀ s ∈ trace, ∀ u, ¬ s.LogsIn 1 u) ∧ w.connAt 1 = some 1 ∧
    w.step (.message 1 (createMsg .fileRequest 1 1 0 none) demoAnswers) = .ok w' ∧
    w.proc.buf = some b ∧ bufferSerialize b = .ok s ∧
    (1, Send.sendMsg (createMsg .fileResponse 1 1 0 (some s))) ∈ w'.sent := by
  obtain ⟨b, hb, ⟨s, hs⟩, b', res, hrun⟩ := demo_buffer
  obtain ⟨w, trace, hw, hmode, hbuf, hclients, hpoll, -, -, -, hno⟩ := demo_run (fun _ _ _ => trivial) b
  have hflag : w.proc.loggedIn demoAnswers.outside 1 = true := by simp [Proc.loggedIn, Proc.InTable, hclients]
  have hfd : w.connAt 1 = some 1 := by
    rw [World.connAt, hpoll]
    rfl
  have hstep : w.handleMsg demoAnswers 1 (createMsg .fileRequest 1 1 0 none) = _ := World.handleMsg_admitted (.inl hflag)
  simp only [hmode] at hstep
  rw [World.handleWorker_join rfl (by exact hbuf) hs (by exact hrun)] at hstep
  refine ⟨b, w, _, trace, s, demoWorld_worker hb, hw, hno, hfd, by simp only [World.step, hfd]; exact hstep, hbuf, hs, ?_⟩
  simp [World.sendMsgEveryone, World.setBuf, World.sendMsg, createMsg]

/-- Anna types over the connection that she has logged in over. -/
theorem edits_need_login_demo : ∃ (b : Buffer ListRope) (s : Step ListRope) (trace : List (Step ListRope)),
    Run (fun w ev => ev.FromOwner w) (demoWorld .worker demoDisk (some b)) (s :: trace) s.post ∧
    s.event = .message 0 annaInsert demoAnswers ∧
    (((∃ s' ∈ trace, s'.LogsIn 0 1) ∧ ∀ s' ∈ trace, ¬ s'.QuitsOver 0) ∨ s.post = (s.pre.readsClient 1).closeSocket 0) := by
  have hquiet : ∀ (w : World ListRope) (ev : Event), (∀ i msg a, ev = .message i msg a → msg = annaLogin) → ev.FromOwner w := by
    rintro w ev hlogin i msg a fd hev - ⟨t, hmem, ht⟩
    obtain rfl := hlogin i msg a hev
    obtain rfl : t = .login := MsgType.code_inj.mp ht.symm
    exact absurd hmem (by decide)
  obtain ⟨b, w, w', trace, h₀, hw, hfd, hclients, hstep, hinbox, -⟩ := demo_edit hquiet
  have hok : Event.FromOwner w (.message 0 annaInsert demoAnswers) := by
    rintro i msg a fd hev hfd' -
    obtain ⟨rfl, rfl, rfl⟩ := Event.message.inj hev
    obtain rfl := Option.some.inj (hfd.symm.trans hfd')
    exact ⟨.inl (Proc.inTable_of_le (by rw [hclients]; rfl) (by decide)), fun _ _ => ⟨_, hinbox, rfl, rfl⟩⟩
  have hrun : Run (fun w ev => ev.FromOwner w) (demoWorld .worker demoDisk (some b))
      ([] ++ ⟨w, .message 0 annaInsert demoAnswers, w'⟩ :: trace) w' := .step hw trivial hok hstep
  exact ⟨b, _, trace, hrun, rfl, edits_need_login h₀ hrun rfl hfd ⟨.insert, by decide, rfl⟩⟩

end CoEditor
