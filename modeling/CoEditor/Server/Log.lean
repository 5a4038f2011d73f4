-- SUMMARY: A worker puts the calls of all users into one order, and tells every connection those of the others in that order.
import CoEditor.Server.Cursors
import CoEditor.Server.Members

/-!
# The log

A worker orders the calls of its users by handling their messages one after
another. Its buffer is what comes of the calls in this order, and
`send_msg_everyone` tells every connection the same order.
-/

namespace CoEditor

variable {R : Type} [Rope R]

namespace Message

/-- The call on the buffer that a message asks for. -/
def op (msg : Message) : Option Op :=
  match MsgType.ofCode msg.type with
  | some .fileRequest => some (.copyOwn msg.userId)
  | some .quit => some (.free msg.userId)
  | some .insert => (firstChar msg.payload).toOption.map (.insert msg.userId)
  | some .insertLine => some (.insertLine msg.userId)
  | some .delete => some (.del msg.userId)
  | some .moveCursor => (readDir msg.payload).toOption.map (.move msg.userId)
  | _ => none

/-- What the others are told of it. -/
def news (msg : Message) : Message :=
  match MsgType.ofCode msg.type with
  | some .fileRequest => createMsg .addCursor msg.userId msg.fileId msg.fileVersion none
  | some .quit => createMsg .deleteCursor msg.userId msg.fileId msg.fileVersion none
  | _ => msg

variable {msg : Message} {op : Op}

theorem Calls.op_eq (h : msg.Calls op) : msg.op = some op := by
  cases h with
  | join ht => simp only [Message.op, ht, MsgType.ofCode_code]
  | leave ht => simp only [Message.op, ht, MsgType.ofCode_code]
  | edit h =>
      cases h with
      | insert ht hpl => simp only [Message.op, ht, MsgType.ofCode_code, firstChar, hpl]; rfl
      | insertLine ht => simp only [Message.op, ht, MsgType.ofCode_code]
      | del ht => simp only [Message.op, ht, MsgType.ofCode_code]
      | move ht hdir => simp only [Message.op, ht, MsgType.ofCode_code, hdir]; rfl

/-- A message that asks for a call is of one of these types. -/
theorem Calls.not_ignored (h : msg.Calls op)
    (hts : ∀ t ∈ [MsgType.fileRequest, .quit, .insert, .insertLine, .delete, .moveCursor], msg.type ≠ t.code) : False := by
  cases h with
  | join ht => exact hts .fileRequest (by simp) ht
  | leave ht => exact hts .quit (by simp) ht
  | edit h =>
      cases h with
      | insert ht => exact hts .insert (by simp) ht
      | insertLine ht => exact hts .insertLine (by simp) ht
      | del ht => exact hts .delete (by simp) ht
      | move ht => exact hts .moveCursor (by simp) ht

theorem op_eq_some : msg.op = some op ↔ msg.Calls op := by
  refine ⟨fun h => ?_, Calls.op_eq⟩
  unfold Message.op at h
  split at h
  · next ht =>
      obtain rfl := Option.some.inj h
      exact .join (MsgType.ofCode_eq_some.mp ht)
  · next ht =>
      obtain rfl := Option.some.inj h
      exact .leave (MsgType.ofCode_eq_some.mp ht)
  · next ht =>
      obtain ⟨c, hc, rfl⟩ := Option.map_eq_some_iff.mp h
      obtain ⟨s, hs, hc⟩ := Except.bind_eq_ok.mp (Except.toOption_eq_some.mp hc)
      obtain rfl := Except.ok.inj hc
      cases hpl : msg.payload with
      | none => rw [hpl] at hs; cases hs
      | some s' =>
          rw [hpl] at hs
          obtain rfl := Except.ok.inj hs
          exact .edit (.insert (MsgType.ofCode_eq_some.mp ht) hpl)
  · next ht =>
      obtain rfl := Option.some.inj h
      exact .edit (.insertLine (MsgType.ofCode_eq_some.mp ht))
  · next ht =>
      obtain rfl := Option.some.inj h
      exact .edit (.del (MsgType.ofCode_eq_some.mp ht))
  · next ht =>
      obtain ⟨dir, hdir, rfl⟩ := Option.map_eq_some_iff.mp h
      exact .edit (.move (MsgType.ofCode_eq_some.mp ht) (Except.toOption_eq_some.mp hdir))
  · cases h

theorem Asks.news_eq (h : msg.Asks op) : msg.news = msg := by
  unfold Message.news
  split
  · next ht => exact absurd (MsgType.ofCode_eq_some.mp ht) (h.type_ne (by decide))
  · next ht => exact absurd (MsgType.ofCode_eq_some.mp ht) (h.type_ne (by decide))
  · rfl

end Message

/-- The event is a message that came over connection `fd`. -/
def World.Sender (w : World R) (ev : Event) (fd : Conn) : Prop := ∃ i msg a, ev = .message i msg a ∧ w.connAt i = some fd

instance (w : World R) (ev : Event) (fd : Conn) : Decidable (w.Sender ev fd) :=
  match ev with
  | .message i msg a => decidable_of_iff (w.connAt i = some fd)
      ⟨fun h => ⟨i, msg, a, rfl, h⟩, fun ⟨_, _, _, he, h⟩ => (Event.message.inj he).1 ▸ h⟩
  | .accept _ | .hangup _ | .eof _ | .files _ | .gone _ => .isFalse (by rintro ⟨_, _, _, ⟨⟩, _⟩)

/-- A call that a worker has made: the message that asked for it, and the connection it came over. -/
structure Entry where
  fd : Conn
  msg : Message
  op : Op

/-- The call that an event brings about. -/
def World.entry (w : World R) : Event → Option Entry
  | .message i msg a => do
      let fd ← w.connAt i
      if w.proc.loggedIn a.outside msg.userId then
        let op ← msg.op
        some ⟨fd, msg, op⟩
      else none
  | _ => none

/-- The calls of a run, the first one first. -/
def log (trace : List (Step R)) : List Entry := trace.reverse.filterMap fun s => s.pre.entry s.event

/-- What is broadcast to a connection by a call of `send_msg` or `send_msg_without_delete`. -/
def told (c : Conn) : Conn × Send → Option Message
  | (_, .sendMsg _) => none
  | (fd, .sendMsgWithoutDelete msg) => if fd = c then some msg else none

/-- The broadcasts that were put on a connection, the first one first. -/
def World.heard (w : World R) (c : Conn) : List Message := w.sent.filterMap (told c)

/-- The buffer after calls one after another. -/
def Buffer.after (b : Buffer R) (ops : List Op) : Except Fault (Buffer R) :=
  ops.foldlM (fun b op => Prod.fst <$> op.run b) b

omit [Rope R] in
theorem log_cons (s : Step R) (trace : List (Step R)) : log (s :: trace) = log trace ++ (s.pre.entry s.event).toList := by
  rw [log, List.reverse_cons, List.filterMap_append, ← log]
  cases h : s.pre.entry s.event <;> simp [h]

theorem Buffer.after_concat {b b' b'' : Buffer R} {ops : List Op} {op : Op} {res : Bres} (h : b.after ops = .ok b')
    (hrun : op.run b' = .ok (b'', res)) : b.after (ops ++ [op]) = .ok b'' := by
  rw [after] at h
  rw [after, List.foldlM_append, h, Except.ok_bind_eq]
  simp [hrun]

namespace World

variable {w w' : World R} {ev : Event} {e : Entry} {fd c : Conn}

omit [Rope R] in
theorem entry_eq_some : w.entry ev = some e ↔ ∃ i a, ev = .message i e.msg a ∧ w.connAt i = some e.fd ∧
    w.proc.loggedIn a.outside e.msg.userId = true ∧ e.msg.Calls e.op := by
  constructor
  · intro h
    cases ev with
    | message i msg a =>
        obtain ⟨fd, hfd, h⟩ := Option.bind_eq_some_iff.mp h
        split at h
        · next hflag =>
            obtain ⟨op, hop, he⟩ := Option.bind_eq_some_iff.mp h
            obtain rfl := Option.some.inj he
            exact ⟨i, a, rfl, hfd, hflag, Message.op_eq_some.mp hop⟩
        · cases h
    | accept | hangup | eof | files | gone => cases h
  · rintro ⟨i, a, rfl, hfd, hflag, hcalls⟩
    simp only [entry, hfd, hflag, hcalls.op_eq, Option.bind_eq_bind, Option.bind_some, if_true]

omit [Rope R] in
theorem entry_eq_none : w.entry ev = none ↔ ∀ op, ¬ w.Calls ev op := by
  constructor
  · rintro h op ⟨i, msg, a, fd, rfl, hfd, hflag, hcalls⟩
    have hentry : w.entry (.message i msg a) = some ⟨fd, msg, op⟩ := entry_eq_some.mpr ⟨i, a, rfl, hfd, hflag, hcalls⟩
    rw [h] at hentry
    cases hentry
  · intro h
    cases hentry : w.entry ev with
    | none => rfl
    | some e =>
        obtain ⟨i, a, hev, hfd, hflag, hcalls⟩ := entry_eq_some.mp hentry
        exact absurd ⟨i, e.msg, a, e.fd, hev, hfd, hflag, hcalls⟩ (h e.op)

/-- What a worker replies to the connection an event came over. -/
inductive Replied (w : World R) (fd : Conn) (ev : Event) : List Message → Prop where
  | nothing : Replied w fd ev []
  | welcome {i : Nat} {msg : Message} {a : Answers} {u : Int} {list : Bytes} : ev = .message i msg a → w.connAt i = some fd →
      msg.type = MsgType.login.code → Replied w fd ev [createMsg .msgOk u (-1) (-1) (some list)]
  | reject : Replied w fd ev [createMsg .msgFailed (-1) (-1) (-1) none]
  | snapshot {e : Entry} {s : Bytes} : w.entry ev = some e → e.fd = fd → e.msg.type = MsgType.fileRequest.code →
      Replied w fd ev [createMsg .fileResponse e.msg.userId e.msg.fileId e.msg.fileVersion (some s)]

/-- A message that a worker handles brings about a call that the others are told of, or it leaves the buffer alone and they
    are told nothing. -/
theorem handleMsg_entry {i : Nat} {a : Answers} {msg : Message} (hmode : w.proc.mode = .worker) (hfd : w.connAt i = some fd)
    (h : w.handleMsg a fd msg = .ok w') :
    (∃ op b b' res replies, w.entry (.message i msg a) = some ⟨fd, msg, op⟩ ∧ w.proc.buf = some b ∧
      op.run b = .ok (b', res) ∧ w'.proc.buf = some b' ∧ w.Sends w' fd replies [msg.news] ∧
      w.Replied fd (.message i msg a) replies) ∨
    w.entry (.message i msg a) = none ∧ w'.proc.buf = w.proc.buf ∧
      ∃ replies, w.Sends w' fd replies [] ∧ w.Replied fd (.message i msg a) replies := by
  have hentry : ∀ {op}, Admits a w msg → msg.Calls op → w.entry (.message i msg a) = some ⟨fd, msg, op⟩ :=
    fun hadm hcalls => entry_eq_some.mpr ⟨i, a, rfl, hfd, hadm.resolve_right fun h => h hcalls.needsLogin, hcalls⟩
  have hnone : (w.proc.loggedIn a.outside msg.userId = true → msg.op = none) → w.entry (.message i msg a) = none := by
    intro hno
    refine entry_eq_none.mpr ?_
    rintro op ⟨i', msg', a', fd', he, -, hflag, hcalls⟩
    obtain ⟨rfl, rfl, rfl⟩ := Event.message.inj he
    cases hcalls.op_eq.symm.trans (hno hflag)
  have hquiet : ∀ {t : MsgType}, t ∉ [MsgType.fileRequest, .quit, .insert, .insertLine, .delete, .moveCursor] →
      msg.type = t.code → msg.op = none := by
    intro t hts ht
    by_contra hop
    obtain ⟨op, hop⟩ := Option.ne_none_iff_exists'.mp hop
    exact (Message.op_eq_some.mp hop).type_ne hts ht
  rcases handleMsg_cases h with ⟨hno, rfl⟩ | ⟨hadm, ⟨hserver, -⟩ | ⟨-, h⟩⟩
  · exact .inr ⟨hnone fun hflag => absurd (.inl hflag) hno, rfl, [], by simp [Sends, closeSocket, readsClient], .nothing⟩
  · rw [hmode] at hserver
    cases hserver
  · cases handleWorker_does h with
    | login ht h =>
        refine .inr ⟨hnone fun _ => hquiet (by decide) ht, ?_⟩
        obtain ⟨u, -, ⟨-, list, proc, hproc, rfl⟩ | ⟨-, rfl⟩⟩ := login_cases h
        · obtain ⟨-, rfl⟩ := Proc.setClient_ok hproc
          exact ⟨rfl, [createMsg .msgOk u (-1) (-1) (some list)], by simp [Sends, sendMsg, readsClient], .welcome rfl hfd ht⟩
        · exact ⟨rfl, [createMsg .msgFailed (-1) (-1) (-1) none], by simp [Sends, sendMsg, readsClient], .reject⟩
    | @join b b' s res ht hb hs hrun =>
        have hnews : msg.news = createMsg .addCursor msg.userId msg.fileId msg.fileVersion none := by
          simp only [Message.news, ht, MsgType.ofCode_code]
        exact .inl ⟨_, _, _, _, [createMsg .fileResponse msg.userId msg.fileId msg.fileVersion (some s)],
          hentry hadm (.join ht), hb, hrun, rfl, by simp [Sends, sendMsg, sendMsgEveryone, setBuf, readsClient, others, hnews],
          .snapshot (hentry hadm (.join ht)) rfl ht⟩
    | leave ht hb hrun =>
        have hnews : msg.news = createMsg .deleteCursor msg.userId msg.fileId msg.fileVersion none := by
          simp only [Message.news, ht, MsgType.ofCode_code]
        exact .inl ⟨_, _, _, _, [], hentry hadm (.leave ht), hb, hrun, rfl,
          by simp [Sends, sendMsgEveryone, setBuf, closeSocket, readsClient, others, hnews], .nothing⟩
    | edit hasks hb hrun =>
        exact .inl ⟨_, _, _, _, [], hentry hadm (.edit hasks), hb, hrun, rfl,
          by simp [Sends, sendMsgEveryone, setBuf, readsClient, others, hasks.news_eq], .nothing⟩
    | ignore hts =>
        refine .inr ⟨hnone fun _ => ?_, rfl, [], by simp [Sends, readsClient], .nothing⟩
        by_contra hop
        obtain ⟨op, hop⟩ := Option.ne_none_iff_exists'.mp hop
        have hts : ∀ t ∈ [MsgType.fileRequest, .quit, .insert, .insertLine, .delete, .moveCursor], msg.type ≠ t.code :=
          fun t ht => hts t (List.mem_cons_of_mem _ ht)
        exact (Message.op_eq_some.mp hop).not_ignored hts

/-- A step of a worker makes a call and tells the others, or it leaves the buffer alone and tells them nothing. Only the
    sender is replied to. -/
theorem step_entry (hmode : w.proc.mode = .worker) (h : w.step ev = .ok w') :
    (∃ e b b' res replies, w.entry ev = some e ∧ w.proc.buf = some b ∧ e.op.run b = .ok (b', res) ∧
      w'.proc.buf = some b' ∧ w.Sends w' e.fd replies [e.msg.news]) ∨
    w.entry ev = none ∧ w'.proc.buf = w.proc.buf ∧
      ∃ fd replies, (w.Sender ev fd ∨ replies = []) ∧ w.Sends w' fd replies [] := by
  rcases step_cases h with ⟨i, msg, a, fd, rfl, hfd, h⟩ | ⟨hev, hidle⟩
  · rcases handleMsg_entry hmode hfd h with
      ⟨op, b, b', res, replies, hentry, hb, hrun, hb', hsends, -⟩ | ⟨hentry, hbuf, replies, hsends, -⟩
    · exact .inl ⟨⟨fd, msg, op⟩, b, b', res, replies, hentry, hb, hrun, hb', hsends⟩
    · exact .inr ⟨hentry, hbuf, fd, replies, .inl ⟨i, msg, a, rfl, hfd⟩, hsends⟩
  · refine .inr ⟨entry_eq_none.mpr ?_, hidle.buf, 0, [], .inr rfl, by simp [Sends, hidle.sent]⟩
    rintro op ⟨i, msg, a, fd, he, hfd, -⟩
    exact hev i msg a fd he hfd

/-- What the others are told of an event. -/
def news (w : World R) (ev : Event) : List Message := (w.entry ev).toList.map fun e => e.msg.news

/-- What a step sends: a reply to the sender, and to the others what they are told of the call. -/
theorem step_sends (hmode : w.proc.mode = .worker) (h : w.step ev = .ok w') : ∃ fd replies, w.Sends w' fd replies (w.news ev) ∧
    w.Replied fd ev replies ∧ ∀ e, w.entry ev = some e → e.fd = fd := by
  rcases step_cases h with ⟨i, msg, a, fd, rfl, hfd, h⟩ | ⟨hev, hidle⟩
  · refine ⟨fd, ?_⟩
    rcases handleMsg_entry hmode hfd h with
      ⟨op, -, -, -, replies, hentry, -, -, -, hsends, hreplied⟩ | ⟨hentry, -, replies, hsends, hreplied⟩
    · rw [news, hentry]
      exact ⟨replies, hsends, hreplied, fun e he => congrArg Entry.fd (Option.some.inj he).symm⟩
    · rw [news, hentry]
      exact ⟨replies, hsends, hreplied, fun e he => nomatch he⟩
  · have hentry : w.entry ev = none := by
      refine entry_eq_none.mpr ?_
      rintro op ⟨i, msg, a, fd, he, hfd, -⟩
      exact hev i msg a fd he hfd
    rw [news, hentry]
    exact ⟨0, [], by simp [Sends, hidle.sent], .nothing, fun e he => nomatch he⟩

/-- A connection in the poll list was there before the step, unless it was just accepted. -/
theorem polled_before (h : w.step ev = .ok w') (hnew : ev ≠ .accept c) {i : Nat} (hc : w'.connAt i = some c) :
    ∃ j, w.connAt j = some c := by
  rcases step_conns h with ⟨fd, rfl, rfl⟩ | ⟨hpoll, -, -⟩ | ⟨k, fd, -, hpoll, -, -⟩
  · rcases getElem?_set_slot (connAt_eq.mp hc) with ⟨-, hfd⟩ | ⟨-, hc⟩
    · obtain rfl := Option.some.inj hfd
      exact absurd rfl hnew
    · exact ⟨i, connAt_eq.mpr hc⟩
  · exact ⟨i, by rw [connAt, ← hpoll]; exact hc⟩
  · rw [connAt_eq, hpoll] at hc
    rcases getElem?_set_slot hc with ⟨-, ⟨⟩⟩ | ⟨-, hc⟩
    exact ⟨i, connAt_eq.mpr hc⟩

theorem told_reply (c fd : Conn) (msgs : List Message) : (msgs.map fun m => (fd, Send.sendMsg m)).filterMap (told c) = [] := by
  simp [List.filterMap_map, told]

theorem told_broadcast (c : Conn) (m : Message) {fds : List Conn} (hnodup : fds.Nodup) :
    (fds.map fun x => (x, Send.sendMsgWithoutDelete m)).filterMap (told c) = if c ∈ fds then [m] else [] := by
  induction fds with
  | nil => rfl
  | cons x fds ih =>
      obtain ⟨hx, hnodup⟩ := List.nodup_cons.mp hnodup
      rw [List.map_cons, List.filterMap_cons, ih hnodup]
      by_cases hxc : x = c
      · subst hxc
        simp [told, hx]
      · simp [told, hxc, Ne.symm hxc]

omit [Rope R] in
/-- A broadcast is heard on the connections of the others. -/
theorem Polled.heard (h : w.Polled) {replies news : List Message} (hsends : w.Sends w' fd replies news) (c : Conn) :
    w'.heard c = w.heard c ++ if c ∈ w.others fd then news else [] := by
  rw [World.heard, hsends, List.filterMap_append, List.filterMap_append, told_reply, List.append_nil, ← World.heard,
    List.filterMap_flatMap]
  simp only [told_broadcast c _ (h.others_nodup fd)]
  split
  · rw [List.flatMap_singleton']
  · simp

end World

section
variable {w₀ w : World R} {trace : List (Step R)} {c : Conn}

/-- A connection that was not accepted has heard nothing. -/
theorem Run.heard_nil (h₀ : WorkerStart w₀) (h : AnyRun w₀ trace w) (hc : c ∉ w.accepted) : w.heard c = [] := by
  induction h with
  | init => rw [World.heard, h₀.sent, List.filterMap_nil]
  | @step trace w w' ev hrun hpossible _ hstep ih =>
      have hpolled := hrun.polled h₀.pollList h₀.closed
      have hold : c ∉ w.accepted := by
        rcases World.step_conns hstep with ⟨fd, -, rfl⟩ | ⟨-, haccepted, -⟩ | ⟨-, -, -, -, haccepted, -⟩
        · exact fun hmem => hc (List.mem_cons_of_mem _ hmem)
        · rwa [← haccepted]
        · rwa [← haccepted]
      have hothers : ∀ fd, c ∉ w.others fd := by
        intro fd hmem
        obtain ⟨-, j, hj⟩ := World.mem_others.mp hmem
        exact hold (hpolled.accepted j c hj)
      rcases World.step_entry (hrun.frame.1.trans h₀.mode) hstep with
        ⟨e, -, -, -, replies, -, -, -, -, hsends⟩ | ⟨-, -, fd, replies, -, hsends⟩
      · rw [hpolled.heard hsends, ih hold, if_neg (hothers _)]
        rfl
      · rw [hpolled.heard hsends, ih hold, if_neg (hothers _)]
        rfl

/-- The buffer of a worker is what comes of the calls of the run, one after another. -/
theorem Run.buf_log (h₀ : WorkerStart w₀) (h : AnyRun w₀ trace w) {b₀ : Buffer R} (hb₀ : w₀.proc.buf = some b₀) :
    ∃ b, w.proc.buf = some b ∧ b₀.after ((log trace).map Entry.op) = .ok b := by
  induction h with
  | init => exact ⟨b₀, hb₀, rfl⟩
  | @step trace w w' ev hrun _ _ hstep ih =>
      obtain ⟨b, hb, hafter⟩ := ih
      rw [log_cons]
      rcases World.step_entry (hrun.frame.1.trans h₀.mode) hstep with
        ⟨e, b₁, b', res, -, hentry, hb₁, hcall, hb', -⟩ | ⟨hentry, hsame, -⟩
      · obtain rfl := Option.some.inj (hb.symm.trans hb₁)
        refine ⟨b', hb', ?_⟩
        rw [hentry, Option.toList_some, List.map_append]
        exact Buffer.after_concat hafter hcall
      · exact ⟨b, hsame.trans hb, by rwa [hentry, Option.toList_none, List.append_nil]⟩

/-- What is heard on an open connection is what the others asked for since it was accepted. -/
theorem Run.heard_log (h₀ : WorkerStart w₀) (h : AnyRun w₀ trace w) {i : Nat} (hc : w.connAt i = some c) :
    ∃ new s old, trace = new ++ s :: old ∧ s.event = .accept c ∧
      w.heard c = ((log new).filter (·.fd ≠ c)).map fun e => e.msg.news := by
  induction h generalizing i with
  | init =>
      rw [World.connAt_eq, h₀.pollList, List.getElem?_replicate] at hc
      split at hc <;> cases hc
  | @step trace w w' ev hrun hpossible _ hstep ih =>
      have hpolled := hrun.polled h₀.pollList h₀.closed
      by_cases hnew : ev = .accept c
      · subst hnew
        obtain rfl := Except.ok.inj hstep
        have hnil : w.heard c = [] := hrun.heard_nil h₀ hpossible
        exact ⟨[], _, trace, rfl, rfl, hnil⟩
      · obtain ⟨j, hj⟩ := World.polled_before hstep hnew hc
        obtain ⟨new, s, old, rfl, hs, hheard⟩ := ih hj
        refine ⟨⟨w, ev, w'⟩ :: new, s, old, rfl, hs, ?_⟩
        rw [log_cons]
        rcases World.step_entry (hrun.frame.1.trans h₀.mode) hstep with
          ⟨e, -, -, -, replies, hentry, -, -, -, hsends⟩ | ⟨hentry, -, fd, replies, -, hsends⟩
        · rw [hpolled.heard hsends, hheard, hentry]
          by_cases hown : e.fd = c
          · rw [if_neg fun hmem => (World.mem_others.mp hmem).1 hown.symm]
            simp [hown]
          · rw [if_pos (World.mem_others.mpr ⟨Ne.symm hown, j, hj⟩)]
            simp [hown]
        · rw [hpolled.heard hsends, hheard, hentry, ite_self]
          simp

/-- A worker makes the calls of all users in one order, of which each connection hears just those of the others: its
    buffer is what comes of the calls in this order, and what was broadcast to a connection is this order since it was
    accepted, without its own calls. -/
theorem one_order (h₀ : WorkerStart w₀) (h : AnyRun w₀ trace w) :
    (∀ b₀, w₀.proc.buf = some b₀ → ∃ b, w.proc.buf = some b ∧ b₀.after ((log trace).map Entry.op) = .ok b) ∧
    ∀ i c, w.connAt i = some c → ∃ new s old, trace = new ++ s :: old ∧ s.event = .accept c ∧
      w.heard c = ((log new).filter (·.fd ≠ c)).map fun e => e.msg.news :=
  ⟨fun _ hb₀ => h.buf_log h₀ hb₀, fun _ _ hc => h.heard_log h₀ hc⟩

end

/-- The other client hears what Anna types. -/
theorem one_order_demo : ∃ (b : Buffer ListRope) (w : World ListRope) (trace : List (Step ListRope)),
    AnyRun (demoWorld .worker demoDisk (some b)) trace w ∧ w.heard 0 = [] ∧ w.heard 1 = [annaInsert] ∧
    (∀ b₀, some b = some b₀ → ∃ b', w.proc.buf = some b' ∧ b₀.after ((log trace).map Entry.op) = .ok b') ∧
    ∀ i c, w.connAt i = some c → ∃ new s old, trace = new ++ s :: old ∧ s.event = .accept c ∧
      w.heard c = ((log new).filter (·.fd ≠ c)).map fun e => e.msg.news := by
  obtain ⟨b, w, w', trace, h₀, hw, -, -, hstep, -, hsent, -⟩ := demo_edit fun _ _ _ => trivial
  have hrun : AnyRun (demoWorld .worker demoDisk (some b)) (⟨w, .message 0 annaInsert demoAnswers, w'⟩ :: trace) w' :=
    .step hw trivial trivial hstep
  refine ⟨b, w', _, hrun, ?_, ?_, one_order h₀ hrun⟩
  · rw [World.heard, hsent]
    rfl
  · rw [World.heard, hsent]
    rfl

end CoEditor
