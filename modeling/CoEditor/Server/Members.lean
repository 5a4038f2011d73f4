-- SUMMARY: The poll list of a process, and the connections that what it sends is put on.
import Mathlib.Data.List.ReduceOption
import CoEditor.Server.Sessions

/-!
# The poll list

`send_msg_everyone` goes through the poll list. What is in the poll list is a
matter of connects and hang-ups alone: neither a login nor a snapshot is asked
for.
-/

namespace CoEditor

variable {R : Type} [Rope R]

/-- The poll list holds open connections, each of them once. -/
structure World.Polled (w : World R) : Prop where
  once : ∀ i j fd, w.connAt i = some fd → w.connAt j = some fd → i = j
  accepted : ∀ i fd, w.connAt i = some fd → fd ∈ w.accepted
  notClosed : ∀ i fd, w.connAt i = some fd → fd ∉ w.closed
  closed : ∀ fd ∈ w.closed, fd ∈ w.accepted

namespace World

variable {a : Answers} {w w' : World R} {fd : Conn} {msg : Message}

omit [Rope R] in
theorem connAt_eq {i : Nat} : w.connAt i = some fd ↔ w.proc.pollList[i]? = some (some fd) := by
  rw [connAt]
  cases w.proc.pollList[i]? <;> simp

omit [Rope R] in
/-- A slot after another one was written. -/
theorem getElem?_set_slot {l : List (Option Conn)} {k i : Nat} {x : Option Conn} {c : Conn}
    (h : (l.set k x)[i]? = some (some c)) : i = k ∧ x = some c ∨ i ≠ k ∧ l[i]? = some (some c) := by
  rw [List.getElem?_set] at h
  split at h
  · next hik =>
      split at h
      · exact .inl ⟨hik.symm, Option.some.inj h⟩
      · cases h
  · next hik => exact .inr ⟨Ne.symm hik, h⟩

omit [Rope R] in
/-- The first slot of a connection. -/
theorem connAt_idxOf {k : Nat} (hk : w.connAt k = some fd) : w.connAt (w.proc.pollList.idxOf (some fd)) = some fd := by
  have hmem : some fd ∈ w.proc.pollList := List.mem_of_getElem? (connAt_eq.mp hk)
  rw [connAt_eq, List.getElem?_eq_getElem (List.idxOf_lt_length_of_mem hmem), List.getElem_idxOf]

/-- What a step does to the connections: one is accepted, one is closed and its slot emptied, or none is touched. -/
theorem step_conns {ev : Event} (h : w.step ev = .ok w') :
    (∃ fd, ev = .accept fd ∧ w' = w.accept fd) ∨
    (w'.proc.pollList = w.proc.pollList ∧ w'.accepted = w.accepted ∧ w'.closed = w.closed) ∨
    ∃ k fd, w.connAt k = some fd ∧ w'.proc.pollList = w.proc.pollList.set k none ∧ w'.accepted = w.accepted ∧
      w'.closed = fd :: w.closed := by
  cases ev with
  | accept fd =>
      obtain rfl := Except.ok.inj h
      exact .inl ⟨fd, rfl, rfl⟩
  | hangup i =>
      simp only [World.step] at h
      split at h
      · obtain rfl := Except.ok.inj h
        exact .inr (.inl ⟨rfl, rfl, rfl⟩)
      · next fd hfd =>
          obtain rfl := Except.ok.inj h
          exact .inr (.inr ⟨i, fd, hfd, rfl, rfl, rfl⟩)
  | eof i =>
      obtain rfl := Except.ok.inj h
      exact .inr (.inl ⟨rfl, rfl, rfl⟩)
  | files d =>
      obtain rfl := Except.ok.inj h
      exact .inr (.inl ⟨rfl, rfl, rfl⟩)
  | gone pid =>
      obtain rfl := Except.ok.inj h
      exact .inr (.inl ⟨rfl, rfl, rfl⟩)
  | message i msg a =>
      simp only [World.step] at h
      split at h
      · obtain rfl := Except.ok.inj h
        exact .inr (.inl ⟨rfl, rfl, rfl⟩)
      · next fd hfd =>
          have hframe := handleMsg_frame h
          rcases hframe.conns with ⟨hpoll, hclosed⟩ | ⟨hpoll, hclosed⟩
          · exact .inr (.inl ⟨hpoll, hframe.accepted, hclosed⟩)
          · -- the slot of `close_socket` is the first one of the connection
            exact .inr (.inr ⟨_, fd, connAt_idxOf hfd, hpoll, hframe.accepted, hclosed⟩)

/-- A connection that was closed stays so. -/
theorem step_closed {ev : Event} (h : w.step ev = .ok w') (hfd : fd ∈ w.closed) : fd ∈ w'.closed := by
  rcases step_conns h with ⟨new, -, rfl⟩ | ⟨-, -, hclosed⟩ | ⟨k, gone, -, -, -, hclosed⟩
  · exact hfd
  · rwa [hclosed]
  · rw [hclosed]
    exact List.mem_cons_of_mem _ hfd

namespace Polled

omit [Rope R] in
/-- A slot is emptied, and the connection in it is closed. -/
theorem drop (h : Polled w) {k : Nat} (hk : w.connAt k = some fd)
    (hpoll : w'.proc.pollList = w.proc.pollList.set k none) (haccepted : w'.accepted = w.accepted)
    (hclosed : w'.closed = fd :: w.closed) : Polled w' := by
  have hslot : ∀ i c, w'.connAt i = some c → i ≠ k ∧ w.connAt i = some c := by
    intro i c hc
    rw [connAt_eq, hpoll] at hc
    rcases getElem?_set_slot hc with ⟨-, ⟨⟩⟩ | ⟨hik, hc⟩
    exact ⟨hik, connAt_eq.mpr hc⟩
  refine ⟨?_, ?_, ?_, ?_⟩
  · exact fun i j c hi hj => h.once i j c (hslot i c hi).2 (hslot j c hj).2
  · exact fun i c hi => haccepted ▸ h.accepted i c (hslot i c hi).2
  · intro i c hi hmem
    obtain ⟨hik, hi⟩ := hslot i c hi
    rw [hclosed] at hmem
    rcases List.mem_cons.mp hmem with rfl | hmem
    · exact hik (h.once i k c hi hk)
    · exact h.notClosed i c hi hmem
  · intro c hc
    rw [hclosed] at hc
    rw [haccepted]
    rcases List.mem_cons.mp hc with rfl | hc
    · exact h.accepted k c hk
    · exact h.closed c hc

omit [Rope R] in
theorem of_eq (h : Polled w) (hpoll : w'.proc.pollList = w.proc.pollList) (haccepted : w'.accepted = w.accepted)
    (hclosed : w'.closed = w.closed) : Polled w' := by
  have hconn : ∀ i, w'.connAt i = w.connAt i := fun i => by rw [connAt, connAt, hpoll]
  exact ⟨by simpa only [hconn] using h.once, by simpa only [hconn, haccepted] using h.accepted,
    by simpa only [hconn, hclosed] using h.notClosed, by simpa only [haccepted, hclosed] using h.closed⟩

omit [Rope R] in
theorem accept (h : Polled w) (hnew : fd ∉ w.accepted) : Polled (w.accept fd) := by
  have hslot : ∀ i c, (w.accept fd).connAt i = some c → i = w.proc.pollList.idxOf none ∧ c = fd ∨
      i ≠ w.proc.pollList.idxOf none ∧ w.connAt i = some c := by
    intro i c hc
    rw [connAt_eq] at hc
    rcases getElem?_set_slot hc with ⟨hik, hfd⟩ | ⟨hik, hc⟩
    · exact .inl ⟨hik, (Option.some.inj hfd).symm⟩
    · exact .inr ⟨hik, connAt_eq.mpr hc⟩
  refine ⟨?_, ?_, ?_, ?_⟩
  · intro i j c hi hj
    rcases hslot i c hi with ⟨hik, rfl⟩ | ⟨-, hi⟩ <;> rcases hslot j _ hj with ⟨hjk, hc⟩ | ⟨-, hj⟩
    · exact hik.trans hjk.symm
    · exact absurd (h.accepted j _ hj) hnew
    · exact absurd (h.accepted i c hi) (hc ▸ hnew)
    · exact h.once i j c hi hj
  · intro i c hi
    rcases hslot i c hi with ⟨-, rfl⟩ | ⟨-, hi⟩
    · exact List.mem_cons_self ..
    · exact List.mem_cons_of_mem _ (h.accepted i c hi)
  · intro i c hi
    rcases hslot i c hi with ⟨-, rfl⟩ | ⟨-, hi⟩
    · exact fun hc => hnew (h.closed c hc)
    · exact h.notClosed i c hi
  · exact fun c hc => List.mem_cons_of_mem _ (h.closed c hc)

theorem step (h : Polled w) {ev : Event} (hpossible : ev.Possible w) (hstep : w.step ev = .ok w') : Polled w' := by
  rcases step_conns hstep with ⟨fd, rfl, rfl⟩ | ⟨hpoll, haccepted, hclosed⟩ | ⟨k, fd, hk, hpoll, haccepted, hclosed⟩
  · exact h.accept hpossible
  · exact h.of_eq hpoll haccepted hclosed
  · exact h.drop hk hpoll haccepted hclosed

end Polled

end World

/-- After every run from an empty poll list it holds open connections, each of them once. -/
theorem Run.polled {ok : World R → Event → Prop} {w₀ w : World R} {trace : List (Step R)} (h : Run ok w₀ trace w)
    (hpoll : w₀.proc.pollList = List.replicate maxClients none) (hclosed : w₀.closed = []) : w.Polled := by
  induction h with
  | init =>
      have hnone : ∀ i fd, w₀.connAt i ≠ some fd := by
        intro i fd hfd
        rw [World.connAt, hpoll, List.getElem?_replicate] at hfd
        split at hfd <;> cases hfd
      exact ⟨fun i _ fd hi => absurd hi (hnone i fd), fun i fd hi => absurd hi (hnone i fd),
        fun i fd hi => absurd hi (hnone i fd), by simp [hclosed]⟩
  | step _ hpossible _ hev ih => exact ih.step hpossible hev

namespace World

variable {a : Answers} {w w' : World R} {fd : Conn} {msg : Message}

/-- What a worker sends while it handles a message: replies to the sender, and broadcasts to the others. -/
def Sends (w w' : World R) (fd : Conn) (replies news : List Message) : Prop :=
  w'.sent = w.sent ++ replies.map (fun m => (fd, .sendMsg m)) ++
    news.flatMap fun m => (w.others fd).map fun c => (c, .sendMsgWithoutDelete m)

omit [Rope R] in
theorem mem_others {c : Conn} : c ∈ w.others fd ↔ c ≠ fd ∧ ∃ j, w.connAt j = some c := by
  simp only [others, List.mem_filter, List.reduceOption_mem_iff, decide_eq_true_eq, connAt_eq, ← List.mem_iff_getElem?]
  exact and_comm

omit [Rope R] in
theorem Polled.conns_nodup (h : Polled w) : w.proc.pollList.reduceOption.Nodup := by
  rw [List.reduceOption, List.Nodup, List.pairwise_filterMap, List.pairwise_iff_getElem]
  intro i j hi hj hij c hc c' hc' he
  subst he
  have hci : w.connAt i = some c := by rw [connAt_eq, List.getElem?_eq_getElem hi]; exact congrArg some hc
  have hcj : w.connAt j = some c := by rw [connAt_eq, List.getElem?_eq_getElem hj]; exact congrArg some hc'
  exact absurd (h.once i j c hci hcj) (Nat.ne_of_lt hij)

omit [Rope R] in
theorem Polled.others_nodup (h : Polled w) (fd : Conn) : (w.others fd).Nodup := h.conns_nodup.filter _

/-- The messages put on a connection so far. -/
def inbox (w : World R) (fd : Conn) : List Message := (w.sent.filter (·.1 = fd)).map fun x => x.2.msg

theorem inbox_replies (c fd : Conn) (msgs : List Message) :
    ((msgs.map fun m => (fd, Send.sendMsg m)).filter (·.1 = c)).map (fun x => x.2.msg) = if c = fd then msgs else [] := by
  rw [List.filter_map, List.map_map]
  by_cases hc : c = fd
  · simp [hc, Function.comp_def, Send.msg]
  · simp [hc, Ne.symm hc, Function.comp_def]

theorem inbox_broadcast (c : Conn) (m : Message) {fds : List Conn} (hnodup : fds.Nodup) :
    ((fds.map fun x => (x, Send.sendMsgWithoutDelete m)).filter (·.1 = c)).map (fun x => x.2.msg) =
      if c ∈ fds then [m] else [] := by
  induction fds with
  | nil => rfl
  | cons x fds ih =>
      obtain ⟨hx, hnodup⟩ := List.nodup_cons.mp hnodup
      rw [List.map_cons, List.filter_cons]
      by_cases hxc : x = c
      · subst hxc
        simp only [decide_true, if_true, List.map_cons, ih hnodup, if_neg hx, List.mem_cons_self]
        rfl
      · simp only [hxc, decide_false, ih hnodup, List.mem_cons, Ne.symm hxc, false_or, Bool.false_eq_true, if_false]

omit [Rope R] in
/-- What a step puts on a connection: what it replies to the sender, and what it broadcasts to the others. -/
theorem Polled.inbox (h : w.Polled) {replies news : List Message} (hsends : w.Sends w' fd replies news) (c : Conn) :
    w'.inbox c = w.inbox c ++ (if c = fd then replies else []) ++ if c ∈ w.others fd then news else [] := by
  have hnews : ∀ msgs : List Message, ((msgs.flatMap fun m => (w.others fd).map fun x => (x, Send.sendMsgWithoutDelete m)).filter
      (·.1 = c)).map (fun x => x.2.msg) = if c ∈ w.others fd then msgs else [] := by
    intro msgs
    induction msgs with
    | nil => simp
    | cons m msgs ih =>
        rw [List.flatMap_cons, List.filter_append, List.map_append, ih, inbox_broadcast c m (h.others_nodup fd)]
        split <;> rfl
  rw [World.inbox, hsends, List.filter_append, List.filter_append, List.map_append, List.map_append, inbox_replies, hnews,
    ← World.inbox]

end World

theorem World.handleWorker_edit {a : Answers} {w : World R} {fd : Conn} {msg : Message} {op : Op} {b b' : Buffer R}
    {res : Bres} (hasks : msg.Asks op) (hb : w.proc.buf = some b) (hrun : op.run b = .ok (b', res)) :
    w.handleWorker a fd msg = .ok ((w.setBuf b').sendMsgEveryone fd msg) := by
  have honBuf : w.onBuf op = .ok (w.setBuf b') := by
    simp only [onBuf, hb, hrun]
    rfl
  cases hasks with
  | insert ht hpl =>
      simp only [handleWorker, MsgType.ofCode_eq_some.mpr ht, firstChar, hpl, derefStr, Except.pure_eq_ok, Except.ok_bind_eq,
        honBuf]
  | insertLine ht => simp only [handleWorker, MsgType.ofCode_eq_some.mpr ht, honBuf, Except.pure_eq_ok, Except.ok_bind_eq]
  | del ht => simp only [handleWorker, MsgType.ofCode_eq_some.mpr ht, honBuf, Except.pure_eq_ok, Except.ok_bind_eq]
  | move ht hdir =>
      simp only [handleWorker, MsgType.ofCode_eq_some.mpr ht, hdir, honBuf, Except.pure_eq_ok, Except.ok_bind_eq]

/-- A character that Anna types. -/
def annaInsert : Message := createMsg .insert 1 1 0 (some (bytes "x"))

/-- Anna types while another client is connected. -/
theorem demo_edit {ok : World ListRope → Event → Prop}
    (hquiet : ∀ w ev, (∀ i msg a, ev = .message i msg a → msg = annaLogin) → ok w ev) :
    ∃ (b : Buffer ListRope) (w w' : World ListRope) (trace : List (Step ListRope)),
    WorkerStart (demoWorld .worker demoDisk (some b)) ∧ Run ok (demoWorld .worker demoDisk (some b)) trace w ∧
    w.connAt 0 = some 0 ∧ w.proc.clients = [false, true, false, false, false, false] ∧
    w.step (.message 0 annaInsert demoAnswers) = .ok w' ∧
    createMsg .msgOk 1 (-1) (-1) (some (bytes "1:doc")) ∈ w.inbox 0 ∧ w'.sent = [(0, .sendMsg (createMsg .msgOk 1 (-1) (-1) (some (bytes "1:doc")))), (1, .sendMsgWithoutDelete annaInsert)] ∧
    ∀ s ∈ trace, ∀ u, ¬ s.LogsIn 1 u := by
  have htest : returns (bufferFromFile (R := ListRope) (bytes "ab") 1 workerHeight workerWidth false)
      (fun b => returns (Op.run b (.insert 1 (ch 'x'))) fun _ => true) = true := by decide +kernel
  obtain ⟨b, hb, htest⟩ := exists_of_returns htest
  obtain ⟨⟨b', res⟩, hrun, -⟩ := exists_of_returns htest
  obtain ⟨w, trace, hw, hmode, hbuf, hclients, hpoll, -, -, hsent, hno⟩ := demo_run hquiet b
  have hflag : w.proc.loggedIn demoAnswers.outside 1 = true := by simp [Proc.loggedIn, Proc.InTable, hclients]
  have hfd : w.connAt 0 = some 0 := by
    rw [World.connAt, hpoll]
    rfl
  have hstep : w.handleMsg demoAnswers 0 annaInsert = _ := World.handleMsg_admitted (.inl hflag)
  simp only [hmode] at hstep
  rw [World.handleWorker_edit (.insert rfl rfl) (by exact hbuf) hrun] at hstep
  refine ⟨b, w, _, trace, demoWorld_worker hb, hw, hfd, hclients, by simp only [World.step, hfd]; exact hstep,
    by rw [World.inbox, hsent]; exact List.mem_singleton_self _, ?_, hno⟩
  have hothers : w.others 0 = [1] := by
    rw [World.others, hpoll]
    decide
  show w.sent ++ (w.others 0).map _ = _
  rw [hsent, hothers]
  rfl

end CoEditor
