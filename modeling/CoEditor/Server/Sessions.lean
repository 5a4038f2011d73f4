-- SUMMARY: Who is logged in: the flags of a process against the logins and logouts of its run.
import CoEditor.Server.Run
import CoEditor.Session.Snapshots

/-!
# Sessions

A process keeps one flag for each user id. A successful `LOGIN` raises the flag
of the id it is answered with, and only `QUIT` in the main server lowers one.
No flag says over which connection its user came.
-/

namespace CoEditor

variable {R : Type} [Rope R]

/-! ## Session events -/

/-- Between `w` and `w'`, nothing is sent but `MSG_OK` for user `u` over connection `fd`. -/
def World.SendsOk (w w' : World R) (fd : Conn) (u : Int) : Prop :=
  ∃ list, w'.sent = w.sent ++ [(fd, .sendMsg (createMsg .msgOk u (-1) (-1) (some list)))]

namespace Step

/-- In this step message `msg` over connection `fd` is answered with `MSG_OK` for user `u`. -/
def Answered (s : Step R) (fd : Conn) (msg : Message) (u : Int) : Prop :=
  ∃ i a, s.event = .message i msg a ∧ s.pre.connAt i = some fd ∧ s.pre.SendsOk s.post fd u

/-- In this step a `LOGIN` as user `u` over connection `fd` succeeds. -/
def LogsIn (s : Step R) (fd : Conn) (u : Int) : Prop :=
  ∃ msg, s.Answered fd msg u ∧ msg.type = MsgType.login.code

/-- In this step a `LOGIN` or a `REGISTER` is answered with `MSG_OK` for user `u`. -/
def SignsIn (s : Step R) (u : Int) : Prop :=
  ∃ fd msg, s.Answered fd msg u ∧ (msg.type = MsgType.login.code ∨ msg.type = MsgType.register.code)

/-- In this step a message of type `t` of user `u` is handled. -/
def Handles (s : Step R) (t : MsgType) (u : Int) : Prop :=
  ∃ i msg a fd, s.event = .message i msg a ∧ s.pre.connAt i = some fd ∧ msg.type = t.code ∧ msg.userId = u ∧
    s.pre.proc.loggedIn a.outside u = true

/-- In this step a `QUIT` of user `u` is handled. -/
abbrev Quits (s : Step R) (u : Int) : Prop := s.Handles .quit u

end Step

/-- The latest session event of user `u` is a `REGISTER` or a `LOGIN`. -/
def SignedIn (u : Int) : List (Step R) → Prop
  | [] => False
  | s :: trace => s.SignsIn u ∨ ¬ s.Quits u ∧ SignedIn u trace

/-! ## The flags -/

namespace Proc

variable {p p' : Proc R} {u v : Int}

omit [Rope R] in
theorem loggedIn_congr (h : p'.clients = p.clients) (outside : Int → Bool) (u : Int) :
    p'.loggedIn outside u = p.loggedIn outside u := by
  have hin : p'.InTable u ↔ p.InTable u := by simp only [InTable, h]
  by_cases hu : p.InTable u
  · rw [loggedIn, loggedIn, if_pos (hin.mpr hu), if_pos hu, h]
  · rw [loggedIn, loggedIn, if_neg fun h => hu (hin.mp h), if_neg hu]

omit [Rope R] in
/-- Inside the table a flag is what was last written there. -/
theorem setClient_flag {flag : Bool} (h : p.setClient v flag = .ok p') (hu : p.InTable u) (outside : Int → Bool) :
    p'.loggedIn outside u = if u = v then flag else p.loggedIn outside u := by
  obtain ⟨hv, rfl⟩ := setClient_ok h
  have hu' : ({ p with clients := p.clients.set v.toNat flag } : Proc R).InTable u := by
    simpa [InTable] using hu
  unfold loggedIn
  rw [if_pos hu', if_pos hu]
  by_cases huv : u = v
  · subst huv
    rw [if_pos rfl, List.getElem?_set_self hu.2]
    rfl
  · have hne : v.toNat ≠ u.toNat := fun he => huv (by have := hu.1; have := hv.1; omega)
    rw [if_neg huv, List.getElem?_set_ne hne]

end Proc

namespace World

variable {a : Answers} {w w' : World R} {fd : Conn} {msg : Message} {u : Int}

omit [Rope R] in
/-- A login raises the flag of the user it is answered for, and no other. -/
theorem login_flag (h : w.login a fd msg = .ok w') (hu : w.proc.InTable u) (outside : Int → Bool) :
    w'.proc.loggedIn outside u = true ↔ w.SendsOk w' fd u ∨ w.proc.loggedIn outside u = true := by
  obtain ⟨v, -, ⟨-, list, proc, hproc, rfl⟩ | ⟨-, rfl⟩⟩ := login_cases h
  · rw [sendMsg_proc, Proc.setClient_flag hproc hu]
    by_cases huv : u = v
    · subst huv
      simp only [if_true, true_iff]
      exact .inl ⟨list, rfl⟩
    · simp [SendsOk, sendMsg, createMsg, huv, Ne.symm huv]
  · have hne : ∀ list, createMsg .msgFailed (-1) (-1) (-1) none ≠ createMsg .msgOk u (-1) (-1) (some list) := by
      intro list he
      cases congrArg Message.payload he
    rw [Proc.loggedIn_congr (p := w.proc) rfl]
    simp [SendsOk, sendMsg, hne]

/-- After a message a flag is up exactly if the message is a login of its user, or if it was up and the message
    is not a `QUIT` of its user to the main server. -/
theorem handleMsg_flag (h : w.handleMsg a fd msg = .ok w') (hu : w.proc.InTable u) (outside : Int → Bool) :
    w'.proc.loggedIn outside u = true ↔ msg.type = MsgType.login.code ∧ w.SendsOk w' fd u ∨
      ¬ (w.proc.mode = .server ∧ msg.type = MsgType.quit.code ∧ msg.userId = u ∧
        w.proc.loggedIn a.outside u = true) ∧ w.proc.loggedIn outside u = true := by
  have hquiet : w'.proc.clients = w.proc.clients → msg.type ≠ MsgType.login.code →
      (w.proc.mode = .server → msg.type ≠ MsgType.quit.code ∨ ¬ Admits a w msg) →
      (w'.proc.loggedIn outside u = true ↔ msg.type = MsgType.login.code ∧ w.SendsOk w' fd u ∨
        ¬ (w.proc.mode = .server ∧ msg.type = MsgType.quit.code ∧ msg.userId = u ∧
          w.proc.loggedIn a.outside u = true) ∧ w.proc.loggedIn outside u = true) := by
    intro hclients hlogin hquit
    have hno : ¬ (w.proc.mode = .server ∧ msg.type = MsgType.quit.code ∧ msg.userId = u ∧
        w.proc.loggedIn a.outside u = true) := by
      rintro ⟨hmode, ht, rfl, hflag⟩
      exact (hquit hmode).elim (fun h => h ht) fun h => h (.inl hflag)
    rw [Proc.loggedIn_congr hclients]
    simp only [hlogin, hno, false_and, false_or, not_false_eq_true, true_and]
  have hlogin : msg.type = MsgType.login.code → (w.readsClient msg.userId).login a fd msg = .ok w' →
      (w'.proc.loggedIn outside u = true ↔ msg.type = MsgType.login.code ∧ w.SendsOk w' fd u ∨
        ¬ (w.proc.mode = .server ∧ msg.type = MsgType.quit.code ∧ msg.userId = u ∧
          w.proc.loggedIn a.outside u = true) ∧ w.proc.loggedIn outside u = true) := by
    intro ht h
    have hnq : msg.type ≠ MsgType.quit.code := MsgType.ne_code ht (by decide)
    have hflag := login_flag h hu outside
    simp only [hnq, false_and, and_false, not_false_eq_true, true_and]
    exact hflag.trans (or_congr_left (and_iff_right ht).symm)
  obtain ⟨hno, rfl⟩ | ⟨hadm, ⟨hmode, h⟩ | ⟨hmode, h⟩⟩ := handleMsg_cases h
  · exact hquiet rfl (fun ht => hno (.inr fun hn => hn.1 ht)) fun _ => .inr hno
  · cases handleServer_does h with
    | login ht h => exact hlogin ht h
    | register ht hrun h =>
        obtain ⟨m, rfl⟩ := answer_sends h
        exact hquiet rfl (MsgType.ne_code ht (by decide)) fun _ => .inl (MsgType.ne_code ht (by decide))
    | fileRequest ht hrun =>
        exact hquiet (getWorker_front hrun).clients (MsgType.ne_code ht (by decide))
          fun _ => .inl (MsgType.ne_code ht (by decide))
    | createFile ht hrun h =>
        obtain ⟨m, rfl⟩ := answer_sends h
        exact hquiet rfl (MsgType.ne_code ht (by decide)) fun _ => .inl (MsgType.ne_code ht (by decide))
    | deleteFile ht hrun h =>
        obtain ⟨m, rfl⟩ := answer_sends h
        exact hquiet rfl (MsgType.ne_code ht (by decide)) fun _ => .inl (MsgType.ne_code ht (by decide))
    | @quit proc ht hproc =>
        have hlogin' : ¬ msg.type = MsgType.login.code := MsgType.ne_code ht (by decide)
        have hneeds : NeedsLogin msg := ⟨hlogin', MsgType.ne_code ht (by decide)⟩
        have hadm := hadm.resolve_right fun h => h hneeds
        rw [Proc.loggedIn_congr (p := proc) (closeSocket_clients ..), Proc.setClient_flag hproc hu]
        have hsame : (w.readsClient msg.userId).proc.loggedIn outside u = w.proc.loggedIn outside u := rfl
        simp only [hlogin', hmode, eq_true ht, hsame, false_and, false_or, true_and]
        by_cases hid : u = msg.userId
        · subst hid
          simp [hadm]
        · simp [hid, Ne.symm hid]
    | ignore hts => exact hquiet rfl (hts .login (by simp)) fun _ => .inl (hts .quit (by simp))
  · have hno : w.proc.mode = .server → msg.type ≠ MsgType.quit.code ∨ ¬ Admits a w msg := by simp [hmode]
    cases handleWorker_does h with
    | login ht h => exact hlogin ht h
    | join ht => exact hquiet rfl (MsgType.ne_code ht (by decide)) hno
    | leave ht => exact hquiet rfl (MsgType.ne_code ht (by decide)) hno
    | edit hasks => exact hquiet rfl (hasks.type_ne (by decide)) hno
    | ignore hts => exact hquiet rfl (hts .login (by simp)) hno

end World

namespace Step

variable {w w' : World R} {i : Nat} {fd : Conn} {msg : Message} {a : Answers} {u : Int}

omit [Rope R] in
theorem logsIn_message (hfd : w.connAt i = some fd) : (∃ c, (⟨w, .message i msg a, w'⟩ : Step R).LogsIn c u) ↔
    msg.type = MsgType.login.code ∧ w.SendsOk w' fd u := by
  constructor
  · rintro ⟨c, msg', ⟨i', a', hev, hc, hsent⟩, ht⟩
    obtain ⟨rfl, rfl, rfl⟩ := Event.message.inj hev
    obtain rfl := Option.some.inj (hfd.symm.trans hc)
    exact ⟨ht, hsent⟩
  · rintro ⟨ht, hsent⟩
    exact ⟨fd, msg, ⟨i, a, rfl, hfd, hsent⟩, ht⟩

omit [Rope R] in
theorem handles_message {t : MsgType} (hfd : w.connAt i = some fd) :
    (⟨w, .message i msg a, w'⟩ : Step R).Handles t u ↔
      msg.type = t.code ∧ msg.userId = u ∧ w.proc.loggedIn a.outside u = true := by
  constructor
  · rintro ⟨i', msg', a', c, hev, hc, h⟩
    obtain ⟨rfl, rfl, rfl⟩ := Event.message.inj hev
    exact h
  · exact fun h => ⟨i, msg, a, fd, rfl, hfd, h⟩

omit [Rope R] in
/-- Only a message on a connection is a session event. -/
theorem no_session {s : Step R} (hev : ∀ i msg a fd, s.event = .message i msg a → s.pre.connAt i ≠ some fd) :
    (∀ c, ¬ s.LogsIn c u) ∧ ∀ t, ¬ s.Handles t u := by
  constructor
  · rintro c ⟨msg, ⟨i, a, he, hc, -⟩, -⟩
    exact hev i msg a c he hc
  · rintro t ⟨i, msg, a, c, he, hc, -⟩
    exact hev i msg a c he hc

end Step

/-- After a step a flag is up exactly if the step is a login of its user, or if it was up and the step is not
    a `QUIT` of its user in the main server. -/
theorem Step.flag {s : Step R} (hstep : s.pre.step s.event = .ok s.post) {u : Int} (hu : s.pre.proc.InTable u)
    (outside : Int → Bool) :
    s.post.proc.loggedIn outside u = true ↔ (∃ fd, s.LogsIn fd u) ∨
      ¬ (s.pre.proc.mode = .server ∧ s.Quits u) ∧ s.pre.proc.loggedIn outside u = true := by
  obtain ⟨w, ev, w'⟩ := s
  simp only at hstep hu ⊢
  rcases World.step_cases hstep with ⟨i, msg, a, fd, rfl, hfd, h⟩ | ⟨hev, hproc⟩
  · rw [World.handleMsg_flag h hu, logsIn_message hfd, Step.Quits, handles_message hfd]
  · have hno := no_session (s := ⟨w, ev, w'⟩) (u := u) hev
    rw [Proc.loggedIn_congr hproc.clients]
    simp only [hno, exists_false, and_false, false_or, not_false_eq_true, true_and]

/-! ## Flags and logins -/

section
variable {ok : World R → Event → Prop} {w₀ w w' : World R} {trace : List (Step R)} {u : Int}

omit [Rope R] in
/-- Every user id up to the number of clients is in the table. -/
theorem Proc.inTable_of_le {p : Proc R} (h : p.clients.length = maxClients + 1) (hu : 0 ≤ u ∧ u ≤ maxClients) :
    p.InTable u := ⟨hu.1, by omega⟩

theorem Run.inTable (h : Run ok w₀ trace w) (h₀ : w₀.proc.clients = List.replicate (maxClients + 1) false)
    (hu : 0 ≤ u ∧ u ≤ maxClients) : w.proc.InTable u :=
  Proc.inTable_of_le (by rw [h.frame.2, h₀, List.length_replicate]) hu

omit [Rope R] in
theorem not_loggedIn_start (h₀ : w₀.proc.clients = List.replicate (maxClients + 1) false)
    (hu : 0 ≤ u ∧ u ≤ maxClients) (outside : Int → Bool) : w₀.proc.loggedIn outside u = false := by
  rw [Proc.loggedIn, if_pos (Proc.inTable_of_le (by rw [h₀, List.length_replicate]) hu), h₀, List.getElem?_replicate]
  split <;> rfl

/-- A flag that is up was raised by a login. -/
theorem Run.login_of_flag (h : Run ok w₀ trace w) (h₀ : w₀.proc.clients = List.replicate (maxClients + 1) false)
    (hu : 0 ≤ u ∧ u ≤ maxClients) {outside : Int → Bool} (hflag : w.proc.loggedIn outside u = true) :
    ∃ s ∈ trace, ∃ fd, s.LogsIn fd u := by
  induction h with
  | init =>
      rw [not_loggedIn_start h₀ hu] at hflag
      cases hflag
  | @step trace w w' ev hrun _ _ hev ih =>
      rcases (Step.flag (s := ⟨w, ev, w'⟩) hev (hrun.inTable h₀ hu) outside).mp hflag with hlogin | ⟨-, hflag⟩
      · exact ⟨_, List.mem_cons_self .., hlogin⟩
      · obtain ⟨s, hs, hlogin⟩ := ih hflag
        exact ⟨s, List.mem_cons_of_mem _ hs, hlogin⟩

end

/-! ## Sessions of a user -/

namespace World

variable {a : Answers} {w w' : World R} {fd : Conn} {msg : Message} {u : Int}

/-- Only the main server answers a `REGISTER` with `MSG_OK`, and with the id of the new account. -/
theorem register_answered (h : w.handleMsg a fd msg = .ok w') (ht : msg.type = MsgType.register.code)
    (hsend : w.SendsOk w' fd u) : w.proc.mode = .server ∧ ∃ disk, validateRegister a.freed w.disk msg.payload = .ok (disk, u) := by
  obtain ⟨list, hsent⟩ := hsend
  have hquiet : w'.sent ≠ w.sent := by simp [hsent]
  have hne : ∀ {t : MsgType}, msg.type = t.code → t = .register := fun h => MsgType.code_inj.mp (h.symm.trans ht)
  obtain ⟨-, rfl⟩ | ⟨-, ⟨hmode, h⟩ | ⟨-, h⟩⟩ := handleMsg_cases h
  · exact absurd rfl hquiet
  · cases handleServer_does h with
    | login ht' => cases hne ht'
    | @register disk v w' _ hrun h =>
        rcases answer_cases h with ⟨-, list', rfl⟩ | ⟨-, rfl⟩
        · have hmsg : createMsg .msgOk v (-1) (-1) (some list') = createMsg .msgOk u (-1) (-1) (some list) := by
            simpa [sendMsg, readsClient] using hsent
          obtain rfl : v = u := congrArg Message.userId hmsg
          exact ⟨hmode, disk, hrun⟩
        · have hmsg : createMsg .msgFailed (-1) (-1) (-1) none = createMsg .msgOk u (-1) (-1) (some list) := by
            simpa [sendMsg, readsClient] using hsent
          cases congrArg Message.payload hmsg
    | fileRequest ht' => cases hne ht'
    | createFile ht' => cases hne ht'
    | deleteFile ht' => cases hne ht'
    | quit ht' => cases hne ht'
    | ignore hts => exact absurd ht (hts .register (by simp))
  · cases handleWorker_does h with
    | login ht' => cases hne ht'
    | join ht' => cases hne ht'
    | leave ht' => cases hne ht'
    | edit hasks => exact absurd ht (hasks.type_ne (by decide))
    | ignore => exact absurd rfl hquiet

end World

/-- The event is no `REGISTER` that gives `u` to a new user who is not logged in yet, and no `QUIT` of `u` that
    a worker handles. -/
def KeepsSession (u : Int) (w : World R) (ev : Event) : Prop :=
  ∀ i msg a, ev = .message i msg a →
    (w.proc.mode = .server → msg.type = MsgType.register.code →
      (∃ disk, validateRegister a.freed w.disk msg.payload = .ok (disk, u)) → w.proc.loggedIn a.outside u = true) ∧
    (w.proc.mode = .worker → msg.type = MsgType.quit.code → msg.userId = u → w.proc.loggedIn a.outside u = false)

section
variable {w₀ w w' : World R} {trace : List (Step R)} {u : Int}

/-- As long as registrations and logouts leave no flag behind, a user is logged in exactly after a `REGISTER`
    or a `LOGIN`. -/
theorem Run.loggedIn_iff (h : Run (KeepsSession u) w₀ trace w)
    (h₀ : w₀.proc.clients = List.replicate (maxClients + 1) false) (hu : 0 ≤ u ∧ u ≤ maxClients)
    (outside : Int → Bool) : w.proc.loggedIn outside u = true ↔ SignedIn u trace := by
  induction h with
  | init => simp [not_loggedIn_start h₀ hu, SignedIn]
  | @step trace w w' ev hrun _ hok hev ih =>
      have hin := hrun.inTable h₀ hu
      have hflags : ∀ o, w.proc.loggedIn o u = w.proc.loggedIn outside u := by
        intro o
        rw [Proc.loggedIn, Proc.loggedIn, if_pos hin, if_pos hin]
      rw [Step.flag (s := ⟨w, ev, w'⟩) hev hin outside, SignedIn, ← ih]
      have hquit : (⟨w, ev, w'⟩ : Step R).Quits u → w.proc.mode = .server := by
        rintro ⟨i, msg, a, fd, he, hfd, ht, hid, hflag⟩
        cases hmode : w.proc.mode with
        | server => rfl
        | worker =>
            rw [(hok i msg a he).2 hmode ht hid] at hflag
            cases hflag
      have hsign : (⟨w, ev, w'⟩ : Step R).SignsIn u → (∃ fd, (⟨w, ev, w'⟩ : Step R).LogsIn fd u) ∨
          ¬ (⟨w, ev, w'⟩ : Step R).Quits u ∧ w.proc.loggedIn outside u = true := by
        rintro ⟨fd, msg, ⟨i, a, he, hfd, hsend⟩, ht | ht⟩
        · exact .inl ⟨fd, msg, ⟨i, a, he, hfd, hsend⟩, ht⟩
        · right
          obtain rfl : ev = _ := he
          simp only [World.step, show w.connAt i = some fd from hfd] at hev
          obtain ⟨hmode, hrun⟩ := World.register_answered hev ht hsend
          refine ⟨?_, (hflags _).symm.trans ((hok i msg a rfl).1 hmode ht hrun)⟩
          rw [Step.Quits, Step.handles_message hfd, ht, MsgType.code_inj]
          rintro ⟨⟨⟩, -⟩
      constructor
      · rintro (⟨fd, msg, hanswer, ht⟩ | ⟨hno, hflag⟩)
        · exact .inl ⟨fd, msg, hanswer, .inl ht⟩
        · exact .inr ⟨fun hq => hno ⟨hquit hq, hq⟩, hflag⟩
      · rintro (hsigns | ⟨hno, hflag⟩)
        · exact (hsign hsigns).imp_right fun h => ⟨fun hq => h.1 hq.2, h.2⟩
        · exact .inr ⟨fun hq => hno hq.2, hflag⟩

omit [Rope R] in
theorem World.readsClient_eq (hin : w.proc.InTable u) : w.readsClient u = w := by
  simp only [readsClient, hin, decide_true, Bool.not_true, Bool.or_false]

/-- A user passes the check for a login exactly after a `REGISTER` or a `LOGIN`, and then only is not turned
    away. -/
theorem session_flags (h₀ : WorkerStart w₀ ∨ ServerStart w₀) (h : Run (KeepsSession u) w₀ trace w)
    (hu : 0 ≤ u ∧ u ≤ maxClients) :
    (∀ outside, w.proc.loggedIn outside u = true ↔ SignedIn u trace) ∧
      ∀ {a fd msg}, msg.userId = u → World.NeedsLogin msg →
        (SignedIn u trace → w.handleMsg a fd msg =
          match w.proc.mode with
          | .server => w.handleServer a fd msg
          | .worker => w.handleWorker a fd msg) ∧
        (¬ SignedIn u trace → w.handleMsg a fd msg = .ok (w.closeSocket fd)) := by
  have hclients := h₀.elim WorkerStart.clients ServerStart.clients
  have hflag := h.loggedIn_iff hclients hu
  refine ⟨hflag, fun {a fd msg} hid hneeds => ?_⟩
  have hreads : w.readsClient u = w := World.readsClient_eq (h.inTable hclients hu)
  simp only [World.handleMsg, hid, hreads, hneeds, and_true]
  rw [← hflag a.outside, Bool.not_eq_true]
  constructor
  · intro hyes
    rw [hyes]
    rfl
  · intro hno
    rw [if_pos hno]
    rfl

end

/-! ## Examples -/

namespace World

variable {a : Answers} {w : World R} {fd : Conn} {msg : Message} {u : Int}

theorem handleMsg_login (ht : msg.type = MsgType.login.code) :
    w.handleMsg a fd msg = (w.readsClient msg.userId).login a fd msg := by
  have hneeds : ¬ NeedsLogin msg := fun h => h.1 ht
  have hcode : MsgType.ofCode msg.type = some .login := MsgType.ofCode_eq_some.mpr ht
  simp only [handleMsg, hneeds, and_false, if_false, handleServer, handleWorker, hcode]
  split <;> rfl

omit [Rope R] in
theorem login_eq {list : Bytes} (hvalid : validateUser w.disk msg.payload = .ok u) (h0 : 0 ≤ u)
    (hin : w.proc.InTable u) (hlist : getFileList w.disk a.mem = .ok list) :
    w.login a fd msg = .ok ({ w with proc := { w.proc with clients := w.proc.clients.set u.toNat true } }.sendMsg fd
      (createMsg .msgOk u (-1) (-1) (some list))) := by
  have hset : arraySet w.proc.clients u true = .ok (w.proc.clients.set u.toNat true) := if_pos hin
  simp only [login, hvalid, Except.ok_bind_eq, h0, if_true, Proc.setClient, hset, hlist]
  rfl

theorem handleMsg_admitted (hadm : Admits a w msg) : w.handleMsg a fd msg =
    match w.proc.mode with
    | .server => (w.readsClient msg.userId).handleServer a fd msg
    | .worker => (w.readsClient msg.userId).handleWorker a fd msg := by
  have hno : ¬ (w.proc.loggedIn a.outside msg.userId = false ∧ NeedsLogin msg) := by
    rintro ⟨hflag, hneeds⟩
    rcases hadm with hyes | hno
    · rw [hflag] at hyes
      cases hyes
    · exact hno hneeds
  unfold handleMsg
  exact if_neg hno

theorem handleWorker_join {b b' : Buffer R} {s : Bytes} {res : Bres} (ht : msg.type = MsgType.fileRequest.code)
    (hb : w.proc.buf = some b) (hs : bufferSerialize b = .ok s) (hrun : Op.run b (.copyOwn msg.userId) = .ok (b', res)) :
    w.handleWorker a fd msg =
      .ok (((w.sendMsg fd (createMsg .fileResponse msg.userId msg.fileId msg.fileVersion (some s))).setBuf b').sendMsgEveryone
        fd (createMsg .addCursor msg.userId msg.fileId msg.fileVersion none)) := by
  have hcode : MsgType.ofCode msg.type = some .fileRequest := MsgType.ofCode_eq_some.mpr ht
  simp only [handleWorker, hcode, hb, hs, Except.ok_bind_eq, onBuf, sendMsg_proc, hrun]
  rfl

theorem handleServer_register {d : Disk} {list : Bytes} (ht : msg.type = MsgType.register.code)
    (hrun : validateRegister a.freed w.disk msg.payload = .ok (d, u)) (h0 : 0 ≤ u) (hlist : getFileList d a.mem = .ok list) :
    w.handleServer a fd msg = .ok ({ w with disk := d }.sendMsg fd (createMsg .msgOk u (-1) (-1) (some list))) := by
  have hcode : MsgType.ofCode msg.type = some .register := MsgType.ofCode_eq_some.mpr ht
  simp only [handleServer, hcode, hrun, Except.ok_bind_eq, answer, h0, if_true, hlist]
  rfl

end World

/-- A directory with one account and one document. -/
def demoDisk : Disk :=
  (Disk.ofTexts (bytes "anna:secret") (bytes "1:doc")).set (bytes "doc") (some (.closed (bytes "ab")))

/-- Nothing fails, the ports are free, and there is no string in the memory that is allocated. -/
def demoAnswers : Answers where
  outside _ := false
  mem := []
  fails _ := false
  freed := .intact
  portFree := [true, true]
  pid := 77

def demoProc (mode : Mode) (buf : Option (Buffer ListRope)) : Proc ListRope where
  mode
  hport := 46958
  pollList := List.replicate maxClients none
  clients := List.replicate (maxClients + 1) false
  workers := List.replicate (maxWorkers + 1) (0, 0)
  buf
  wildRead := false

def demoWorld (mode : Mode) (disk : Disk) (buf : Option (Buffer ListRope)) : World ListRope where
  proc := demoProc mode buf
  disk
  accepted := []
  closed := []
  sent := []
  children := []

def annaLogin : Message := createMsg .login (-1) (-1) (-1) (some anna.payload)

theorem demoWorld_server (disk : Disk) : ServerStart (demoWorld .server disk none) :=
  ⟨rfl, rfl, rfl, rfl, rfl, rfl, rfl, rfl, rfl⟩

theorem demoWorld_worker {b : Buffer ListRope} (h : bufferFromFile (bytes "ab") 1 workerHeight workerWidth false = .ok b) :
    WorkerStart (demoWorld .worker demoDisk (some b)) := by
  refine ⟨rfl, rfl, rfl, ⟨some (bytes "doc"), 1, ?_⟩, rfl, rfl, rfl⟩
  have hget : (some (bytes "doc")).bind demoDisk.get = some (.closed (bytes "ab")) := by
    rw [Option.bind_some, demoDisk, Disk.get_set_self]
  simp only [loadBuffer, demoWorld, hget, Inode.closed]
  rw [h]
  rfl

/-- Anna's password is right. -/
theorem validateUser_anna : validateUser demoDisk (some anna.payload) = .ok 1 := by
  have haccts : Accounts [(bytes "anna", bytes "secret")] (bytes "anna:secret") := ⟨by decide, by decide⟩
  exact haccts.logIn (by decide) rfl ((bytes "anna", bytes "secret"), 1) (by decide) anna.payload anna.parsed

/-- Anna logs in over the connection in slot `i`. -/
theorem anna_logsIn {w : World ListRope} (hdisk : w.disk = demoDisk) (hlen : w.proc.clients.length = maxClients + 1)
    {i : Nat} {fd : Conn} (hfd : w.connAt i = some fd) :
    w.step (.message i annaLogin demoAnswers) =
      .ok ({ w.readsClient (-1) with
          proc := { (w.readsClient (-1)).proc with clients := w.proc.clients.set 1 true } }.sendMsg fd
        (createMsg .msgOk 1 (-1) (-1) (some (bytes "1:doc")))) := by
  have hlist : getFileList demoDisk demoAnswers.mem = .ok (bytes "1:doc") := by decide
  simp only [World.step, hfd]
  rw [World.handleMsg_login rfl]
  refine World.login_eq (u := 1) ?_ (by decide) (Proc.inTable_of_le hlen (by decide)) ?_
  · exact hdisk ▸ validateUser_anna
  · exact hdisk ▸ hlist

/-- The worker's buffer can be sent, and has room for the cursor of user 1. -/
theorem demo_buffer : ∃ b : Buffer ListRope, bufferFromFile (bytes "ab") 1 workerHeight workerWidth false = .ok b ∧
    (∃ s, bufferSerialize b = .ok s) ∧ ∃ b' res, Op.run b (.copyOwn 1) = .ok (b', res) := by
  have htest : returns (bufferFromFile (R := ListRope) (bytes "ab") 1 workerHeight workerWidth false)
      (fun b => decide b.Fits && returns (Op.run b (.copyOwn 1)) fun _ => true) = true := by decide +kernel
  obtain ⟨b, hb, htest⟩ := exists_of_returns htest
  obtain ⟨hfits, hrun⟩ := (Bool.and_eq_true _ _).mp htest
  obtain ⟨⟨b', res⟩, hrun, -⟩ := exists_of_returns hrun
  have hreach : Reachable b := .load (by decide) hb
  obtain ⟨-, s, -, -, -, hs, -, -⟩ := hreach.restored (of_decide_eq_true hfits) true
  exact ⟨b, hb, ⟨s, hs⟩, b', res, hrun⟩

/-- A worker after two clients have connected and Anna has logged in over the first connection. -/
theorem demo_run {ok : World ListRope → Event → Prop}
    (hquiet : ∀ w ev, (∀ i msg a, ev = .message i msg a → msg = annaLogin) → ok w ev) (b : Buffer ListRope) :
    ∃ w trace, Run ok (demoWorld .worker demoDisk (some b)) trace w ∧
    w.proc.mode = .worker ∧ w.proc.buf = some b ∧ w.proc.clients = [false, true, false, false, false, false] ∧
    w.proc.pollList = [some 0, some 1, none, none, none] ∧ w.accepted = [1, 0] ∧ w.closed = [] ∧
    w.sent = [(0, .sendMsg (createMsg .msgOk 1 (-1) (-1) (some (bytes "1:doc"))))] ∧
    ∀ s ∈ trace, ∀ u, ¬ s.LogsIn 1 u := by
  have h₁ : Run ok (demoWorld .worker demoDisk (some b)) (⟨_, .accept 0, _⟩ :: []) _ :=
    .step .init (by show 0 ∉ []; decide) (hquiet _ _ nofun) rfl
  have h₂ : Run ok (demoWorld .worker demoDisk (some b)) (⟨_, .accept 1, _⟩ :: _) _ :=
    .step h₁ (by show 1 ∉ [0]; decide) (hquiet _ _ nofun) rfl
  have h₃ : Run ok (demoWorld .worker demoDisk (some b)) (⟨_, .message 0 annaLogin demoAnswers, _⟩ :: _) _ :=
    .step h₂ trivial (hquiet _ _ fun i msg a he => (Event.message.inj he).2.1.symm) (anna_logsIn rfl rfl rfl)
  refine ⟨_, _, h₃, rfl, rfl, rfl, rfl, rfl, rfl, rfl, ?_⟩
  simp only [List.forall_mem_cons, List.not_mem_nil, false_implies, implies_true, and_true]
  refine ⟨?_, ?_, ?_⟩
  · rintro u ⟨msg, ⟨i, a, he, hfd, -⟩, -⟩
    obtain ⟨rfl, -, -⟩ := Event.message.inj he
    cases hfd
  · rintro u ⟨msg, ⟨i, a, he, -⟩, -⟩
    cases he
  · rintro u ⟨msg, ⟨i, a, he, -⟩, -⟩
    cases he

/-- After her login Anna's requests are handled. -/
theorem session_flags_demo : ∃ w trace, Run (KeepsSession 1) (demoWorld .server demoDisk none) trace w ∧
    (∀ outside, w.proc.loggedIn outside 1 = true ↔ SignedIn 1 trace) ∧
    w.handleMsg demoAnswers 0 (createMsg .fileRequest 1 1 0 none) =
      w.handleServer demoAnswers 0 (createMsg .fileRequest 1 1 0 none) := by
  have hquiet : ∀ {w : World ListRope} {ev}, (∀ i msg a, ev = .message i msg a → msg = annaLogin) → KeepsSession 1 w ev := by
    intro w ev h i msg a he
    obtain rfl := h i msg a he
    exact ⟨fun _ ht => absurd ht (by decide), fun _ ht => absurd ht (by decide)⟩
  have h₁ : Run (KeepsSession 1) (demoWorld .server demoDisk none) (⟨_, .accept 0, _⟩ :: []) _ :=
    .step .init (by show 0 ∉ []; decide) (hquiet (by simp)) rfl
  have h₂ : Run (KeepsSession 1) (demoWorld .server demoDisk none) (⟨_, .message 0 annaLogin demoAnswers, _⟩ :: _) _ :=
    .step h₁ trivial (hquiet fun i msg a he => (Event.message.inj he).2.1.symm) (anna_logsIn rfl rfl rfl)
  obtain ⟨hflag, hadmits⟩ := session_flags (.inr (demoWorld_server demoDisk)) h₂ (by decide)
  exact ⟨_, _, h₂, hflag, (hadmits rfl ⟨by decide, by decide⟩).1
    (.inl ⟨0, annaLogin, ⟨0, demoAnswers, rfl, rfl, bytes "1:doc", rfl⟩, .inl rfl⟩)⟩

theorem validateRegister_files {freed : Freed} {d d' : Disk} {payload : Option Bytes} {u : Int}
    (h : validateRegister freed d payload = .ok (d', u)) : d'.get filesTxt = d.get filesTxt := by
  obtain ⟨fp, rfl⟩ := validateRegister_writes h
  exact d.get_set_ne (Ne.symm d.users_ne_files) _

/-- Anna registers with the main server and is turned away with her next request. -/
theorem registered_not_loggedIn : ∃ (w₀ w w' : World ListRope) (trace : List (Step ListRope)),
    ServerStart w₀ ∧ AnyRun w₀ trace w ∧ SignedIn 1 trace ∧ w.connAt 0 = some 0 ∧
    w.proc.loggedIn demoAnswers.outside 1 = false ∧
    w.step (.message 0 (createMsg .fileRequest 1 1 0 none) demoAnswers) = .ok w' ∧ w' = w.closeSocket 0 := by
  have haccts : Accounts [] [] := ⟨by decide, by simp⟩
  obtain ⟨d, hregister, -⟩ := haccts.register_new (d := Disk.ofTexts [] []) rfl anna (by decide)
  have hlist : getFileList d demoAnswers.mem = .ok [] := by
    rw [getFileList, validateRegister_files hregister]
    decide
  have h₁ : AnyRun (demoWorld .server (.ofTexts [] []) none) (⟨_, .accept 0, _⟩ :: []) _ :=
    .step .init (by show 0 ∉ []; decide) trivial rfl
  generalize hw₁ : (demoWorld .server (.ofTexts [] []) none).accept 0 = w₁ at h₁
  have hstep : w₁.step (.message 0 (createMsg .register (-1) (-1) (-1) (some anna.payload)) demoAnswers) =
      .ok ({ w₁.readsClient (-1) with disk := d }.sendMsg 0 (createMsg .msgOk 1 (-1) (-1) (some []))) := by
    have hfd : w₁.connAt 0 = some 0 := by subst hw₁; rfl
    have hmode : w₁.proc.mode = .server := by subst hw₁; rfl
    have hdisk : (w₁.readsClient (-1)).disk = .ofTexts [] [] := by subst hw₁; rfl
    simp only [World.step, hfd]
    rw [World.handleMsg_admitted (.inr fun h => h.2 rfl), hmode]
    exact World.handleServer_register rfl (hdisk ▸ hregister) (by decide) hlist
  have h₂ : AnyRun (demoWorld .server (.ofTexts [] []) none) (⟨_, .message 0 _ demoAnswers, _⟩ :: _) _ :=
    .step h₁ trivial trivial hstep
  subst hw₁
  refine ⟨_, _, _, _, demoWorld_server _, h₂, ?_, rfl, rfl, rfl, ?_⟩
  · exact .inl ⟨0, _, ⟨0, demoAnswers, rfl, rfl, [], rfl⟩, .inr rfl⟩
  · rw [World.readsClient_eq (Proc.inTable_of_le rfl (by decide))]

end CoEditor
