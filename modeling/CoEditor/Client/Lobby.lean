-- SUMMARY: The client at the main server: what it asks for, and which worker it is sent to.
import CoEditor.Client.Replies
import CoEditor.Parson.Encoding
import CoEditor.Registry.Users
import CoEditor.Server.Log

/-!
# The lobby

`server_loop` of `editor.c`. The client signs in or up at the main server and
asks it for what its user chooses, until it is sent to the worker of a document.
-/

namespace CoEditor

open Decimal

variable {R : Type} [Rope R]

/-- What the user types when the client prompts: a number, if it is one, and the name of a new file. -/
structure Choice where
  number : Option Int
  name : Bytes

/-- The variables of `server_loop`. -/
structure Lobby where
  userId : Int
  fileId : Int
  workerPort : Int
  /-- The loop has been left. -/
  finished : Bool

/-- Does `%d` find a number? -/
def startsNumber (s : Bytes) : Bool := (splitSign (s.dropWhile isSpace)).2.head?.any isDigit

/-- `sscanf(payload, "M%d", &port)` -/
def scanPort (payload : Bytes) (port : Int) : Int :=
  match payload with
  | [] => port
  | c :: s => if c = ch 'M' ∧ startsNumber s then atoi s else port

namespace Lobby

/-- The client when the loop starts. -/
def start : Lobby := { userId := 0, fileId := 0, workerPort := 0, finished := false }

/-- The first message to the main server. -/
def greeting (reg : Bool) (username userpassword : Bytes) : Message :=
  createMsg (if reg then .register else .login) (-1) (-1) (-1) (some (createLoginPayload username userpassword))

/-- What the client asks for once the user has chosen file `fileId`. -/
def request (userId fileId : Int) (name : Bytes) : Message :=
  if fileId < 0 then createMsg .deleteFile userId (-1 * fileId) (-1) none
  else if 0 < fileId then createMsg .fileRequest userId fileId (-1) none
  else createMsg .createFile userId fileId (-1) (some name)

/-- Log out from main server. -/
def leave (l : Lobby) : Lobby × List Message := ({ l with finished := true }, [createMsg .quit l.userId (-1) (-1) none])

/-- Handle a message of the main server; with the messages that are sent. -/
def handleMsg (l : Lobby) (msg : Message) (choice : Choice) : Except Fault (Lobby × List Message) :=
  match MsgType.ofCode msg.type with
  | some .msgOk =>
      let fileId := choice.number.getD l.fileId
      pure ({ l with userId := msg.userId, fileId }, [request msg.userId fileId choice.name])
  | some .fileResponse => do
      let payload ← derefStr msg.payload
      pure { l with workerPort := scanPort payload l.workerPort }.leave
  | some .msgFailed => pure l.leave
  | _ => pure (l, [])

end Lobby

/-! ## The port -/

theorem startsNumber_digits (n : Int) : startsNumber (digits n) = true := by
  have hspace : (digits n).dropWhile isSpace = digits n := by
    obtain ⟨c, t, h, hc⟩ := digits_head n
    rw [h, List.dropWhile_cons_of_neg (by simp [(number_head hc).1])]
  have hsign := splitSign_digits n []
  rw [List.append_nil, List.append_nil] at hsign
  obtain ⟨d, ds, hd⟩ := List.exists_cons_of_ne_nil (natDigits_ne_nil n.natAbs)
  have hdigit : isDigit d = true := isDigit_of_mem (hd ▸ List.mem_cons_self)
  rw [startsNumber, hspace, hsign, hd]
  simpa using hdigit

/-- The port is read as the main server has printed it. -/
theorem scanPort_digits (n port : Int) : scanPort (ch 'M' :: digits n) port = n := by
  rw [scanPort, if_pos ⟨rfl, startsNumber_digits n⟩, atoi_digits]

/-! ## A client at the main server -/

/-- The main server, one of its clients, and what is under way between them. -/
structure Visit (R : Type) where
  world : World R
  fd : Conn
  lobby : Lobby
  /-- The messages that are on the way to the server. -/
  up : List Message
  /-- The number of messages received from the server. -/
  got : Nat

namespace Visit

/-- The messages that are on the way to the client. -/
def down (v : Visit R) : List Message := (v.world.inbox v.fd).drop v.got

inductive Act where
  /-- The server handles the next message of the client, which is in slot `i`. -/
  | handle (i : Nat) (a : Answers)
  /-- The client receives its next message, and the user chooses. -/
  | deliver (choice : Choice)
  /-- Something else happens at the server. -/
  | other (ev : Event)

/-- The next state; `none` if nothing can happen, or if a call does not return. -/
def step (v : Visit R) : Act → Option (Visit R)
  | .handle i a =>
      match v.up with
      | [] => none
      | msg :: up =>
          if v.world.connAt i = some v.fd then
            match v.world.step (.message i msg.received a) with
            | .ok world => some { v with world, up }
            | .error _ => none
          else none
  | .deliver choice =>
      match v.down with
      | [] => none
      | msg :: _ =>
          if v.lobby.finished then none
          else match v.lobby.handleMsg msg.received choice with
            | .ok (lobby, out) => some { v with lobby, up := v.up ++ out, got := v.got + 1 }
            | .error _ => none
  | .other ev =>
      match v.world.step ev with
      | .ok world => some { v with world }
      | .error _ => none

/-- The event at the server that an act is. -/
def event (v : Visit R) : Act → Option Event
  | .handle i a => v.up.head?.map fun msg => .message i msg.received a
  | .deliver _ => none
  | .other ev => some ev

/-- Can the act happen? Every event at the server meets `ok`, and nobody else uses the connection. -/
def Can (ok : World R → Event → Prop) (v : Visit R) (act : Act) : Prop :=
  (∀ ev ∈ v.event act, ev.Possible v.world ∧ ok v.world ev) ∧
    match act with
    | .other ev => ¬ v.world.Sender ev v.fd
    | _ => True

/-- The visits that `v₀` comes to by acts that can happen. -/
inductive Runs (ok : World R → Event → Prop) (v₀ : Visit R) : Visit R → Prop where
  | init : Runs ok v₀ v₀
  | step {v v' : Visit R} {act : Act} : Runs ok v₀ v → v.Can ok act → v.step act = some v' → Runs ok v₀ v'

/-- The client has just connected to a main server that started as `w₀`. -/
structure Start (ok : World R → Event → Prop) (w₀ : World R) (v : Visit R) : Prop where
  server : ∃ trace, Run ok w₀ trace v.world
  silent : v.world.inbox v.fd = []
  lobby : v.lobby = .start
  up : ∃ reg username userpassword, v.up = [Lobby.greeting reg username userpassword]
  got : v.got = 0

end Visit

/-- The last message that the client has sent, unless it has left. -/
def Lobby.Asked (l : Lobby) (msg : Message) : Prop :=
  (∃ reg username userpassword, msg = greeting reg username userpassword) ∨ ∃ name, msg = request l.userId l.fileId name

/-- Who is to speak next. -/
inductive Visit.Turn (v : Visit R) : Prop where
  | server {msg : Message} : v.up = [msg] → v.down = [] → v.lobby.finished = false → v.lobby.Asked msg → Turn v
  | client {msg reply : Message} : v.up = [] → v.down = [reply] → v.lobby.finished = false → v.lobby.Asked msg →
      v.world.Reply msg reply → Turn v
  | refused : v.up = [] → v.down = [] → v.lobby.finished = false → v.fd ∈ v.world.closed → Turn v
  | left {up : List Message} : v.up = up → (up = [] ∨ up = [createMsg .quit v.lobby.userId (-1) (-1) none]) → v.down = [] →
      v.lobby.finished = true → Turn v

structure Visit.Inv (v : Visit R) : Prop where
  got : v.got ≤ (v.world.inbox v.fd).length
  turn : v.Turn
  port : v.lobby.workerPort ≠ 0 → v.lobby.finished = true ∧ v.world.HasPort v.lobby.fileId v.lobby.workerPort

/-! ## One act -/

section
variable {v v' : Visit R} {w w' : World R} {l l' : Lobby} {ev : Event} {act : Visit.Act} {msg reply : Message} {choice : Choice}
  {out replies : List Message}

omit [Rope R] in
theorem Visit.down_append (hgot : v.got ≤ (v.world.inbox v.fd).length) (hinbox : w'.inbox v.fd = v.world.inbox v.fd ++ replies)
    (up : List Message) : ({ v with world := w', up } : Visit R).down = v.down ++ replies := by
  rw [down, hinbox, List.drop_append_of_le_length hgot, ← down]

omit [Rope R] in
theorem World.request_other {fd : Conn} (h : ¬ w.Sender ev fd) : w.request fd ev = none := by
  cases ev with
  | message i msg a => exact if_neg fun hreq => h ⟨i, msg, a, rfl, hreq.1⟩
  | accept | hangup | eof | files | gone => rfl

/-- The client asks one of the questions that the main server answers. -/
theorem Lobby.Asked.answered (h : l.Asked msg) : msg.Lists ∨ msg.type = MsgType.fileRequest.code := by
  rcases h with ⟨reg, name, pass, rfl⟩ | ⟨name, rfl⟩
  · cases reg with
    | true => exact .inl ⟨.register, by simp, rfl⟩
    | false => exact .inl ⟨.login, by simp, rfl⟩
  · unfold request
    split
    · exact .inl ⟨.deleteFile, by simp, rfl⟩
    · split
      · exact .inr rfl
      · exact .inl ⟨.createFile, by simp, rfl⟩

/-- A file is asked for under the number that was chosen. -/
theorem Lobby.Asked.fileId (h : l.Asked msg) (ht : msg.type = MsgType.fileRequest.code) : msg.fileId = l.fileId := by
  rcases h with ⟨reg, name, pass, rfl⟩ | ⟨name, rfl⟩
  · cases reg with
    | true => exact absurd ht (by simp [greeting, createMsg]; decide)
    | false => exact absurd ht (by simp [greeting, createMsg]; decide)
  · unfold request at ht ⊢
    split
    · next hneg =>
        rw [if_pos hneg] at ht
        exact absurd ht (by simp [createMsg]; decide)
    · next hneg =>
        split
        · rfl
        · rfl

omit [Rope R] in
/-- What the client makes of a reply. -/
theorem Lobby.handleMsg_reply (hasked : l.Asked msg) (hreply : w.Reply msg reply) (hport : l.workerPort = 0) (hfinished : l.finished = false)
    (h : l.handleMsg reply.received choice = .ok (l', out)) :
    (l'.finished = false ∧ l'.workerPort = 0 ∧ ∃ msg', out = [msg'] ∧ l'.Asked msg') ∨
      l'.finished = true ∧ out = [createMsg .quit l'.userId (-1) (-1) none] ∧
        (l'.workerPort ≠ 0 → w.HasPort l'.fileId l'.workerPort) := by
  cases hreply with
  | list =>
      obtain ⟨rfl, rfl⟩ := Prod.mk.inj (Except.ok.inj h)
      exact .inl ⟨hfinished, hport, _, rfl, .inr ⟨_, rfl⟩⟩
  | failed =>
      obtain ⟨rfl, rfl⟩ := Prod.mk.inj (Except.ok.inj h)
      exact .inr ⟨rfl, rfl, fun hne => absurd hport hne⟩
  | @port port ht hhas =>
      have hsend : (createMsg .fileResponse (-1) msg.fileId msg.fileVersion (some (ch 'M' :: digits port))).Sendable := by
        intro pl hpl
        obtain rfl := Option.some.inj hpl
        refine ⟨?_, Utf8.valid_iff.mp (.cons (by decide) (valid_digits port))⟩
        rw [List.mem_cons, not_or]
        exact ⟨by decide, zero_notMem_digits port⟩
      rw [hsend.received] at h
      obtain ⟨rfl, rfl⟩ := Prod.mk.inj (Except.ok.inj h)
      refine .inr ⟨rfl, rfl, fun _ => ?_⟩
      show w.HasPort l.fileId (scanPort (ch 'M' :: digits port) l.workerPort)
      rwa [scanPort_digits, ← hasked.fileId ht]

/-- Whatever happens at the server, the client has the same conversation with it. -/
theorem Visit.Inv.other (h : v.Inv) (hports : Ports v.world) (hmode : v.world.proc.mode = .server)
    (hquiet : ¬ v.world.Sender ev v.fd) (hstep : v.world.step ev = .ok w') : ({ v with world := w' } : Visit R).Inv := by
  obtain ⟨-, hkept, hinbox⟩ := hports.step hmode hstep
  have hsame : w'.inbox v.fd = v.world.inbox v.fd := by
    obtain ⟨replies, hinbox, hreplies⟩ := hinbox v.fd
    rw [World.request_other hquiet] at hreplies
    cases hreplies
    rw [hinbox, List.append_nil]
  have hdown : ({ v with world := w' } : Visit R).down = v.down := by
    rw [Visit.down, Visit.down, hsame]
  refine ⟨hsame ▸ h.got, ?_, fun hne => ⟨(h.port hne).1, hkept _ _ (h.port hne).2⟩⟩
  cases h.turn with
  | server hup hd hfinished hasked => exact .server hup (hdown.trans hd) hfinished hasked
  | client hup hd hfinished hasked hreply => exact .client hup (hdown.trans hd) hfinished hasked (hreply.mono hkept)
  | refused hup hd hfinished hclosed => exact .refused hup (hdown.trans hd) hfinished (World.step_closed hstep hclosed)
  | left hup hquit hd hfinished => exact .left hup hquit (hdown.trans hd) hfinished

/-- The server answers the client, or closes the connection. -/
theorem Visit.Inv.handle (h : v.Inv) (hports : Ports v.world) (hmode : v.world.proc.mode = .server) {up : List Message}
    (hup : v.up = msg :: up) {i : Nat} {a : Answers} (hfd : v.world.connAt i = some v.fd)
    (hstep : v.world.step (.message i msg.received a) = .ok w') : ({ v with world := w', up } : Visit R).Inv := by
  obtain ⟨-, hkept, hinbox⟩ := hports.step hmode hstep
  obtain ⟨replies, hinbox, hreplies⟩ := hinbox v.fd
  have hdown := v.down_append h.got hinbox up
  refine ⟨?_, ?_, fun hne => ⟨(h.port hne).1, hkept _ _ (h.port hne).2⟩⟩
  · show v.got ≤ (w'.inbox v.fd).length
    rw [hinbox, List.length_append]
    exact Nat.le_add_right_of_le h.got
  · cases h.turn with
    | client hup' | refused hup' => cases hup'.symm.trans hup
    | server hup' hd hfinished hasked =>
        obtain ⟨rfl, rfl⟩ := List.cons.inj (hup.symm.trans hup')
        by_cases hadm : World.Admits a v.world msg.received
        · rw [World.request_message hfd hadm hasked.answered] at hreplies
          obtain ⟨reply, hreply, rfl⟩ : ∃ reply, w'.Reply msg.received reply ∧ replies = [reply] := by
            cases hreplies with
            | cons hreply hnil =>
                cases hnil
                exact ⟨_, hreply, rfl⟩
          refine .client rfl (by rw [hdown, hd, List.nil_append]) hfinished hasked ?_
          cases hreply with
          | list hlists hu => exact .list hlists hu
          | failed hlists => exact .failed hlists
          | port ht hport => exact .port ht hport
        · have hnone : v.world.request v.fd (.message i msg.received a) = none := if_neg fun hreq => hadm hreq.2.1
          rw [hnone] at hreplies
          cases hreplies
          simp only [World.step, hfd] at hstep
          have hw' : w' = (v.world.readsClient msg.received.userId).closeSocket v.fd := by
            rcases World.handleMsg_cases hstep with ⟨-, hw'⟩ | ⟨hadm', -⟩
            · exact hw'
            · exact absurd hadm' hadm
          exact .refused rfl (by rw [hdown, hd, List.nil_append]) hfinished (by rw [hw']; exact List.mem_cons_self ..)
    | @left up' hup' hquit hd hfinished =>
        obtain rfl := hup'.symm.trans hup
        obtain ⟨rfl, rfl⟩ : msg = createMsg .quit v.lobby.userId (-1) (-1) none ∧ up = [] := by
          rcases hquit with hnil | hquit
          · cases hnil
          · exact List.cons.inj hquit
        have hnone : v.world.request v.fd
            (.message i (createMsg .quit v.lobby.userId (-1) (-1) none).received a) = none := by
          refine if_neg ?_
          rintro ⟨-, -, ⟨t, hmem, ht⟩ | ht⟩
          · obtain rfl := Message.type_unique (t := .quit) rfl ht
            exact absurd hmem (by decide)
          · cases Message.type_unique (t := .quit) rfl ht
        rw [hnone] at hreplies
        cases hreplies
        exact .left rfl (.inl rfl) (by rw [hdown, hd, List.nil_append]) hfinished

omit [Rope R] in
/-- The client goes on with the reply. -/
theorem Visit.Inv.deliver (h : v.Inv) {down : List Message} (hdown : v.down = msg :: down) (hfinished : v.lobby.finished = false)
    (hrun : v.lobby.handleMsg msg.received choice = .ok (l', out)) :
    ({ v with lobby := l', up := v.up ++ out, got := v.got + 1 } : Visit R).Inv := by
  have hport : v.lobby.workerPort = 0 := by
    by_contra hne
    cases hfinished.symm.trans (h.port hne).1
  cases h.turn with
  | server _ hd | refused _ hd | left _ _ hd => cases hd.symm.trans hdown
  | @client asked reply hup hd _ hasked hreply =>
      obtain ⟨rfl, rfl⟩ := List.cons.inj (hd.symm.trans hdown)
      have hlt : v.got < (v.world.inbox v.fd).length := by
        have hlen := congrArg List.length hd
        rw [Visit.down, List.length_drop, List.length_singleton] at hlen
        omega
      have hnil : ({ v with lobby := l', up := v.up ++ out, got := v.got + 1 } : Visit R).down = [] := by
        have htail := congrArg List.tail hd
        rwa [Visit.down, List.tail_drop] at htail
      rcases Lobby.handleMsg_reply hasked hreply hport hfinished hrun with
        ⟨hfinished', hport', msg', rfl, hasked'⟩ | ⟨hfinished', rfl, hhas⟩
      · exact ⟨hlt, .server (by rw [hup]; rfl) hnil hfinished' hasked', fun hne => absurd hport' hne⟩
      · exact ⟨hlt, .left rfl (.inr (by rw [hup]; rfl)) hnil hfinished', fun hne => ⟨hfinished', hhas hne⟩⟩

end

/-! ## Visits -/

section
variable {w₀ : World R} {v₀ v : Visit R} {ok : World R → Event → Prop}

theorem Visit.step_cases {v' : Visit R} {act : Visit.Act} (h : v.step act = some v') :
    (∃ i a msg up w', act = .handle i a ∧ v.up = msg :: up ∧ v.world.connAt i = some v.fd ∧
      v.world.step (.message i msg.received a) = .ok w' ∧ v' = { v with world := w', up }) ∨
    (∃ choice msg down l' out, act = .deliver choice ∧ v.down = msg :: down ∧ v.lobby.finished = false ∧
      v.lobby.handleMsg msg.received choice = .ok (l', out) ∧
      v' = { v with lobby := l', up := v.up ++ out, got := v.got + 1 }) ∨
    ∃ ev w', act = .other ev ∧ v.world.step ev = .ok w' ∧ v' = { v with world := w' } := by
  cases act with
  | handle i a =>
      simp only [step] at h
      split at h
      · cases h
      · next msg up hup =>
          split at h
          · next hfd =>
              split at h
              · next w' hstep => exact .inl ⟨i, a, msg, up, w', rfl, hup, hfd, hstep, (Option.some.inj h).symm⟩
              · cases h
          · cases h
  | deliver choice =>
      simp only [step] at h
      split at h
      · cases h
      · next msg down hdown =>
          split at h
          · cases h
          · next hfinished =>
              split at h
              · next l' out hrun =>
                  exact .inr (.inl ⟨choice, msg, down, l', out, rfl, hdown, Bool.eq_false_iff.mpr hfinished, hrun,
                    (Option.some.inj h).symm⟩)
              · cases h
  | other ev =>
      simp only [step] at h
      split at h
      · next w' hstep => exact .inr (.inr ⟨ev, w', rfl, hstep, (Option.some.inj h).symm⟩)
      · cases h

/-- What a visit is part of: a run of the main server. -/
theorem Visit.Runs.server (hstart : v₀.Start ok w₀) (h : v₀.Runs ok v) : ∃ trace, Run ok w₀ trace v.world := by
  induction h with
  | init => exact hstart.server
  | @step v v' act _ hcan hstep ih =>
      obtain ⟨trace, hrun⟩ := ih
      rcases Visit.step_cases hstep with ⟨i, a, msg, up, w', rfl, hup, -, hw', rfl⟩ |
        ⟨-, -, -, -, -, -, -, -, -, rfl⟩ | ⟨ev, w', rfl, hw', rfl⟩
      · obtain ⟨hpossible, hev⟩ := hcan.1 (.message i msg.received a) (by rw [Visit.event, hup]; rfl)
        exact ⟨_, hrun.step hpossible hev hw'⟩
      · exact ⟨trace, hrun⟩
      · obtain ⟨hpossible, hev⟩ := hcan.1 ev rfl
        exact ⟨_, hrun.step hpossible hev hw'⟩

theorem Visit.Runs.inv (h₀ : ServerStart w₀) (hstart : v₀.Start ok w₀) (h : v₀.Runs ok v) : v.Inv := by
  induction h with
  | init =>
      obtain ⟨reg, name, pass, hup⟩ := hstart.up
      refine ⟨by rw [hstart.got]; exact Nat.zero_le _, .server hup ?_ ?_ (.inl ⟨reg, name, pass, rfl⟩), fun hne => ?_⟩
      · rw [Visit.down, hstart.silent, List.drop_nil]
      · rw [hstart.lobby]
        rfl
      · rw [hstart.lobby] at hne
        exact absurd rfl hne
  | @step v v' act hrun hcan hstep ih =>
      obtain ⟨trace, hserver⟩ := hrun.server hstart
      have hports := (hserver.answered h₀).1
      have hmode := hserver.frame.1.trans h₀.mode
      rcases Visit.step_cases hstep with ⟨i, a, msg, up, w', -, hup, hfd, hw', rfl⟩ |
        ⟨choice, msg, down, l', out, -, hdown, hfinished, hmsg, rfl⟩ | ⟨ev, w', rfl, hw', rfl⟩
      · exact ih.handle hports hmode hup hfd hw'
      · exact ih.deliver hdown hfinished hmsg
      · exact ih.other hports hmode hcan.2 hw'

/-- The client and the main server take turns: there is never more than one message under way between them, and while
    there is none the client has left, or the server has refused its request and closed the connection. -/
theorem lobby_takes_turns (h₀ : ServerStart w₀) (hstart : v₀.Start ok w₀) (h : v₀.Runs ok v) :
    v.up.length + v.down.length ≤ 1 ∧
      (v.up = [] → v.down = [] → v.lobby.finished = true ∨ v.fd ∈ v.world.closed) := by
  cases (h.inv h₀ hstart).turn with
  | server hup hd => exact ⟨by rw [hup, hd]; rfl, fun hnil => by cases hup.symm.trans hnil⟩
  | client hup hd => exact ⟨by rw [hup, hd]; rfl, fun _ hnil => by cases hd.symm.trans hnil⟩
  | refused hup hd _ hclosed => exact ⟨by rw [hup, hd]; exact Nat.zero_le _, fun _ _ => .inr hclosed⟩
  | left hup hquit hd hfinished =>
      refine ⟨?_, fun _ _ => .inl hfinished⟩
      rw [hup, hd]
      rcases hquit with rfl | rfl
      · exact Nat.zero_le _
      · exact Nat.le_refl _

/-- A document with a port has a worker behind it. -/
theorem Routes.routed {w : World R} (h : Routes w) {f port : Int} (hport : w.HasPort f port) : Routed w f port := by
  obtain ⟨hne, pid, hget⟩ := hport
  obtain ⟨-, hvalid, -, child, name, hserves, -⟩ := h.entry f port pid hget hne
  refine ⟨hvalid, ⟨pid, hget⟩, fun g q pid' hg hget' heq => ?_, child, hserves⟩
  subst heq
  exact hg (h.apart g f q pid' pid hget' hget hne)

end

/-! ## Visits that can be computed -/

instance (ok : World R → Event → Prop) [∀ w, DecidablePred (ok w)] (v : Visit R) (act : Visit.Act) : Decidable (v.Can ok act) :=
  match act with
  | .handle i a => inferInstanceAs (Decidable ((∀ ev ∈ v.event (.handle i a), _) ∧ True))
  | .deliver choice => inferInstanceAs (Decidable ((∀ ev ∈ v.event (.deliver choice), _) ∧ True))
  | .other ev => inferInstanceAs (Decidable ((∀ ev' ∈ v.event (.other ev), _) ∧ ¬ _))

/-- The visit after these acts, as long as they can happen. -/
def Visit.play (ok : World R → Event → Prop) [∀ w, DecidablePred (ok w)] (v : Visit R) : List Visit.Act → Option (Visit R)
  | [] => some v
  | act :: acts =>
      if v.Can ok act then
        match v.step act with
        | some v' => v'.play ok acts
        | none => none
      else none

theorem Visit.Runs.play {ok : World R → Event → Prop} [∀ w, DecidablePred (ok w)] {v₀ : Visit R} {acts : List Visit.Act} :
    ∀ {v v' : Visit R}, v₀.Runs ok v → v.play ok acts = some v' → v₀.Runs ok v' := by
  induction acts with
  | nil =>
      intro v v' h hplay
      cases hplay
      exact h
  | cons act acts ih =>
      intro v v' h hplay
      rw [Visit.play] at hplay
      split at hplay
      · next hcan =>
          split at hplay
          · next v₁ hstep => exact ih (h.step hcan hstep) hplay
          · cases hplay
      · cases hplay

/-- The steps of the main server in these acts, the last one first. -/
def Visit.steps (v : Visit R) : List Visit.Act → List (Step R)
  | [] => []
  | act :: acts =>
      match v.step act with
      | some v' => v'.steps acts ++ (v.event act).toList.map fun ev => ⟨v.world, ev, v'.world⟩
      | none => []

theorem Visit.play_server {ok : World R → Event → Prop} [∀ w, DecidablePred (ok w)] {w₀ : World R} {acts : List Visit.Act} :
    ∀ {v v' : Visit R} {trace : List (Step R)}, Run ok w₀ trace v.world → v.play ok acts = some v' →
      Run ok w₀ (v.steps acts ++ trace) v'.world := by
  induction acts with
  | nil =>
      intro v v' trace hrun hplay
      cases hplay
      exact hrun
  | cons act acts ih =>
      intro v v' trace hrun hplay
      rw [Visit.play] at hplay
      split at hplay
      · next hcan =>
          split at hplay
          · next v₁ hstep =>
              have hrun₁ : Run ok w₀ (((v.event act).toList.map fun ev => ⟨v.world, ev, v₁.world⟩) ++ trace) v₁.world := by
                rcases Visit.step_cases hstep with ⟨i, a, msg, up, w', rfl, hup, -, hw', rfl⟩ |
                  ⟨-, -, -, -, -, rfl, -, -, -, rfl⟩ | ⟨ev, w', rfl, hw', rfl⟩
                · have hev : v.event (.handle i a) = some (.message i msg.received a) := by rw [Visit.event, hup]; rfl
                  obtain ⟨hpossible, hok⟩ := hcan.1 _ hev
                  rw [hev]
                  exact hrun.step hpossible hok hw'
                · exact hrun
                · obtain ⟨hpossible, hok⟩ := hcan.1 ev rfl
                  exact hrun.step hpossible hok hw'
              have hrest := ih hrun₁ hplay
              rw [← List.append_assoc] at hrest
              simpa only [Visit.steps, hstep] using hrest
          · cases hplay
      · cases hplay

theorem Visit.Runs.mono {ok ok' : World R → Event → Prop} (hok : ∀ w ev, ok w ev → ok' w ev) {v₀ v : Visit R} (h : v₀.Runs ok v) :
    v₀.Runs ok' v := by
  induction h with
  | init => exact .init
  | step _ hcan hstep ih => exact .step ih ⟨fun ev hev => ⟨(hcan.1 ev hev).1, hok _ _ (hcan.1 ev hev).2⟩, hcan.2⟩ hstep

/-- Anna has just connected. -/
def annaVisit : Visit ListRope where
  world := (demoWorld .server demoDisk none).accept 0
  fd := 0
  lobby := .start
  up := [Lobby.greeting false (bytes "anna") (bytes "secret")]
  got := 0

/-- Anna signs in, chooses the first document, and is sent to its worker. -/
def annaActs : List Visit.Act :=
  [.handle 0 demoAnswers, .deliver ⟨some 1, []⟩, .handle 0 demoAnswers, .deliver ⟨none, []⟩, .handle 0 demoAnswers]

theorem annaVisit_start {ok : World ListRope → Event → Prop} (hok : ok (demoWorld .server demoDisk none) (.accept 0)) :
    annaVisit.Start ok (demoWorld .server demoDisk none) :=
  ⟨⟨_, .step .init (by show 0 ∉ []; decide) hok rfl⟩, rfl, rfl, ⟨_, _, _, rfl⟩, rfl⟩

theorem lobby_takes_turns_anna : ∃ v : Visit ListRope, annaVisit.Runs (fun _ _ => True) v ∧ v.lobby.workerPort = 46959 ∧
    v.up.length + v.down.length ≤ 1 ∧ (v.lobby.finished = true ∨ v.fd ∈ v.world.closed) := by
  obtain ⟨v, hplay, hP⟩ : ∃ v, annaVisit.play (fun _ _ => True) annaActs = some v ∧
      decide (v.lobby.workerPort = 46959 ∧ v.up = [] ∧ v.down = []) = true :=
    (Option.any_eq_true _ _).mp (by decide +kernel)
  obtain ⟨hport, hup, hdown⟩ := of_decide_eq_true hP
  have hrun := Visit.Runs.init.play hplay
  obtain ⟨hle, hleft⟩ := lobby_takes_turns (demoWorld_server demoDisk) (annaVisit_start trivial) hrun
  exact ⟨v, hrun, hport, hle, hleft hup hdown⟩

/-- A sign-in, a logout, or a request for a document that exists. -/
def Event.Plain (w : World R) : Event → Prop
  | .accept _ => True
  | .message _ msg a => msg.type = MsgType.login.code ∨ msg.type = MsgType.quit.code ∨
      msg.type = MsgType.fileRequest.code ∧ (1 ≤ msg.fileId ∧ msg.fileId ≤ maxWorkers) ∧ 0 < a.pid ∧
        returns (nextFree a.portFree w.proc.hport >>= fun x => nextFree x.2 (x.1 + 1)) (fun x => decide (x.1 ≤ 65535)) = true ∧
        returns (getFileName w.disk msg.fileId) (fun name =>
          name.any fun name => decide (name ≠ []) && (w.disk.get name).isSome) = true
  | .hangup _ | .eof _ | .files _ | .gone _ => False

instance (w : World R) : DecidablePred (Event.Plain w)
  | .accept _ => .isTrue trivial
  | .message _ _ _ => inferInstanceAs (Decidable (_ ∨ _ ∨ _ ∧ _))
  | .hangup _ | .eof _ | .files _ | .gone _ => .isFalse id

omit [Rope R] in
theorem Event.Plain.keepsRoutes {w : World R} {ev : Event} (h : ev.Plain w) : ev.KeepsRoutes w := by
  refine ⟨?_, ?_, ?_, ?_⟩
  · rintro i msg a fd rfl - - ht
    rcases h with ht' | ht' | ⟨-, hrange, hpid, hports, hname⟩
    · cases Message.type_unique ht ht'
    · cases Message.type_unique ht ht'
    · refine ⟨hrange, fun _ => hpid, fun _ lp rest pp rest' hlp hpp => ?_, fun _ => ?_⟩
      · rw [hlp, Except.ok_bind_eq, hpp] at hports
        exact of_decide_eq_true hports
      · obtain ⟨name, hget, hname⟩ := exists_of_returns hname
        obtain ⟨name, rfl, hname⟩ := (Option.any_eq_true _ _).mp hname
        obtain ⟨hne, hfile⟩ := (Bool.and_eq_true _ _).mp hname
        obtain ⟨fp, hfp⟩ := Option.isSome_iff_exists.mp hfile
        exact ⟨name, fp, hget, of_decide_eq_true hne, hfp⟩
  · rintro fails op ⟨i, msg, a, fd, rfl, -, -, hop, -⟩
    rcases h with ht | ht | ⟨ht, -⟩
    all_goals
      have htype := hop.type
      rw [ht] at htype
      exact absurd htype (by decide)
  · rintro d rfl
    exact h.elim
  · rintro pid rfl
    exact h.elim

/-- Anna's requests are served. -/
theorem annaVisit_runs : annaVisit.Start (fun w ev => ev.KeepsRoutes w) (demoWorld .server demoDisk none) ∧
    ∃ v, annaVisit.Runs (fun w ev => ev.KeepsRoutes w) v ∧ v.lobby.workerPort = 46959 ∧ v.lobby.fileId = 1 := by
  have hplain : (.accept 0 : Event).Plain (demoWorld .server demoDisk none) := trivial
  obtain ⟨v, hplay, hP⟩ : ∃ v, annaVisit.play (fun w ev => ev.Plain w) annaActs = some v ∧
      decide (v.lobby.workerPort = 46959 ∧ v.lobby.fileId = 1) = true :=
    (Option.any_eq_true _ _).mp (by decide +kernel)
  exact ⟨annaVisit_start hplain.keepsRoutes, v, (Visit.Runs.init.play hplay).mono fun _ _ h => h.keepsRoutes, of_decide_eq_true hP⟩

end CoEditor
