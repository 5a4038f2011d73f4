-- SUMMARY: What the main server replies to its clients, one reply to each request, and which ports it gives out.
import CoEditor.Client.Network
import CoEditor.Server.Members
import CoEditor.Server.Routing

/-!
# Replies

The main server replies to a request on the connection that it came over, and
tells nobody else. A document keeps the port that it was first given, so all
replies about it carry the same one.
-/

namespace CoEditor

open Decimal

variable {R : Type} [Rope R]

/-- Document `f` has been given a port. -/
def World.HasPort (w : World R) (f port : Int) : Prop := port ≠ 0 ∧ ∃ pid, arrayGet w.proc.workers f = .ok (port, pid)

/-- The message is answered with the list of documents, if all goes well. -/
def Message.Lists (msg : Message) : Prop := ∃ t ∈ [MsgType.login, .register, .createFile, .deleteFile], msg.type = t.code

instance (msg : Message) : Decidable msg.Lists := inferInstanceAs (Decidable (∃ t ∈ _, _))

/-- A reply of the main server to a message. -/
inductive World.Reply (w : World R) (msg : Message) : Message → Prop where
  | list {u : Int} {list : Bytes} : msg.Lists → (NeedsLogin msg → u = msg.userId) →
      Reply w msg (createMsg .msgOk u (-1) (-1) (some list))
  | failed : msg.Lists → Reply w msg (createMsg .msgFailed (-1) (-1) (-1) none)
  | port {port : Int} : msg.type = MsgType.fileRequest.code → w.HasPort msg.fileId port →
      Reply w msg (createMsg .fileResponse (-1) msg.fileId msg.fileVersion (some (ch 'M' :: digits port)))

/-- The request that comes over connection `c`, unless it is refused. -/
def World.request (w : World R) (c : Conn) : Event → Option Message
  | .message i msg a =>
      if w.connAt i = some c ∧ (w.proc.loggedIn a.outside msg.userId = true ∨ ¬ World.NeedsLogin msg) ∧
        (msg.Lists ∨ msg.type = MsgType.fileRequest.code) then some msg else none
  | _ => none

/-- The requests that came over connection `c`, the first one first. -/
def requests (c : Conn) (trace : List (Step R)) : List Message := trace.reverse.filterMap fun s => s.pre.request c s.event

/-- Ports are given out in ascending order. -/
structure Ports (w : World R) : Prop where
  hport : 0 < w.proc.hport
  below : ∀ f port, w.HasPort f port → port < w.proc.hport
  apart : ∀ f g port, w.HasPort f port → w.HasPort g port → f = g

omit [Rope R] in
theorem requests_cons (c : Conn) (s : Step R) (trace : List (Step R)) :
    requests c (s :: trace) = requests c trace ++ (s.pre.request c s.event).toList := by
  rw [requests, List.reverse_cons, List.filterMap_append, ← requests]
  cases h : s.pre.request c s.event <;> simp [h]

namespace World

variable {a : Answers} {w w' : World R} {fd c : Conn} {msg reply : Message} {f port : Int}

omit [Rope R] in
theorem Reply.mono (h : w.Reply msg reply) (hports : ∀ f port, w.HasPort f port → w'.HasPort f port) : w'.Reply msg reply := by
  cases h with
  | list hlists hu => exact .list hlists hu
  | failed hlists => exact .failed hlists
  | port ht hport => exact .port ht (hports _ _ hport)

omit [Rope R] in
/-- Replies are put on the connection of the sender only. -/
theorem Sends.inbox {replies : List Message} (h : w.Sends w' fd replies []) (c : Conn) :
    w'.inbox c = w.inbox c ++ if c = fd then replies else [] := by
  have hreplies : ((replies.map fun m => (fd, Send.sendMsg m)).filter (·.1 = c)).map (fun x => x.2.msg) =
      if c = fd then replies else [] := by
    rw [List.filter_map, List.map_map]
    by_cases hc : c = fd
    · simp [hc, Function.comp_def, Send.msg]
    · simp [hc, Ne.symm hc, Function.comp_def]
  rw [World.inbox, h, List.flatMap_nil, List.append_nil, List.filter_append, List.map_append, hreplies, ← World.inbox]

omit [Rope R] in
theorem request_message {i : Nat} (hfd : w.connAt i = some fd) (hadm : Admits a w msg)
    (hasks : msg.Lists ∨ msg.type = MsgType.fileRequest.code) : w.request fd (.message i msg a) = some msg :=
  if_pos ⟨hfd, hadm, hasks⟩

omit [Rope R] in
theorem answer_reply {ok : Prop} [Decidable ok] {u : Int} (hlists : msg.Lists) (hu : NeedsLogin msg → u = msg.userId)
    (h : w.answer a fd ok u = .ok w') : w'.proc = w.proc ∧ ∃ reply, w'.Reply msg reply ∧ w.Sends w' fd [reply] [] := by
  rcases answer_cases h with ⟨-, list, rfl⟩ | ⟨-, rfl⟩
  · exact ⟨rfl, createMsg .msgOk u (-1) (-1) (some list), .list hlists hu, by simp [Sends, sendMsg]⟩
  · exact ⟨rfl, _, .failed hlists, by simp [Sends, sendMsg]⟩

omit [Rope R] in
theorem login_reply (ht : msg.type = MsgType.login.code) (h : w.login a fd msg = .ok w') :
    w'.proc.workers = w.proc.workers ∧ w'.proc.hport = w.proc.hport ∧
      ∃ reply, w'.Reply msg reply ∧ w.Sends w' fd [reply] [] := by
  have hlists : msg.Lists := ⟨.login, by simp, ht⟩
  obtain ⟨u, -, ⟨-, list, proc, hproc, rfl⟩ | ⟨-, rfl⟩⟩ := login_cases h
  · obtain ⟨-, rfl⟩ := Proc.setClient_ok hproc
    exact ⟨rfl, rfl, createMsg .msgOk u (-1) (-1) (some list), .list hlists fun hneeds => absurd ht hneeds.1, by simp [Sends, sendMsg]⟩
  · exact ⟨rfl, rfl, _, .failed hlists, by simp [Sends, sendMsg]⟩

omit [Rope R] in
theorem HasPort.of_eq (hworkers : w'.proc.workers = w.proc.workers) : w'.HasPort f port ↔ w.HasPort f port := by
  rw [HasPort, HasPort, hworkers]

end World

/-! ## One message -/

section
variable {a : Answers} {w w' : World R} {fd c : Conn} {msg reply : Message} {f port : Int}

omit [Rope R] in
theorem Ports.of_eq (h : Ports w) (hworkers : w'.proc.workers = w.proc.workers) (hhport : w'.proc.hport = w.proc.hport) :
    Ports w' :=
  ⟨hhport ▸ h.hport, fun f port hport => hhport ▸ h.below f port ((World.HasPort.of_eq hworkers).mp hport),
    fun f g port hf hg => h.apart f g port ((World.HasPort.of_eq hworkers).mp hf) ((World.HasPort.of_eq hworkers).mp hg)⟩

/-- A document that is asked for keeps its port, or it gets one above all others. -/
theorem Ports.getWorker (h : Ports w) (hrun : getWorker a w f = .ok (w', port)) :
    Ports w' ∧ w'.HasPort f port ∧ ∀ g q, w.HasPort g q → w'.HasPort g q := by
  rcases World.getWorker_cases hrun with ⟨pid, hget, hne, rfl⟩ | ⟨pid, lp, answers, rest, workers, hget, hlp, hpp, hset, rfl⟩
  · exact ⟨h, ⟨hne, pid, hget⟩, fun _ _ h => h⟩
  · have hlt : w.proc.hport < port := by
      have h₁ := nextFree_le hlp
      have h₂ := nextFree_le hpp
      simp only at h₁ h₂
      omega
    have hpos := h.hport
    have hports : ∀ {g q}, (q ≠ 0 ∧ ∃ pid, arrayGet workers g = .ok (q, pid)) → g = f ∧ q = port ∨ w.HasPort g q := by
      rintro g q ⟨hne, pid', hget'⟩
      rcases arrayGet_arraySet hset hget' with ⟨hg, heq⟩ | ⟨-, hget'⟩
      · exact .inl ⟨hg, (Prod.mk.inj heq).1⟩
      · exact .inr ⟨hne, pid', hget'⟩
    refine ⟨⟨by show 0 < port + 1; omega, fun g q hq => ?_, fun g g' q hq hq' => ?_⟩, ⟨by omega, a.pid, arrayGet_set_self hset⟩, ?_⟩
    · show q < port + 1
      rcases hports hq with ⟨-, rfl⟩ | hq
      · omega
      · have := h.below g q hq
        omega
    · rcases hports hq with ⟨rfl, rfl⟩ | hold
      · rcases hports hq' with ⟨rfl, -⟩ | hold'
        · rfl
        · have := h.below g' q hold'
          omega
      · rcases hports hq' with ⟨rfl, rfl⟩ | hold'
        · have := h.below g q hold
          omega
        · exact h.apart g g' q hold hold'
    · rintro g q ⟨hne, pid', hget'⟩
      refine ⟨hne, pid', arrayGet_set_ne hset ?_ hget'⟩
      rintro rfl
      exact hne (Prod.mk.inj (Except.ok.inj (hget'.symm.trans hget))).1

/-- A message that the main server handles is answered on its connection, or nothing is sent. -/
theorem Ports.handleMsg (h : Ports w) (hmode : w.proc.mode = .server) {i : Nat} (hfd : w.connAt i = some fd)
    (hrun : w.handleMsg a fd msg = .ok w') : Ports w' ∧ (∀ g q, w.HasPort g q → w'.HasPort g q) ∧
      ((∃ reply, w.request fd (.message i msg a) = some msg ∧ w'.Reply msg reply ∧ w.Sends w' fd [reply] []) ∨
        w.request fd (.message i msg a) = none ∧ w.Sends w' fd [] []) := by
  have hkeep : w'.proc.workers = w.proc.workers → w'.proc.hport = w.proc.hport →
      Ports w' ∧ ∀ g q, w.HasPort g q → w'.HasPort g q :=
    fun hworkers hhport => ⟨h.of_eq hworkers hhport, fun _ _ => (World.HasPort.of_eq hworkers).mpr⟩
  have hlists : ∀ {t : MsgType} {u : Int} {disk : Disk} {ok : Prop} [Decidable ok],
      t ∈ [MsgType.login, .register, .createFile, .deleteFile] → msg.type = t.code → World.Admits a w msg →
      (World.NeedsLogin msg → u = msg.userId) → { w.readsClient msg.userId with disk }.answer a fd ok u = .ok w' →
      Ports w' ∧ (∀ g q, w.HasPort g q → w'.HasPort g q) ∧
        ∃ reply, w.request fd (.message i msg a) = some msg ∧ w'.Reply msg reply ∧ w.Sends w' fd [reply] [] := by
    intro t u disk ok _ hmem ht hadm hu hrun
    obtain ⟨hproc, reply, hreply, hsends⟩ := World.answer_reply ⟨t, hmem, ht⟩ hu hrun
    obtain ⟨hports, hkept⟩ := hkeep (by rw [hproc]; rfl) (by rw [hproc]; rfl)
    exact ⟨hports, hkept, reply, World.request_message hfd hadm (.inl ⟨t, hmem, ht⟩), hreply, hsends⟩
  have hother : (∀ t ∈ [MsgType.login, .register, .createFile, .deleteFile, .fileRequest], msg.type ≠ t.code) →
      w.request fd (.message i msg a) = none := by
    intro hts
    refine if_neg ?_
    rintro ⟨-, -, ⟨t, hmem, ht⟩ | ht⟩
    · exact hts t (List.mem_append_left [MsgType.fileRequest] hmem) ht
    · exact hts .fileRequest (by simp) ht
  rcases World.handleMsg_cases hrun with ⟨hno, rfl⟩ | ⟨hadm, ⟨-, hrun⟩ | ⟨hworker, -⟩⟩
  · obtain ⟨hports, hkept⟩ := hkeep rfl rfl
    exact ⟨hports, hkept, .inr ⟨if_neg fun hreq => hno hreq.2.1, by simp [World.Sends, World.closeSocket, World.readsClient]⟩⟩
  · cases World.handleServer_does hrun with
    | login ht hrun =>
        obtain ⟨hworkers, hhport, reply, hreply, hsends⟩ := World.login_reply ht hrun
        obtain ⟨hports, hkept⟩ := hkeep hworkers hhport
        exact ⟨hports, hkept, .inl ⟨reply, World.request_message hfd hadm (.inl ⟨.login, by simp, ht⟩), hreply, hsends⟩⟩
    | register ht _ hrun =>
        obtain ⟨hports, hkept, hreply⟩ := hlists (by simp) ht hadm (fun hneeds => absurd ht hneeds.2) hrun
        exact ⟨hports, hkept, .inl hreply⟩
    | fileRequest ht hworker =>
        have h' : Ports (w.readsClient msg.userId) := h.of_eq rfl rfl
        obtain ⟨hports, hport, hkept⟩ := h'.getWorker hworker
        have hsent := (World.getWorker_front hworker).sent
        exact ⟨hports.of_eq rfl rfl, hkept, .inl ⟨_, World.request_message hfd hadm (.inr ht), .port ht hport,
          by simp [World.Sends, World.sendMsg, hsent, World.readsClient]⟩⟩
    | createFile ht _ hrun =>
        obtain ⟨hports, hkept, hreply⟩ := hlists (by simp) ht hadm (fun _ => rfl) hrun
        exact ⟨hports, hkept, .inl hreply⟩
    | deleteFile ht _ hrun =>
        obtain ⟨hports, hkept, hreply⟩ := hlists (by simp) ht hadm (fun _ => rfl) hrun
        exact ⟨hports, hkept, .inl hreply⟩
    | quit ht hproc =>
        obtain ⟨-, rfl⟩ := Proc.setClient_ok hproc
        obtain ⟨hports, hkept⟩ := hkeep rfl rfl
        refine ⟨hports, hkept, .inr ⟨hother fun t hmem ht' => ?_, by simp [World.Sends, World.closeSocket, World.readsClient]⟩⟩
        rw [Message.type_unique ht' ht] at hmem
        exact absurd hmem (by decide)
    | ignore hts =>
        obtain ⟨hports, hkept⟩ := hkeep rfl rfl
        refine ⟨hports, hkept, .inr ⟨hother fun t hmem => hts t ?_, by simp [World.Sends, World.readsClient]⟩⟩
        simp only [List.mem_cons, List.not_mem_nil, or_false] at hmem ⊢
        tauto
  · rw [hmode] at hworker
    cases hworker

/-- What a step puts on a connection: a reply to the request that has come over it. -/
theorem Ports.step {ev : Event} (h : Ports w) (hmode : w.proc.mode = .server) (hstep : w.step ev = .ok w') :
    Ports w' ∧ (∀ g q, w.HasPort g q → w'.HasPort g q) ∧
      ∀ c, ∃ replies, w'.inbox c = w.inbox c ++ replies ∧ List.Forall₂ w'.Reply (w.request c ev).toList replies := by
  rcases World.step_cases hstep with ⟨i, msg, a, fd, rfl, hfd, hrun⟩ | ⟨hquiet, hidle⟩
  · obtain ⟨hports, hkept, hreply⟩ := h.handleMsg hmode hfd hrun
    refine ⟨hports, hkept, fun c => ?_⟩
    by_cases hc : c = fd
    · subst hc
      rcases hreply with ⟨reply, hreq, hreply, hsends⟩ | ⟨hreq, hsends⟩
      · exact ⟨[reply], by rw [hsends.inbox, if_pos rfl], by rw [hreq]; exact .cons hreply .nil⟩
      · exact ⟨[], by rw [hsends.inbox, ite_self], by rw [hreq]; exact .nil⟩
    · have hreq : w.request c (.message i msg a) = none := if_neg fun hreq => hc (Option.some.inj (hreq.1.symm.trans hfd))
      refine ⟨[], ?_, by rw [hreq]; exact .nil⟩
      rcases hreply with ⟨reply, -, -, hsends⟩ | ⟨-, hsends⟩
      · rw [hsends.inbox, if_neg hc]
      · rw [hsends.inbox, ite_self]
  · refine ⟨h.of_eq hidle.workers hidle.hport, fun g q => (World.HasPort.of_eq hidle.workers).mpr, fun c => ⟨[], ?_, ?_⟩⟩
    · rw [World.inbox, hidle.sent, ← World.inbox, List.append_nil]
    · have hreq : w.request c ev = none := by
        cases ev with
        | message i msg a => exact if_neg fun hreq => hquiet i msg a c rfl hreq.1
        | accept | hangup | eof | files | gone => rfl
      rw [hreq]
      exact .nil

end

/-! ## Runs -/

section
variable {w₀ w : World R} {trace : List (Step R)}

omit [Rope R] in
theorem ServerStart.no_ports (h : ServerStart w) (f port : Int) : ¬ w.HasPort f port := by
  rintro ⟨hne, pid, hget⟩
  rw [h.workers] at hget
  obtain ⟨-, hget⟩ := arrayGet_eq_ok.mp hget
  exact hne (Prod.mk.inj (List.eq_of_mem_replicate (List.mem_of_getElem? hget))).1

omit [Rope R] in
theorem ServerStart.ports (h : ServerStart w) : Ports w :=
  ⟨by rw [h.hport]; decide, fun f port hport => absurd hport (h.no_ports f port),
    fun f g port hport => absurd hport (h.no_ports f port)⟩

theorem Run.answered {ok : World R → Event → Prop} (h₀ : ServerStart w₀) (h : Run ok w₀ trace w) :
    Ports w ∧ ∀ c, List.Forall₂ w.Reply (requests c trace) (w.inbox c) := by
  induction h with
  | init =>
      refine ⟨h₀.ports, fun c => ?_⟩
      rw [World.inbox, h₀.sent]
      exact .nil
  | @step trace w w' ev hrun _ _ hstep ih =>
      obtain ⟨hports, hkept, hstep⟩ := ih.1.step (hrun.frame.1.trans h₀.mode) hstep
      refine ⟨hports, fun c => ?_⟩
      obtain ⟨replies, hinbox, hreplies⟩ := hstep c
      rw [requests_cons, hinbox]
      exact List.rel_append ((ih.2 c).imp fun _ _ h => h.mono hkept) hreplies

/-- In every run of the main server each connection carries one reply to every request that came over it, in the order of the
    requests, and nothing else. All replies about a document carry the one port it has, and no other document has that. -/
theorem answered_in_order (h₀ : ServerStart w₀) (h : AnyRun w₀ trace w) :
    (∀ c, List.Forall₂ w.Reply (requests c trace) (w.inbox c)) ∧
      ∀ f g port, w.HasPort f port → w.HasPort g port → f = g :=
  ⟨(h.answered h₀).2, (h.answered h₀).1.apart⟩

end

/-- Anna asks for the same document twice. -/
theorem answered_in_order_anna : ∃ (w : World ListRope) (trace : List (Step ListRope)),
    AnyRun (demoWorld .server demoDisk none) trace w ∧ requests 0 trace = [annaLogin, annaRequest, annaRequest] ∧
    List.Forall₂ w.Reply (requests 0 trace) (w.inbox 0) ∧ w.HasPort 1 46959 := by
  obtain ⟨⟨w, trace⟩, hplay, hP⟩ : ∃ x, (demoWorld .server demoDisk none).play (fun _ _ => True) [] [.accept 0,
      .message 0 annaLogin demoAnswers, .message 0 annaRequest demoAnswers, .message 0 annaRequest demoAnswers] = some x ∧
      decide (requests 0 x.2 = [annaLogin, annaRequest, annaRequest] ∧ arrayGet x.1.proc.workers 1 = .ok (46959, 77)) = true :=
    (Option.any_eq_true _ _).mp (by decide +kernel)
  obtain ⟨hrequests, hget⟩ := of_decide_eq_true hP
  have hrun := Run.init.play hplay
  exact ⟨w, trace, hrun, hrequests, (answered_in_order (demoWorld_server demoDisk) hrun).1 0, by decide, 77, hget⟩

end CoEditor
