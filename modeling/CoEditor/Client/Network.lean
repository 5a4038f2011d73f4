-- SUMMARY: A worker and its clients with messages under way: what each client comes to see.
import CoEditor.Client.Defs
import CoEditor.Server.Members
import CoEditor.Session.Apart
import CoEditor.Session.Crossing

/-!
# Networks

The clients of a worker press keys, the worker handles their messages in the
order they arrive, and each client receives what the worker sends it in the
order it was sent. Every message is received by itself. Nothing orders the
calls of two clients that cross on the way.
-/

namespace CoEditor

variable {R : Type}

/-- A client and its connection. -/
structure Site (R : Type) where
  fd : Conn
  editor : Editor R
  /-- The messages that are on the way to the worker. -/
  up : List Message
  /-- The number of messages received from the worker. -/
  got : Nat

/-- The messages that are on the way to the client. -/
def Site.down (s : Site R) (w : World R) : List Message := (w.inbox s.fd).drop s.got

structure Net (R : Type) where
  world : World R
  sites : List (Site R)

inductive Act where
  /-- Client `i` presses a key. -/
  | press (i : Nat) (key : Key)
  /-- The worker handles the next message of client `i`. -/
  | handle (i : Nat) (a : Answers)
  /-- Client `i` receives its next message. -/
  | deliver (i : Nat)

namespace Net

/-- No message is under way. -/
def Quiet (net : Net R) : Prop := ∀ s ∈ net.sites, s.up = [] ∧ s.down net.world = []

variable [Rope R]

/-- The next state; `none` if nothing can happen, if a call does not return, or if a client quits. -/
def step (net : Net R) : Act → Option (Net R)
  | .press i key => do
      let s ← net.sites[i]?
      match s.editor.handleInput key with
      | .ok (editor, msg, false) => some { net with sites := net.sites.set i { s with editor, up := s.up ++ [msg] } }
      | _ => none
  | .handle i a => do
      let s ← net.sites[i]?
      match s.up with
      | [] => none
      | msg :: up =>
          match net.world.handleMsg a s.fd msg.received with
          | .ok world => some { world, sites := net.sites.set i { s with up } }
          | .error _ => none
  | .deliver i => do
      let s ← net.sites[i]?
      match s.down net.world with
      | [] => none
      | msg :: _ =>
          match s.editor.handleMsg msg.received with
          | .ok (editor, out) =>
              some { net with sites := net.sites.set i { s with editor, up := s.up ++ out, got := s.got + 1 } }
          | .error _ => none

/-- The states that `net₀` comes to by acts that meet `ok`. -/
inductive Runs (ok : Net R → Act → Prop) (net₀ : Net R) : Net R → Prop where
  | init : Runs ok net₀ net₀
  | step {net net' : Net R} {act : Act} : Runs ok net₀ net → ok net act → net.step act = some net' → Runs ok net₀ net'

theorem Runs.mono {ok ok' : Net R → Act → Prop} {net₀ net : Net R} (hok : ∀ net act, ok net act → ok' net act)
    (h : Runs ok net₀ net) : Runs ok' net₀ net := by
  induction h with
  | init => exact .init
  | step _ hact hstep ih => exact .step ih (hok _ _ hact) hstep

end Net

variable [Rope R]

/-! ## What is under way -/

/-- The call that whoever receives the message makes. -/
def Message.call (msg : Message) : Option Op :=
  match MsgType.ofCode msg.type with
  | some .insert => (firstChar msg.payload).toOption.map (.insert msg.userId)
  | some .insertLine => some (.insertLine msg.userId)
  | some .delete => some (.del msg.userId)
  | some .moveCursor => (readDir msg.payload).toOption.map (.move msg.userId)
  | _ => none

/-- Whoever receives the message is asked for the call `op`. -/
def Message.Carries (msg : Message) (op : Op) : Prop := msg.received = msg ∧ msg.Asks op

/-- The message of a user who typed a byte that begins no character: it comes without its payload. -/
structure Message.Dead (msg : Message) (u : Int) : Prop where
  userId : msg.received.userId = u
  type : msg.received.type = MsgType.insert.code
  payload : msg.received.payload = none

theorem Message.Asks.call {msg : Message} {op : Op} (h : msg.Asks op) : msg.call = some op := by
  cases h with
  | insert ht hpl => simp only [Message.call, ht, MsgType.ofCode_code, firstChar, hpl]; rfl
  | insertLine ht => simp only [Message.call, ht, MsgType.ofCode_code]
  | del ht => simp only [Message.call, ht, MsgType.ofCode_code]
  | move ht hdir => simp only [Message.call, ht, MsgType.ofCode_code, hdir]; rfl

/-- The messages carry these calls. -/
abbrev Calls : List Message → List Op → Prop := List.Forall₂ Message.Carries

theorem Calls.filterMap {msgs : List Message} {ops : List Op} (h : Calls msgs ops) : msgs.filterMap Message.call = ops := by
  induction h with
  | nil => rfl
  | cons hcarries _ ih => rw [List.filterMap_cons, hcarries.2.call, ih]

theorem Key.op_under {key : Key} {u : Int} {op own : Op} (hop : key.op u = some op) (hown : key.op ownCursId = some own) :
    op.EditsAt u ∧ op.under (clientId u) = own := by
  cases key with
  | esc => cases hop
  | left | right | up | down | backspace | newline | char =>
      obtain rfl := Option.some.inj hop
      obtain rfl := Option.some.inj hown
      exact ⟨rfl, by simp only [Op.under, clientId_self]⟩

theorem Key.op_typesAscii {key : Key} {u : Int} {op : Op} (hop : key.op u = some op) (hkey : key.Ascii) : op.TypesAscii := by
  cases key with
  | esc => cases hop
  | char c =>
      obtain rfl := Option.some.inj hop
      exact hkey
  | left | right | up | down | backspace | newline =>
      obtain rfl := Option.some.inj hop
      trivial

namespace World

variable {w w' : World R} {fd : Conn} {msg : Message}

omit [Rope R] in
/-- What the worker sends on. -/
theorem inbox_sendMsgEveryone (w : World R) (hnodup : w.proc.pollList.reduceOption.Nodup) (fd c : Conn) (msg : Message)
    (hc : c ∈ w.proc.pollList.reduceOption) :
    (w.sendMsgEveryone fd msg).inbox c = w.inbox c ++ if c = fd then [] else [msg] := by
  have hmap : (((w.others fd).map fun x => (x, Send.sendMsgWithoutDelete msg)).filter (·.1 = c)).map (fun x => x.2.msg) =
      ((w.others fd).filter (· = c)).map fun _ => msg := by
    rw [List.filter_map, List.map_map]
    rfl
  have hone : (w.others fd).filter (· = c) = if c = fd then [] else [c] := by
    rw [others, List.filter_filter]
    split
    · next he =>
        refine List.filter_eq_nil_iff.mpr fun x _ => ?_
        simp [he]
    · next hne =>
        have hfilter : (w.proc.pollList.reduceOption.filter fun x => decide (x = c) && decide (x ≠ fd)) =
            w.proc.pollList.reduceOption.filter (· = c) := by
          refine List.filter_congr fun x _ => ?_
          by_cases hx : x = c
          · simp [hx, hne]
          · simp [hx]
        rw [hfilter, List.filter_eq, List.count_eq_one_of_mem hnodup hc]
        rfl
  simp only [inbox, sendMsgEveryone, List.filter_append, List.map_append, hmap, hone]
  split <;> rfl

/-- A worker makes the call that a message of a user carries, and sends the message on. -/
theorem handleMsg_edit {a : Answers} {op : Op} (hmode : w.proc.mode = .worker)
    (hflag : w.proc.loggedIn a.outside msg.userId = true) (hasks : msg.Asks op) (h : w.handleMsg a fd msg = .ok w') :
    ∃ b b' res, w.proc.buf = some b ∧ op.run b = .ok (b', res) ∧
      w' = ((w.readsClient msg.userId).setBuf b').sendMsgEveryone fd msg := by
  cases handleMsg_worker_does hmode hflag h with
  | login ht => exact absurd ht (hasks.type_ne (by decide))
  | join ht => exact absurd ht (hasks.type_ne (by decide))
  | leave ht => exact absurd ht (hasks.type_ne (by decide))
  | edit hasks' hb hrun =>
      obtain rfl := hasks.inj hasks'
      exact ⟨_, _, _, hb, hrun, rfl⟩
  | ignore hts =>
      cases hasks with
      | insert ht => exact absurd ht (hts .insert (by simp))
      | insertLine ht => exact absurd ht (hts .insertLine (by simp))
      | del ht => exact absurd ht (hts .delete (by simp))
      | move ht => exact absurd ht (hts .moveCursor (by simp))

/-- The message of a byte that begins no character is not handled. -/
theorem handleMsg_dead {a : Answers} {u : Int} (hmode : w.proc.mode = .worker) (hflag : w.proc.loggedIn a.outside u = true)
    (hdead : msg.Dead u) : w.handleMsg a fd msg.received ≠ .ok w' := by
  intro h
  obtain ⟨huser, ht, hpl⟩ := hdead
  rw [← huser] at hflag
  cases handleMsg_worker_does hmode hflag h with
  | login ht' => cases Message.type_unique ht ht'
  | join ht' => cases Message.type_unique ht ht'
  | leave ht' => cases Message.type_unique ht ht'
  | edit hasks =>
      cases hasks with
      | insert _ hpl' => cases hpl.symm.trans hpl'
      | insertLine ht' => cases Message.type_unique ht ht'
      | del ht' => cases Message.type_unique ht ht'
      | move ht' => cases Message.type_unique ht ht'
  | ignore hts => exact hts .insert (by simp) ht

end World

/-! ## The start -/

/-- The buffer `C` of client `u` shows what the buffer `S` of the worker shows. -/
structure InSync (u : Int) (S C : Buffer R) : Prop where
  reached : Reached (fun b op => op.KeepsRange b) C
  client : C.serverMode = false
  sheet : C.sheet (clientId u) = S.sheet id

/-- A worker with the buffer `S` and its clients, at rest. -/
structure Net.Start (net : Net R) (S : Buffer R) : Prop where
  mode : net.world.proc.mode = .worker
  buf : net.world.proc.buf = some S
  reached : Reached (fun b op => op.KeepsRange b) S
  polls : net.world.proc.pollList.reduceOption.Nodup
  fds : (net.sites.map Site.fd).Nodup
  users : (net.sites.map fun s => s.editor.userId).Nodup
  polled : ∀ s ∈ net.sites, s.fd ∈ net.world.proc.pollList.reduceOption
  loggedIn : ∀ s ∈ net.sites, ∀ outside, net.world.proc.loggedIn outside s.editor.userId = true
  user : ∀ s ∈ net.sites, s.editor.userId ≠ 0
  quiet : ∀ s ∈ net.sites, s.up = [] ∧ s.got = (net.world.inbox s.fd).length
  inSync : ∀ s ∈ net.sites, ∃ C, s.editor.b = some C ∧ InSync s.editor.userId S C

/-! ## What crosses -/

/-- Every call is made beside calls it may cross: a key beside the calls on their way to its client, and a call at the
    worker beside those on their way from the other clients. No `NUL` is typed. -/
def Act.Crosses (ok : Op → Sheet → List Op → Prop) (net : Net R) : Act → Prop
  | .press i key => key ≠ .char 0 ∧ ∀ s ∈ net.sites[i]?, ∀ C ∈ s.editor.b, ∀ op ∈ key.op s.editor.userId,
      ok op (C.sheet (clientId s.editor.userId)) ((s.down net.world).filterMap Message.call)
  | .handle i _ => ∀ s ∈ net.sites[i]?, ∀ op ∈ s.up.head?.bind Message.call, ∀ S ∈ net.world.proc.buf,
      ∀ t ∈ net.sites.eraseIdx i, ok op (S.sheet id) (t.up.filterMap Message.call)
  | .deliver _ => True

/-- Calls cross only where it does not matter which of them comes first. -/
def Act.Commutes (net : Net R) (act : Act) : Prop := act.Crosses (CoEditor.Commutes Sheet.apply) net

/-- Calls cross only where they have to do with different lines, or move cursors. -/
def Act.Apart (net : Net R) (act : Act) : Prop := act.Crosses Op.ApartFrom net

theorem Act.Apart.commutes {net : Net R} {act : Act} (h : act.Apart net) : act.Commutes net := by
  cases act with
  | press i key => exact ⟨h.1, fun s hs C hC op hop => (h.2 s hs C hC op hop).commutes⟩
  | handle i a => exact fun s hs op hop S hS t ht => (h s hs op hop S hS t ht).commutes
  | deliver i => trivial

end CoEditor
