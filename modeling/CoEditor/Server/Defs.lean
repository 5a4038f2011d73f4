-- SUMMARY: The server and its workers: connections, sessions, and the handling of messages.
import CoEditor.Msg.Framing
import CoEditor.Registry.Files
import CoEditor.Registry.Users
import CoEditor.Session.Reach

/-!
# Server processes

`server.c`. The main server and its workers run the same program, told apart
by `mode`. A process has a table of connections, a flag for each user id that
says whether the user is logged in, a table of workers and, in a worker, the
buffer. Handling a message reads and writes these and puts messages on
connections.
-/

namespace CoEditor

open Decimal

variable {R : Type}

abbrev maxClients : Nat := 5
abbrev maxWorkers : Nat := 5

/-- `HEIGHT` and `WIDTH` of the buffers of workers. -/
abbrev workerHeight : Int := 20
abbrev workerWidth : Int := 20

/-- A connection. Descriptors are used again when connections are closed, the number of a connection is
    not. -/
abbrev Conn := Nat

inductive Mode where
  | server | worker
deriving DecidableEq, Repr

structure Proc (R : Type) where
  mode : Mode
  hport : Int
  /-- Slots `1` to `MAX_CLIENTS` of `poll_list`; `none` for `-1`. -/
  pollList : List (Option Conn)
  clients : List Bool
  /-- Port and process id. -/
  workers : List (Int × Int)
  /-- `none` for `NULL`. -/
  buf : Option (Buffer R)
  /-- Not in the source: `clients` has been read outside its bounds. -/
  wildRead : Bool

/-- A worker that was forked. -/
structure Child (R : Type) where
  pid : Int
  port : Int
  /-- The file its buffer was loaded from. -/
  name : Option Bytes
  proc : Proc R

/-- A process and what is around it. -/
structure World (R : Type) where
  proc : Proc R
  disk : Disk
  /-- All connections accepted so far. -/
  accepted : List Conn
  closed : List Conn
  /-- All messages put on connections so far. -/
  sent : List (Conn × Send)
  /-- The workers that have been forked and have not ended. -/
  children : List (Child R)

/-- What the system answers while a message is handled. -/
structure Answers where
  /-- The flag found at an index outside `clients`. -/
  outside : Int → Bool
  /-- The memory that is allocated for the list of documents. -/
  mem : Bytes
  fails : SysCall → Bool
  /-- What the strings that `validate_register` has freed read as. -/
  freed : Freed
  /-- The answers of `port_free`, in order. -/
  portFree : List Bool
  /-- The result of `fork` in the parent. -/
  pid : Int

/-! ## Tables -/

def arrayGet {α : Type} (l : List α) (i : Int) : Except Fault α :=
  match if 0 ≤ i then l[i.toNat]? else none with
  | some a => pure a
  | none => .error .outOfBounds

def arraySet {α : Type} (l : List α) (i : Int) (a : α) : Except Fault (List α) :=
  if 0 ≤ i ∧ i.toNat < l.length then pure (l.set i.toNat a) else .error .outOfBounds

namespace Proc

/-- Is the index inside `clients`? -/
def InTable (p : Proc R) (userId : Int) : Prop := 0 ≤ userId ∧ userId.toNat < p.clients.length

instance (p : Proc R) (userId : Int) : Decidable (p.InTable userId) := inferInstanceAs (Decidable (_ ∧ _))

/-- Return user logged in or not. -/
def loggedIn (p : Proc R) (outside : Int → Bool) (userId : Int) : Bool :=
  if p.InTable userId then p.clients[userId.toNat]?.getD false else outside userId

/-- `clients[user_id] = flag` -/
def setClient (p : Proc R) (userId : Int) (flag : Bool) : Except Fault (Proc R) := do
  let clients ← arraySet p.clients userId flag
  pure { p with clients }

end Proc

/-! ## Sending -/

namespace World

/-- `send_msg` -/
def sendMsg (w : World R) (socket : Conn) (msg : Message) : World R :=
  { w with sent := w.sent ++ [(socket, .sendMsg msg)] }

/-- The connections in the poll list other than the sender's. -/
def others (w : World R) (senderSocket : Conn) : List Conn :=
  w.proc.pollList.reduceOption.filter (· ≠ senderSocket)

/-- Send a message to every client except the sender. -/
def sendMsgEveryone (w : World R) (senderSocket : Conn) (msg : Message) : World R :=
  { w with sent := w.sent ++ (w.others senderSocket).map fun fd => (fd, .sendMsgWithoutDelete msg) }

/-- Delete a socket from the poll list and close it. -/
def closeSocket (w : World R) (socket : Conn) : World R :=
  { w with
    proc := { w.proc with pollList := w.proc.pollList.set (w.proc.pollList.idxOf (some socket)) none }
    closed := socket :: w.closed }

@[simp] theorem sendMsg_proc (w : World R) (fd : Conn) (msg : Message) : (w.sendMsg fd msg).proc = w.proc := rfl

@[simp] theorem sendMsgEveryone_proc (w : World R) (fd : Conn) (msg : Message) :
    (w.sendMsgEveryone fd msg).proc = w.proc := rfl

@[simp] theorem closeSocket_clients (w : World R) (fd : Conn) : (w.closeSocket fd).proc.clients = w.proc.clients := rfl

end World

/-! ## Workers -/

variable [Rope R]

/-- `while( !port_free(hport) ) hport++;` and the answers that are left. -/
def nextFree : List Bool → Int → Except Fault (Int × List Bool)
  | [], _ => .error .endless
  | free :: answers, hport => if free then pure (hport, answers) else nextFree answers (hport + 1)

/-- What `buffer_from_file` returns; `NULL` if there is no such file. -/
def loadBuffer (d : Disk) (name : Option Bytes) (fileId : Int) : Except Fault (Option (Buffer R)) :=
  match name.bind d.get with
  | none => pure none
  | some fp => some <$> bufferFromFile fp.content fileId workerHeight workerWidth false

/-- The child that `get_worker` forks, up to its main loop: everyone is logged out, and the buffer is
    loaded. -/
def startWorker (d : Disk) (p : Proc R) (fileId port pid : Int) : Except Fault (Child R) := do
  let name ← getFileName d fileId
  let buf ← loadBuffer d name fileId
  pure {
    pid, port, name
    proc := { p with
      mode := .worker
      pollList := List.replicate maxClients none
      clients := List.replicate (maxClients + 1) false
      buf } }

/-- The port of the worker of a file, which is forked if there is none. A child that faults while it
    starts is gone. -/
def getWorker (a : Answers) (w : World R) (fileId : Int) : Except Fault (World R × Int) := do
  let entry ← arrayGet w.proc.workers fileId
  if entry.1 ≠ 0 then pure (w, entry.1)
  else do
    let (lp, answers) ← nextFree a.portFree w.proc.hport
    let (pp, _) ← nextFree answers (lp + 1)
    let workers ← arraySet w.proc.workers fileId (pp, a.pid)
    let p := { w.proc with hport := pp + 1 }
    let children := if 0 < a.pid then
        match startWorker w.disk p fileId pp a.pid with
        | .ok child => child :: w.children
        | .error _ => w.children
      else w.children
    pure ({ w with proc := { p with workers }, children }, pp)

/-! ## Handling messages -/

/-- The first character of a payload. -/
def firstChar (payload : Option Bytes) : Except Fault UInt8 := do
  let s ← derefStr payload
  pure (s.headD 0)

/-- The direction in a payload; it stays unset if the payload names none. -/
def readDir (payload : Option Bytes) : Except Fault CmoveDir := do
  let c ← firstChar payload
  if c = ch '0' then pure .up
  else if c = ch '1' then pure .down
  else if c = ch '2' then pure .left
  else if c = ch '3' then pure .right
  else .error .unset

namespace World

def setBuf (w : World R) (b : Buffer R) : World R := { w with proc := { w.proc with buf := some b } }

/-- Make a call on the buffer. -/
def onBuf (w : World R) (op : Op) : Except Fault (World R) :=
  match w.proc.buf with
  | none => .error .nullDeref
  | some b => do
      let (b, _) ← op.run b
      pure (w.setBuf b)

/-- Handle sign in. What the main server prints of a failed one, by a `printf` that lacks an argument, is left out. -/
def login (a : Answers) (w : World R) (socket : Conn) (msg : Message) : Except Fault (World R) := do
  let userId ← validateUser w.disk msg.payload
  if 0 ≤ userId then do
    let proc ← w.proc.setClient userId true
    let list ← getFileList w.disk a.mem
    pure ({ w with proc }.sendMsg socket (createMsg .msgOk userId (-1) (-1) (some list)))
  else pure (w.sendMsg socket (createMsg .msgFailed (-1) (-1) (-1) none))

/-- Answer a request of the main server with the list of documents, or with `MSG_FAILED`. -/
def answer (a : Answers) (w : World R) (socket : Conn) (ok : Prop) [Decidable ok] (userId : Int) :
    Except Fault (World R) :=
  if ok then do
    let list ← getFileList w.disk a.mem
    pure (w.sendMsg socket (createMsg .msgOk userId (-1) (-1) (some list)))
  else pure (w.sendMsg socket (createMsg .msgFailed (-1) (-1) (-1) none))

/-- `handle_msg` in `SERVER_MODE`. -/
def handleServer (a : Answers) (w : World R) (socket : Conn) (msg : Message) : Except Fault (World R) :=
  match MsgType.ofCode msg.type with
  | some .login => w.login a socket msg
  | some .register => do
      let (disk, userId) ← validateRegister a.freed w.disk msg.payload
      { w with disk }.answer a socket (0 ≤ userId) userId
  | some .fileRequest => do
      let (w, port) ← getWorker a w msg.fileId
      pure (w.sendMsg socket (createMsg .fileResponse (-1) msg.fileId msg.fileVersion (some (ch 'M' :: digits port))))
  | some .createFile => do
      let (disk, fileId) ← createFile a.fails w.disk msg.payload
      { w with disk }.answer a socket (0 < fileId) msg.userId
  | some .deleteFile => do
      let (disk, err) ← deleteFile a.fails w.disk msg.fileId
      { w with disk }.answer a socket (err = 0) msg.userId
  | some .quit => do
      let proc ← w.proc.setClient msg.userId false
      pure ({ w with proc }.closeSocket socket)
  | _ => pure w

/-- `handle_msg` in `WORKER_MODE`. -/
def handleWorker (a : Answers) (w : World R) (socket : Conn) (msg : Message) : Except Fault (World R) :=
  match MsgType.ofCode msg.type with
  | some .login => w.login a socket msg
  | some .fileRequest =>
      match w.proc.buf with
      | none => .error .nullDeref
      | some b => do
          let payload ← bufferSerialize b
          let w := w.sendMsg socket (createMsg .fileResponse msg.userId msg.fileId msg.fileVersion (some payload))
          let w ← w.onBuf (.copyOwn msg.userId)
          pure (w.sendMsgEveryone socket (createMsg .addCursor msg.userId msg.fileId msg.fileVersion none))
  | some .quit => do
      let w ← w.onBuf (.free msg.userId)
      let w := w.sendMsgEveryone socket (createMsg .deleteCursor msg.userId msg.fileId msg.fileVersion none)
      pure (w.closeSocket socket)
  | some .insert => do
      let c ← firstChar msg.payload
      let w ← w.onBuf (.insert msg.userId c)
      pure (w.sendMsgEveryone socket msg)
  | some .insertLine => do
      let w ← w.onBuf (.insertLine msg.userId)
      pure (w.sendMsgEveryone socket msg)
  | some .delete => do
      let w ← w.onBuf (.del msg.userId)
      pure (w.sendMsgEveryone socket msg)
  | some .moveCursor => do
      let dir ← readDir msg.payload
      let w ← w.onBuf (.move msg.userId dir)
      pure (w.sendMsgEveryone socket msg)
  | _ => pure w

/-- Everyone may sign in or sign up. -/
def NeedsLogin (msg : Message) : Prop := msg.type ≠ MsgType.login.code ∧ msg.type ≠ MsgType.register.code

instance (msg : Message) : Decidable (NeedsLogin msg) := inferInstanceAs (Decidable (_ ∧ _))

/-- Note that `clients` is read at index `userId`. -/
def readsClient (w : World R) (userId : Int) : World R :=
  { w with proc := { w.proc with wildRead := w.proc.wildRead || !decide (w.proc.InTable userId) } }

/-- Handle incoming communication. -/
def handleMsg (a : Answers) (w : World R) (socket : Conn) (msg : Message) : Except Fault (World R) :=
  let w := w.readsClient msg.userId
  -- check if user is logged in
  if w.proc.loggedIn a.outside msg.userId = false ∧ NeedsLogin msg then pure (w.closeSocket socket)
  else match w.proc.mode with
    | .server => w.handleServer a socket msg
    | .worker => w.handleWorker a socket msg

end World

/-- What can happen to a process: the rounds of the loop in `server_listen`, split into their steps. -/
inductive Event where
  /-- A new connection. -/
  | accept (fd : Conn)
  /-- An error or a hang-up on the connection in slot `i`. -/
  | hangup (i : Nat)
  /-- A message from the connection in slot `i`. -/
  | message (i : Nat) (msg : Message) (a : Answers)
  /-- `recv` on the connection in slot `i` reports its end or an error. -/
  | eof (i : Nat)
  /-- Another process has changed files. -/
  | files (d : Disk)
  /-- A worker has ended, by a fault or a signal. -/
  | gone (pid : Int)

namespace World

/-- The connection in a slot. -/
def connAt (w : World R) (i : Nat) : Option Conn := w.proc.pollList[i]?.join

/-- Put a new connection into the first free slot, if there is one. -/
def accept (w : World R) (fd : Conn) : World R :=
  { w with
    proc := { w.proc with pollList := w.proc.pollList.set (w.proc.pollList.idxOf none) (some fd) }
    accepted := fd :: w.accepted }

/-- Close the connection in slot `i`. -/
def hangup (w : World R) (i : Nat) (fd : Conn) : World R :=
  { w with
    proc := { w.proc with pollList := w.proc.pollList.set i none }
    closed := fd :: w.closed }

/-- The next state; events on slots without a connection do not happen. -/
def step (w : World R) : Event → Except Fault (World R)
  | .accept fd => pure (w.accept fd)
  | .hangup i =>
      match w.connAt i with
      | none => pure w
      | some fd => pure (w.hangup i fd)
  | .message i msg a =>
      match w.connAt i with
      | none => pure w
      | some fd => w.handleMsg a fd msg
  | .eof _ => pure w
  | .files disk => pure { w with disk }
  | .gone pid => pure { w with children := w.children.filter (·.pid ≠ pid) }

end World

end CoEditor
