-- SUMMARY: Which texts a process handles without passing a NULL string on, leaving a table, or guessing a direction.
import CoEditor.Registry.Strings
import CoEditor.Server.Faults

/-!
# Malformed messages

A message takes its numbers and its payload from a JSON text that anyone can
send. They are used as indices, as strings and as a direction, mostly without a
check. What a text must be like so that this goes well depends on the type of
the message, on the mode of the process, and on the registries.
-/

namespace CoEditor

variable {R : Type}

/-! ## Decoding -/

/-- The payload is a string, or there is none. -/
def PayloadIsString (o : JsonObject) : Prop :=
  (jsonObjectGetValue o (bytes "payload")).isSome → (jsonObjectGetString o (bytes "payload")).isSome

/-- The message with the members of an object. -/
def objectMsg (o : JsonObject) : Message where
  type := jsonObjectGetNumber o (bytes "type")
  userId := jsonObjectGetNumber o (bytes "user_id")
  fileId := jsonObjectGetNumber o (bytes "file_id")
  fileVersion := jsonObjectGetNumber o (bytes "file_version")
  payload := jsonObjectGetString o (bytes "payload")

theorem readMsg_string {o : JsonObject} (h : PayloadIsString o) : readMsg o = .ok (objectMsg o) := by
  have hpl : readPayload o = .ok (jsonObjectGetString o (bytes "payload")) := by
    unfold readPayload
    split
    · next hsome =>
        obtain ⟨pl, hpl⟩ := Option.isSome_iff_exists.mp (h hsome)
        rw [hpl]
        rfl
    · next hnone =>
        rw [jsonObjectGetString, Option.not_isSome_iff_eq_none.mp hnone]
        rfl
  rw [readMsg, hpl]
  rfl

theorem readMsg_null {o : JsonObject} (h : ¬ PayloadIsString o) : readMsg o = .error .nullStr := by
  obtain ⟨hsome, hnone⟩ := Classical.not_imp.mp h
  rw [readMsg, readPayload, if_pos hsome, Option.not_isSome_iff_eq_none.mp hnone]
  rfl

/-- `print_msg` hands the payload to `printf`. -/
def printMsg (msg : Message) : Except Fault Unit := do
  let _ ← derefStr msg.payload
  pure ()

/-! ## The calls of a handler -/

theorem arrayGet_pointers {α : Type} (l : List α) (i : Int) : Pointers (arrayGet l i) ↔ 0 ≤ i ∧ i.toNat < l.length := by
  unfold arrayGet
  by_cases h0 : 0 ≤ i
  · by_cases hlt : i.toNat < l.length
    · simp [h0, hlt]
    · simp [h0, hlt, PointerFault]
  · simp [h0, PointerFault]

theorem arraySet_pointers {α : Type} (l : List α) (i : Int) (x : α) :
    Pointers (arraySet l i x) ↔ 0 ≤ i ∧ i.toNat < l.length := by
  unfold arraySet
  split
  · next h => exact iff_of_true (.ok _) h
  · next h => exact iff_of_false (fun hp => absurd (FaultsIn.error_iff.mp hp) (by decide)) h

theorem Proc.setClient_pointers (p : Proc R) (userId : Int) (flag : Bool) :
    Pointers (p.setClient userId flag) ↔ p.InTable userId := by
  unfold setClient
  rw [pointers_bind, arraySet_pointers]
  simp [InTable]

namespace World

variable {a : Answers} {w w' : World R} {fd : Conn} {msg : Message}

theorem login_pointers (hlen : w.proc.clients.length = maxClients + 1) :
    Pointers (w.login a fd msg) ↔ AccountsRead w.disk msg.payload ∧ AccountWithin maxClients w.disk msg.payload := by
  unfold login
  rw [pointers_bind, validateUser_pointers]
  refine and_congr_right fun hreads => ?_
  rw [← validateUser_le_iff hreads]
  refine forall_congr' fun u => imp_congr_right fun _ => ?_
  split
  · next h0 =>
      rw [pointers_bind, Proc.setClient_pointers, Proc.InTable, hlen]
      constructor
      · rintro ⟨hin, -⟩
        omega
      · exact fun hle => ⟨by omega, fun proc _ => (getFileList_pointers _ _).bind fun _ => .ok _⟩
  · next h0 => exact iff_of_true (.ok _) (by omega)

theorem answer_pointers (ok : Prop) [Decidable ok] (userId : Int) : Pointers (w.answer a fd ok userId) := by
  unfold answer
  split
  · exact (getFileList_pointers _ _).bind fun _ => .ok _
  · exact .ok _

end World

theorem nextFree_pointers : ∀ (answers : List Bool) (hport : Int), Pointers (nextFree answers hport) := by
  intro answers
  induction answers with
  | nil => exact fun _ => FaultsIn.error_iff.mpr (by decide)
  | cons free answers ih =>
      intro hport
      rw [nextFree]
      split
      · exact .ok _
      · exact ih _

theorem nextFree_ok : ∀ {answers : List Bool} {hport : Int} {r : Int × List Bool}, nextFree answers hport = .ok r →
    r.2.count true + 1 = answers.count true := by
  intro answers
  induction answers with
  | nil => exact fun h => nomatch h
  | cons free answers ih =>
      intro hport r h
      rw [nextFree] at h
      cases free with
      | true =>
          obtain rfl := Except.ok.inj h
          simp
      | false => simpa using ih h

/-- A port is found if one of the answers says so. -/
theorem nextFree_returns : ∀ {answers : List Bool} (hport : Int), 1 ≤ answers.count true →
    ∃ r, nextFree answers hport = .ok r := by
  intro answers
  induction answers with
  | nil => exact fun _ h => absurd h (by simp)
  | cons free answers ih =>
      intro hport h
      rw [nextFree]
      cases free with
      | true => exact ⟨_, rfl⟩
      | false => exact ih _ (by simpa using h)

/-- The search for two free ports comes to an end. -/
def PortsFound (answers : List Bool) (hport : Int) : Prop :=
  ∃ lp rest pp rest', nextFree answers hport = .ok (lp, rest) ∧ nextFree rest (lp + 1) = .ok (pp, rest')

theorem portsFound_iff {answers : List Bool} {hport : Int} : PortsFound answers hport ↔ 2 ≤ answers.count true := by
  constructor
  · rintro ⟨lp, rest, pp, rest', hlp, hpp⟩
    have hfirst := nextFree_ok hlp
    have hsecond := nextFree_ok hpp
    dsimp only at hfirst hsecond
    omega
  · intro hcount
    obtain ⟨⟨lp, rest⟩, hlp⟩ := nextFree_returns hport (by omega : 1 ≤ answers.count true)
    have hfirst := nextFree_ok hlp
    obtain ⟨⟨pp, rest'⟩, hpp⟩ := nextFree_returns (lp + 1) (by dsimp only at hfirst; omega : 1 ≤ rest.count true)
    exact ⟨lp, rest, pp, rest', hlp, hpp⟩

variable [Rope R]

theorem getWorker_pointers {a : Answers} {w : World R} (hlen : w.proc.workers.length = maxWorkers + 1) (fileId : Int) :
    Pointers (getWorker a w fileId) ↔ 0 ≤ fileId ∧ fileId ≤ maxWorkers := by
  unfold getWorker
  rw [pointers_bind, arrayGet_pointers, hlen]
  constructor
  · rintro ⟨hin, -⟩
    omega
  · intro hin
    refine ⟨by omega, fun entry _ => ?_⟩
    split
    · exact .ok _
    · refine (nextFree_pointers _ _).bind fun r => ?_
      refine (nextFree_pointers _ _).bind fun r' => ?_
      refine FaultsIn.bind ((arraySet_pointers _ _ _).mpr (by rw [hlen]; omega)) fun _ => .ok _

theorem startWorker_pointers {d : Disk} {p : Proc R} {fileId port pid : Int} :
    Pointers (startWorker d p fileId port pid) ↔ Pointers (getFileName d fileId) := by
  unfold startWorker
  rw [pointers_bind, and_iff_left_iff_imp]
  intro _ name _
  have hload : Pointers (loadBuffer (R := R) d name fileId) := by
    unfold loadBuffer
    split
    · exact .ok _
    · exact (bufferFromFile_pointers _ _ _ _ _).map _
  exact hload.bind fun _ => .ok _

/-- A worker starts on a document that has a name if the list says so. -/
theorem startWorker_named {d : Disk} {p : Proc R} {fileId port pid : Int} :
    (Pointers (startWorker d p fileId port pid) ∧ ∀ child, startWorker d p fileId port pid = .ok child → child.name ≠ none) ↔
      NameReads d fileId ∧ Listed d fileId := by
  rw [startWorker_pointers, getFileName_pointers]
  refine and_congr_right fun hreads => ?_
  unfold startWorker
  cases hname : getFileName d fileId with
  | error e =>
      refine iff_of_true (by simp) fun fp hget hlock => ?_
      obtain ⟨name, hok, -⟩ := getFileName_returns hget hlock hreads
      rw [hname] at hok
      cases hok
  | ok name =>
      rw [← getFileName_listed hname, Except.ok_bind_eq]
      cases name with
      | none =>
          have hload : loadBuffer (R := R) d none fileId = .ok none := rfl
          simp [hload]
      | some name =>
          refine iff_of_true (fun child h => ?_) (by simp)
          obtain ⟨buf, -, h⟩ := Except.bind_eq_ok.mp h
          obtain rfl := Except.ok.inj h
          simp

/-! ## Harmless messages -/

/-- Handling the message makes `get_worker` fork. -/
def World.Forks (a : Answers) (w : World R) (msg : Message) : Prop :=
  w.proc.mode = .server ∧ w.Admits a msg ∧ msg.type = MsgType.fileRequest.code ∧ 0 < a.pid ∧
    (∃ pid, arrayGet w.proc.workers msg.fileId = .ok (0, pid)) ∧ PortsFound a.portFree w.proc.hport

/-- The world in which no call has passed `NULL` for the name of a file yet. -/
def World.unmarked (w : World R) : World R := { w with disk := { w.disk with nullPassed := false } }

/-- Handling the message passes no `NULL` string on, stays inside the tables, and follows only directions that the
    payload names. -/
structure World.Harmless (a : Answers) (w : World R) (fd : Conn) (msg : Message) : Prop where
  /-- No fault at a string or an index. -/
  calls : Pointers (w.handleMsg a fd msg)
  /-- `logged_in` reads `clients` at the id of the user. -/
  clients : w.proc.InTable msg.userId
  /-- No file name is `NULL`. -/
  fileName : ∀ w', w.unmarked.handleMsg a fd msg = .ok w' → w'.disk.nullPassed = false
  /-- The child that is forked does well, too, until it listens. -/
  child : w.Forks a msg → ∀ (p : Proc R) (port : Int), Pointers (startWorker w.disk p msg.fileId port a.pid) ∧
    ∀ c, startWorker w.disk p msg.fileId port a.pid = .ok c → c.name ≠ none
  direction : w.proc.mode = .worker → w.Admits a msg → msg.type = MsgType.moveCursor.code →
    readDir msg.payload ≠ .error .unset

/-- What an admitted message needs of its payload, its numbers and the registries. -/
def Message.Safe (a : Answers) (w : World R) (msg : Message) : Prop :=
  match w.proc.mode, MsgType.ofCode msg.type with
  | _, some .login => AccountsRead w.disk msg.payload ∧ AccountWithin maxClients w.disk msg.payload
  | .server, some .register => RegistrationReads a.freed w.disk msg.payload
  | .server, some .fileRequest => (0 ≤ msg.fileId ∧ msg.fileId ≤ maxWorkers) ∧
      ((∃ pid, arrayGet w.proc.workers msg.fileId = .ok (0, pid)) → 0 < a.pid → 2 ≤ a.portFree.count true →
        NameReads w.disk msg.fileId ∧ Listed w.disk msg.fileId)
  | .server, some .createFile => CreationReads a.fails w.disk msg.payload
  | .server, some .deleteFile => DeletionReads a.fails w.disk msg.fileId ∧
      ((∃ temp, Rewrites a.fails w.disk temp) → Listed w.disk msg.fileId)
  | .worker, some .insert => msg.payload ≠ none
  | .worker, some .moveCursor => NamesDir msg.payload
  | _, _ => True

theorem readDir_error {payload : Option Bytes} {e : Fault} (h : readDir payload = .error e) : e = .nullStr ∨ e = .unset := by
  rcases readDir_cases payload with ⟨-, hrun⟩ | ⟨-, dir, hrun⟩ | ⟨-, -, hrun⟩
  · exact .inl (Except.error.inj (h.symm.trans hrun))
  · cases h.symm.trans hrun
  · exact .inr (Except.error.inj (h.symm.trans hrun))

namespace World

variable {a : Answers} {w w' : World R} {fd : Conn} {msg : Message}

theorem handleMsg_refused (h : ¬ w.Admits a msg) :
    w.handleMsg a fd msg = .ok ((w.readsClient msg.userId).closeSocket fd) := by
  obtain ⟨hflag, hneeds⟩ := not_or.mp h
  exact if_pos ⟨(Bool.not_eq_true _).mp hflag, not_not.mp hneeds⟩

/-- Only `deleteFile` passes a name on that may be `NULL`. -/
theorem handleServer_nullPassed (h : w.handleServer a fd msg = .ok w') (hd : w.disk.nullPassed = false)
    (hdelete : ∀ d err, deleteFile a.fails w.disk msg.fileId = .ok (d, err) → msg.type = MsgType.deleteFile.code →
      d.nullPassed = false) : w'.disk.nullPassed = false := by
  cases handleServer_does h with
  | login _ h =>
      obtain ⟨u, -, ⟨-, list, proc, -, rfl⟩ | ⟨-, rfl⟩⟩ := login_cases h
      · exact hd
      · exact hd
  | register _ hrun h =>
      obtain ⟨m, rfl⟩ := answer_sends h
      exact (validateRegister_nullPassed hrun).trans hd
  | fileRequest _ hrun =>
      obtain ⟨-, -, -, rfl⟩ | ⟨-, -, -, -, -, -, -, -, -, rfl⟩ := getWorker_cases hrun
      · exact hd
      · exact hd
  | createFile _ hrun h =>
      obtain ⟨m, rfl⟩ := answer_sends h
      exact (createFile_nullPassed hrun).trans hd
  | deleteFile ht hrun h =>
      obtain ⟨m, rfl⟩ := answer_sends h
      exact hdelete _ _ hrun ht
  | quit => exact hd
  | ignore => exact hd

theorem handleWorker_nullPassed (h : w.handleWorker a fd msg = .ok w') (hd : w.disk.nullPassed = false) :
    w'.disk.nullPassed = false := by
  cases handleWorker_does h with
  | login _ h =>
      obtain ⟨u, -, ⟨-, list, proc, -, rfl⟩ | ⟨-, rfl⟩⟩ := login_cases h
      · exact hd
      · exact hd
  | join => exact hd
  | leave => exact hd
  | edit => exact hd
  | ignore => exact hd

theorem onBuf_pointers (w : World R) (op : Op) : Pointers (w.onBuf op) := by
  unfold onBuf
  split
  · exact FaultsIn.error_iff.mpr (by decide)
  · next b _ =>
      have hrun : Pointers (op.run b) := by
        cases op with
        | new id lid pos => exact bcursorNew_pointers b id lid pos
        | copyOwn id => exact bcursorCopyOwn_pointers b id
        | free id => exact bcursorFree_pointers b id
        | move id dir => exact bcursorMove_pointers b id dir
        | insert id chr => exact bcursorInsert_pointers b id chr
        | insertLine id => exact bcursorInsertLine_pointers b id
        | del id => exact bcursorDel_pointers b id
      exact hrun.bind fun _ => .ok _

theorem handleServer_harmless (hclients : w.proc.clients.length = maxClients + 1)
    (hworkers : w.proc.workers.length = maxWorkers + 1) (hmode : w.proc.mode = .server) (hadm : w.Admits a msg)
    (hin : w.proc.InTable msg.userId) :
    (Pointers (w.handleServer a fd msg) ∧ (∀ w', w.unmarked.handleServer a fd msg = .ok w' → w'.disk.nullPassed = false) ∧
      (w.Forks a msg → ∀ (p : Proc R) (port : Int), Pointers (startWorker w.disk p msg.fileId port a.pid) ∧
        ∀ c, startWorker w.disk p msg.fileId port a.pid = .ok c → c.name ≠ none)) ↔ msg.Safe a w := by
  have hkeep : msg.type ≠ MsgType.deleteFile.code → ∀ w', w.unmarked.handleServer a fd msg = .ok w' →
      w'.disk.nullPassed = false :=
    fun hne w' h => handleServer_nullPassed h rfl fun _ _ _ ht => absurd ht hne
  have hfork : msg.type ≠ MsgType.fileRequest.code → ¬ w.Forks a msg := fun hne h => hne h.2.2.1
  have hplain : msg.type ≠ MsgType.deleteFile.code → msg.type ≠ MsgType.fileRequest.code → ∀ {P : Prop},
      (Pointers (w.handleServer a fd msg) ↔ P) →
      ((Pointers (w.handleServer a fd msg) ∧
        (∀ w', w.unmarked.handleServer a fd msg = .ok w' → w'.disk.nullPassed = false) ∧
        (w.Forks a msg → ∀ (p : Proc R) (port : Int), Pointers (startWorker w.disk p msg.fileId port a.pid) ∧
          ∀ c, startWorker w.disk p msg.fileId port a.pid = .ok c → c.name ≠ none)) ↔ P) := by
    intro hdel hreq P hP
    rw [hP, and_iff_left ⟨hkeep hdel, fun h => absurd h (hfork hreq)⟩]
  unfold Message.Safe
  rw [hmode]
  cases ht : MsgType.ofCode msg.type with
  | none =>
      have hne : ∀ t : MsgType, msg.type ≠ t.code := by
        intro t h
        rw [MsgType.ofCode_eq_some.mpr h] at ht
        cases ht
      refine hplain (hne _) (hne _) ?_
      simp [handleServer, ht]
  | some t =>
      have hcode := MsgType.ofCode_eq_some.mp ht
      cases t with
      | login =>
          refine hplain (MsgType.ne_code hcode (by decide)) (MsgType.ne_code hcode (by decide)) ?_
          simp only [handleServer, ht]
          exact login_pointers hclients
      | register =>
          refine hplain (MsgType.ne_code hcode (by decide)) (MsgType.ne_code hcode (by decide)) ?_
          simp only [handleServer, ht]
          rw [pointers_bind, validateRegister_pointers, and_iff_left fun r _ => answer_pointers _ _]
      | createFile =>
          refine hplain (MsgType.ne_code hcode (by decide)) (MsgType.ne_code hcode (by decide)) ?_
          simp only [handleServer, ht]
          rw [pointers_bind, createFile_pointers, and_iff_left fun r _ => answer_pointers _ _]
      | quit =>
          refine hplain (MsgType.ne_code hcode (by decide)) (MsgType.ne_code hcode (by decide)) ?_
          simp only [handleServer, ht]
          rw [pointers_bind, Proc.setClient_pointers]
          exact iff_of_true ⟨hin, fun proc _ => .ok _⟩ trivial
      | fileRequest =>
          have hcalls : Pointers (w.handleServer a fd msg) ↔ 0 ≤ msg.fileId ∧ msg.fileId ≤ maxWorkers := by
            simp only [handleServer, ht]
            rw [pointers_bind, getWorker_pointers hworkers, and_iff_left fun r _ => .ok _]
          rw [hcalls, and_iff_right (hkeep (MsgType.ne_code hcode (by decide)))]
          refine and_congr_right fun hin => ?_
          simp only [startWorker_named]
          constructor
          · rintro h ⟨pid, hentry⟩ hpid hcount
            exact h ⟨hmode, hadm, hcode, hpid, ⟨pid, hentry⟩, portsFound_iff.mpr hcount⟩ w.proc 0
          · rintro h ⟨-, -, -, hpid, ⟨pid, hentry⟩, hports⟩
            exact fun _ _ => h ⟨pid, hentry⟩ hpid (portsFound_iff.mp hports)
      | deleteFile =>
          have hcalls : Pointers (w.handleServer a fd msg) ↔ DeletionReads a.fails w.disk msg.fileId := by
            simp only [handleServer, ht]
            rw [pointers_bind, deleteFile_pointers, and_iff_left fun r _ => answer_pointers _ _]
          rw [hcalls]
          refine and_congr_right fun hreads => ?_
          rw [and_iff_left fun h => absurd h (hfork (MsgType.ne_code hcode (by decide)))]
          have hnull := deleteFile_nullPassed rfl hreads.unmarked
          simp only [rewrites_unmarked] at hnull
          refine Iff.trans ?_ hnull
          constructor
          · intro h d err hrun
            by_cases herr : err = 0
            · exact deleteFile_zero rfl (herr ▸ hrun)
            · have hrun : deleteFile a.fails w.unmarked.disk msg.fileId = .ok (d, err) := hrun
              refine h ({ w.unmarked with disk := d }.sendMsg fd (createMsg .msgFailed (-1) (-1) (-1) none)) ?_
              simp only [handleServer, ht, hrun, Except.ok_bind_eq, answer, if_neg herr]
              rfl
          · exact fun h w' hrun => handleServer_nullPassed hrun rfl fun d err hd _ => h d err hd
      | _ =>
          refine hplain (MsgType.ne_code hcode (by decide)) (MsgType.ne_code hcode (by decide)) ?_
          simp [handleServer, ht]

theorem handleWorker_harmless (hclients : w.proc.clients.length = maxClients + 1) (hmode : w.proc.mode = .worker) :
    (Pointers (w.handleWorker a fd msg) ∧ (msg.type = MsgType.moveCursor.code → readDir msg.payload ≠ .error .unset)) ↔
      msg.Safe a w := by
  have hplain : msg.type ≠ MsgType.moveCursor.code → ∀ {P : Prop}, (Pointers (w.handleWorker a fd msg) ↔ P) →
      ((Pointers (w.handleWorker a fd msg) ∧
        (msg.type = MsgType.moveCursor.code → readDir msg.payload ≠ .error .unset)) ↔ P) := by
    intro hmove P hP
    rw [hP, and_iff_left fun h => absurd h hmove]
  have hcall : ∀ {op : Op} {f : World R → World R}, Pointers (do let w ← w.onBuf op; pure (f w)) :=
    (onBuf_pointers w _).bind fun _ => .ok _
  unfold Message.Safe
  rw [hmode]
  cases ht : MsgType.ofCode msg.type with
  | none =>
      refine hplain ?_ ?_
      · intro h
        rw [MsgType.ofCode_eq_some.mpr h] at ht
        cases ht
      · simp [handleWorker, ht]
  | some t =>
      have hcode := MsgType.ofCode_eq_some.mp ht
      cases t with
      | login =>
          refine hplain (MsgType.ne_code hcode (by decide)) ?_
          simp only [handleWorker, ht]
          exact login_pointers hclients
      | fileRequest =>
          refine hplain (MsgType.ne_code hcode (by decide)) (iff_of_true ?_ trivial)
          simp only [handleWorker, ht]
          split
          · exact FaultsIn.error_iff.mpr (by decide)
          · exact (bufferSerialize_pointers _).bind fun s => (onBuf_pointers _ _).bind fun _ => .ok _
      | quit =>
          refine hplain (MsgType.ne_code hcode (by decide)) (iff_of_true ?_ trivial)
          simp only [handleWorker, ht]
          exact hcall
      | insertLine =>
          refine hplain (MsgType.ne_code hcode (by decide)) (iff_of_true ?_ trivial)
          simp only [handleWorker, ht]
          exact hcall
      | delete =>
          refine hplain (MsgType.ne_code hcode (by decide)) (iff_of_true ?_ trivial)
          simp only [handleWorker, ht]
          exact hcall
      | insert =>
          refine hplain (MsgType.ne_code hcode (by decide)) ?_
          simp only [handleWorker, ht]
          cases hpl : msg.payload with
          | none => simp [firstChar, derefStr, PointerFault]
          | some s => exact iff_of_true hcall (by simp)
      | moveCursor =>
          rw [← readDir_returns_iff]
          simp only [handleWorker, hcode, forall_const]
          cases hdir : readDir msg.payload with
          | ok dir => simpa using hcall
          | error e =>
              refine iff_of_false ?_ (by simp)
              rintro ⟨hpointers, hset⟩
              rcases readDir_error hdir with rfl | rfl
              · exact absurd (FaultsIn.error_iff.mp hpointers) (by decide)
              · exact hset rfl
      | _ =>
          refine hplain (MsgType.ne_code hcode (by decide)) (iff_of_true ?_ trivial)
          simp [handleWorker, ht]

/-- A message of a user inside the table is harmless exactly if it is refused or has what it needs. -/
theorem harmless_iff (hclients : w.proc.clients.length = maxClients + 1)
    (hworkers : w.proc.mode = .server → w.proc.workers.length = maxWorkers + 1) :
    w.Harmless a fd msg ↔ (0 ≤ msg.userId ∧ msg.userId ≤ maxClients) ∧ (w.Admits a msg → msg.Safe a w) := by
  have htable : w.proc.InTable msg.userId ↔ 0 ≤ msg.userId ∧ msg.userId ≤ maxClients := by
    rw [Proc.InTable, hclients]
    omega
  rw [← htable]
  by_cases hin : w.proc.InTable msg.userId
  · rw [and_iff_right hin]
    by_cases hadm : w.Admits a msg
    · rw [imp_iff_right hadm]
      have hrun : w.handleMsg a fd msg = _ := handleMsg_admitted hadm
      have hunmarked : w.unmarked.handleMsg a fd msg = _ :=
        handleMsg_admitted (show w.unmarked.Admits a msg from hadm)
      cases hmode : w.proc.mode with
      | server =>
          have hrun : w.handleMsg a fd msg = (w.readsClient msg.userId).handleServer a fd msg := by rw [hrun, hmode]
          have hunmarked : w.unmarked.handleMsg a fd msg = (w.unmarked.readsClient msg.userId).handleServer a fd msg := by
            rw [hunmarked, show w.unmarked.proc.mode = .server from hmode]
          have hserver : _ ↔ msg.Safe a w :=
            @handleServer_harmless R _ a (w.readsClient msg.userId) fd msg hclients (hworkers hmode) hmode hadm hin
          rw [← hserver]
          constructor
          · exact fun h => ⟨hrun ▸ h.calls, fun w' hw' => h.fileName w' (hunmarked.trans hw'), h.child⟩
          · rintro ⟨hcalls, hname, hchild⟩
            exact ⟨hrun ▸ hcalls, hin, fun w' hw' => hname w' (hunmarked.symm.trans hw'), hchild,
              fun hm => absurd (hmode.symm.trans hm) (by decide)⟩
      | worker =>
          have hrun : w.handleMsg a fd msg = (w.readsClient msg.userId).handleWorker a fd msg := by rw [hrun, hmode]
          have hunmarked : w.unmarked.handleMsg a fd msg = (w.unmarked.readsClient msg.userId).handleWorker a fd msg := by
            rw [hunmarked, show w.unmarked.proc.mode = .worker from hmode]
          have hworker : _ ↔ msg.Safe a w :=
            @handleWorker_harmless R _ a (w.readsClient msg.userId) fd msg hclients hmode
          rw [← hworker]
          constructor
          · exact fun h => ⟨hrun ▸ h.calls, h.direction hmode hadm⟩
          · rintro ⟨hcalls, hdir⟩
            exact ⟨hrun ▸ hcalls, hin, fun w' hw' => handleWorker_nullPassed (hunmarked.symm.trans hw') rfl,
              fun hf => absurd (hmode.symm.trans hf.1) (by decide), fun _ _ => hdir⟩
    · refine iff_of_true ?_ fun h => absurd h hadm
      have hrun : w.handleMsg a fd msg = _ := handleMsg_refused hadm
      have hunmarked : w.unmarked.handleMsg a fd msg = _ :=
        handleMsg_refused (show ¬ w.unmarked.Admits a msg from hadm)
      refine ⟨hrun ▸ .ok _, hin, fun w' hw' => ?_, fun hf => absurd hf.2.1 hadm, fun _ h => absurd h hadm⟩
      obtain rfl := Except.ok.inj (hunmarked.symm.trans hw')
      rfl
  · exact iff_of_false (fun h => hin h.clients) fun h => hin h.1

theorem handleMsg_workers (h : w.handleMsg a fd msg = .ok w') : w'.proc.workers.length = w.proc.workers.length := by
  have hlogin : (w.readsClient msg.userId).login a fd msg = .ok w' → w'.proc.workers.length = w.proc.workers.length := by
    intro h
    obtain ⟨u, -, ⟨-, list, proc, hproc, rfl⟩ | ⟨-, rfl⟩⟩ := login_cases h
    · obtain ⟨-, rfl⟩ := Proc.setClient_ok hproc
      rfl
    · rfl
  obtain ⟨-, rfl⟩ | ⟨-, ⟨-, h⟩ | ⟨-, h⟩⟩ := handleMsg_cases h
  · rfl
  · cases handleServer_does h with
    | login _ h => exact hlogin h
    | register _ _ h =>
        obtain ⟨m, rfl⟩ := answer_sends h
        rfl
    | fileRequest _ hrun =>
        obtain ⟨-, -, -, rfl⟩ | ⟨_, _, _, _, _, -, -, -, hset, rfl⟩ := getWorker_cases hrun
        · rfl
        · obtain ⟨-, -, rfl⟩ := arraySet_ok hset
          exact List.length_set
    | createFile _ _ h =>
        obtain ⟨m, rfl⟩ := answer_sends h
        rfl
    | deleteFile _ _ h =>
        obtain ⟨m, rfl⟩ := answer_sends h
        rfl
    | quit _ hproc =>
        obtain ⟨-, rfl⟩ := Proc.setClient_ok hproc
        rfl
    | ignore => rfl
  · cases handleWorker_does h with
    | login _ h => exact hlogin h
    | join => rfl
    | leave => rfl
    | edit => rfl
    | ignore => rfl

end World

/-- The tables keep their sizes in every run. -/
theorem Run.tables {ok : World R → Event → Prop} {w₀ w : World R} {trace : List (Step R)}
    (h₀ : WorkerStart w₀ ∨ ServerStart w₀) (h : Run ok w₀ trace w) : w.proc.clients.length = maxClients + 1 ∧
      (w.proc.mode = .server → w.proc.workers.length = maxWorkers + 1) := by
  have hclients := h₀.elim WorkerStart.clients ServerStart.clients
  refine ⟨by rw [h.frame.2, hclients, List.length_replicate], fun hmode => ?_⟩
  have hworkers : w.proc.workers.length = w₀.proc.workers.length := by
    induction h with
    | init => rfl
    | step hrun _ _ hev ih =>
        rcases World.step_cases hev with ⟨i, msg, a, fd, -, -, h⟩ | ⟨-, hidle⟩
        · exact (World.handleMsg_workers h).trans (ih ((World.handleMsg_frame h).mode.symm.trans hmode))
        · exact (congrArg List.length hidle.workers).trans (ih (hidle.mode.symm.trans hmode))
  rcases h₀ with h₀ | h₀
  · exact absurd ((h.frame.1.trans h₀.mode).symm.trans hmode) (by decide)
  · rw [hworkers, h₀.workers, List.length_replicate]

/-! ## Texts -/

/-- Decoding and handling a text passes no `NULL` string on, stays inside the tables, and follows only directions that
    the payload names. -/
def World.HarmlessText (a : Answers) (w : World R) (fd : Conn) (text : Bytes) : Prop :=
  Pointers (deserializeText text) ∧ ∀ msg, deserializeText text = .ok msg → w.Harmless a fd msg

/-- The payload of a text is a string, the id of its user has a place in the table, and if the user is logged in or
    signs in or up, the message has what it needs. -/
def World.SafeText (a : Answers) (w : World R) (text : Bytes) : Prop :=
  let o := jsonValueGetObject (jsonParseDoubles text)
  PayloadIsString o ∧ (0 ≤ (objectMsg o).userId ∧ (objectMsg o).userId ≤ maxClients) ∧
    (w.Admits a (objectMsg o) → (objectMsg o).Safe a w)

/-- In every state that the main server or a worker reaches, exactly the safe texts are harmless. That `print_msg` gets
    no `NULL` either takes a payload. -/
theorem safe_texts_harmless {w₀ w : World R} {trace : List (Step R)} (h₀ : WorkerStart w₀ ∨ ServerStart w₀)
    (h : AnyRun w₀ trace w) (a : Answers) (fd : Conn) (text : Bytes) :
    (w.HarmlessText a fd text ↔ w.SafeText a text) ∧
    (w.HarmlessText a fd text ∧ (∀ msg, deserializeText text = .ok msg → Pointers (printMsg msg)) ↔
      w.SafeText a text ∧ (jsonObjectGetString (jsonValueGetObject (jsonParseDoubles text)) (bytes "payload")).isSome) := by
  obtain ⟨hclients, hworkers⟩ := h.tables h₀
  unfold World.HarmlessText World.SafeText deserializeText
  generalize jsonValueGetObject (jsonParseDoubles text) = o
  by_cases hstring : PayloadIsString o
  · have hprint : Pointers (printMsg (objectMsg o)) ↔ (jsonObjectGetString o (bytes "payload")).isSome := by
      rw [Option.isSome_iff_ne_none]
      exact derefStr_bind_pointers fun _ => .ok _
    rw [readMsg_string hstring]
    simp only [FaultsIn.ok, true_and, Except.ok.injEq, forall_eq', hstring, World.harmless_iff hclients hworkers, hprint]
  · rw [readMsg_null hstring]
    simp [hstring, PointerFault]

/-- Anna, who is not logged in, wants to leave. -/
theorem safe_texts_harmless_quit :
    (demoWorld .server demoDisk none).HarmlessText demoAnswers 0 (serializeMsg (createMsg .quit 1 1 0 none)) := by
  refine (safe_texts_harmless (.inr (demoWorld_server demoDisk)) .init demoAnswers 0 _).1.mpr ?_
  have hparse : jsonValueGetObject (jsonParseDoubles (serializeMsg (createMsg .quit 1 1 0 none))) =
      msgMembers (createMsg .quit 1 1 0 none) := by
    have hpl : ∀ pl, (createMsg .quit 1 1 0 none).payload = some pl → (0 : UInt8) ∉ pl := fun pl h => nomatch h
    exact parseDoubles_serializeMsg hpl (by decide)
  unfold World.SafeText
  rw [hparse]
  refine ⟨fun h => absurd h (by decide), by decide, fun hadm => ?_⟩
  rcases hadm with hflag | hneeds
  · cases hflag
  · exact absurd ⟨by decide, by decide⟩ hneeds

/-- A payload that is a number, and the user id `-1` with which clients log in. -/
theorem login_not_harmless : ServerStart (demoWorld .server demoDisk none) ∧
    AnyRun (demoWorld .server demoDisk none) [] (demoWorld .server demoDisk none) ∧
    deserializeText (bytes "\x7b\"type\":2,\"user_id\":1,\"payload\":5\x7d") = .error .nullStr ∧
    ¬ (demoWorld .server demoDisk none).HarmlessText demoAnswers 0
      (bytes "\x7b\"type\":2,\"user_id\":1,\"payload\":5\x7d") ∧
    ¬ (demoWorld .server demoDisk none).HarmlessText demoAnswers 0 (serializeMsg annaLogin) := by
  have hnumber : deserializeText (bytes "\x7b\"type\":2,\"user_id\":1,\"payload\":5\x7d") = .error .nullStr :=
    eq_error_of_stops (by decide +kernel)
  have hlogin : deserializeText (serializeMsg annaLogin) = .ok annaLogin := by
    have hpl : ∀ pl, annaLogin.payload = some pl → (0 : UInt8) ∉ pl := by
      intro pl h
      obtain rfl := Option.some.inj h
      decide +kernel
    rw [deserializeText, parseDoubles_serializeMsg hpl (by decide), readMsg_members]
    decide +kernel
  refine ⟨demoWorld_server demoDisk, .init, hnumber, fun h => ?_, fun h => ?_⟩
  · rw [World.HarmlessText, hnumber] at h
    exact absurd (FaultsIn.error_iff.mp h.1) (by decide)
  · exact absurd (h.2 annaLogin hlogin).clients (by decide)

end CoEditor
