-- SUMMARY: The client in a session with a worker: what it does with messages and keys.
import CoEditor.Server.Cursors
import CoEditor.Session.Replicas

/-!
# Clients

`editor.c`, once the client is connected to a worker. A key is carried out on
the client's own buffer and sent to the worker; a message from the worker is
carried out at the cursor of its user.
-/

namespace CoEditor

variable {R : Type} [Rope R]

/-- `OWN_CURS_ID` -/
abbrev ownCursId : Int := 0

structure Editor (R : Type) where
  /-- The user id the server assigned us. -/
  userId : Int
  fileId : Int
  /-- The current buffer; `none` for `NULL`. -/
  b : Option (Buffer R)

/-- What `getch` returns, as far as `handle_input` tells it apart. -/
inductive Key where
  | left | right | up | down | backspace | esc | newline
  /-- Any other key, cut to a `char`. -/
  | char (c : UInt8)
deriving DecidableEq, Repr

namespace Editor

/-- Make a call on the buffer. -/
def onBuf (e : Editor R) (op : Op) : Except Fault (Editor R) :=
  match e.b with
  | none => .error .nullDeref
  | some b => do
      let (b, _) ← op.run b
      pure { e with b := some b }

/-- `bcursor_new(b, msg->user_id, b->first->id, 0)` -/
def addCursor (e : Editor R) (userId : Int) : Except Fault (Editor R) :=
  match e.b with
  | none => .error .nullDeref
  | some b => do
      let f ← b.line b.first
      e.onBuf (.new userId f.id 0)

/-- Handle incoming network message; with the messages that are sent. -/
def handleMsg (e : Editor R) (msg : Message) : Except Fault (Editor R × List Message) :=
  match MsgType.ofCode msg.type with
  | some .msgOk =>
      pure ({ e with userId := msg.userId }, [createMsg .fileRequest msg.userId e.fileId (-1) none])
  | some .fileResponse => do
      let b ← bufferDeserialize (msg.payload.getD []) true
      pure ({ e with b := some b }, [])
  | some .insert => do
      let c ← firstChar msg.payload
      (·, []) <$> e.onBuf (.insert msg.userId c)
  | some .insertLine => (·, []) <$> e.onBuf (.insertLine msg.userId)
  | some .delete => (·, []) <$> e.onBuf (.del msg.userId)
  | some .moveCursor => do
      let dir ← readDir msg.payload
      (·, []) <$> e.onBuf (.move msg.userId dir)
  | some .addCursor => if e.userId ≠ msg.userId then (·, []) <$> e.addCursor msg.userId else pure (e, [])
  | some .deleteCursor => (·, []) <$> e.onBuf (.free msg.userId)
  | _ => pure (e, [])

/-- Send a message that the own cursor has made a call, and make it. -/
def act (e : Editor R) (b : Buffer R) (type : MsgType) (payload : Option Bytes) (op : Op) :
    Except Fault (Editor R × Message × Bool) := do
  let msg := createMsg type e.userId b.id b.ver payload
  let (b, _) ← op.run { b with ver := b.ver + 1 }
  pure ({ e with b := some b }, msg, false)

/-- Handle keyboard input; with the message that is sent, and whether the client quits. -/
def handleInput (e : Editor R) (key : Key) : Except Fault (Editor R × Message × Bool) :=
  match e.b with
  | none => .error .nullDeref
  | some b =>
      match key with
      | .left => e.act b .moveCursor (some (bytes "2")) (.move ownCursId .left)
      | .right => e.act b .moveCursor (some (bytes "3")) (.move ownCursId .right)
      | .up => e.act b .moveCursor (some (bytes "0")) (.move ownCursId .up)
      | .down => e.act b .moveCursor (some (bytes "1")) (.move ownCursId .down)
      | .backspace => e.act b .delete none (.del ownCursId)
      | .esc => pure ({ e with b := none }, createMsg .quit e.userId b.id b.ver none, true)
      | .newline => e.act b .insertLine none (.insertLine ownCursId)
      | .char c => e.act b .insert (some (hstr c)) (.insert ownCursId c)

end Editor

/-- The call that a key makes at a cursor. -/
def Key.op (id : Int) : Key → Option Op
  | .left => some (.move id .left)
  | .right => some (.move id .right)
  | .up => some (.move id .up)
  | .down => some (.move id .down)
  | .backspace => some (.del id)
  | .esc => none
  | .newline => some (.insertLine id)
  | .char c => some (.insert id c)

/-- A key that types a character types an ASCII one. -/
def Key.Ascii : Key → Prop
  | .char c => c ≠ 0 ∧ c.toNat < 128
  | _ => True

/-! ## What a client does -/

namespace Editor

variable {e e' : Editor R} {msg : Message} {key : Key} {op : Op} {out : List Message}

theorem onBuf_cases (h : e.onBuf op = .ok e') :
    ∃ b b' res, e.b = some b ∧ op.run b = .ok (b', res) ∧ e' = { e with b := some b' } := by
  unfold onBuf at h
  split at h
  · cases h
  · next b hb =>
      obtain ⟨⟨b', res⟩, hrun, h⟩ := Except.bind_eq_ok.mp h
      exact ⟨b, b', res, hb, hrun, (Except.ok.inj h).symm⟩

/-- A call on the buffer that nothing is sent for. -/
theorem map_onBuf_cases (h : (·, ([] : List Message)) <$> e.onBuf op = .ok (e', out)) :
    out = [] ∧ ∃ b b' res, e.b = some b ∧ op.run b = .ok (b', res) ∧ e' = { e with b := some b' } := by
  obtain ⟨e₁, hrun, he⟩ := Except.map_eq_ok.mp h
  obtain ⟨rfl, rfl⟩ := Prod.mk.inj he
  exact ⟨rfl, onBuf_cases hrun⟩

/-- A client carries out the edits of others. -/
theorem handleMsg_edit (hasks : msg.Asks op) (h : e.handleMsg msg = .ok (e', out)) :
    out = [] ∧ ∃ b b' res, e.b = some b ∧ op.run b = .ok (b', res) ∧ e' = { e with b := some b' } := by
  cases hasks with
  | insert ht hpl =>
      simp only [handleMsg, ht, MsgType.ofCode_code, firstChar, hpl, derefStr, Except.pure_eq_ok, Except.ok_bind_eq] at h
      exact map_onBuf_cases h
  | insertLine ht =>
      simp only [handleMsg, ht, MsgType.ofCode_code] at h
      exact map_onBuf_cases h
  | del ht =>
      simp only [handleMsg, ht, MsgType.ofCode_code] at h
      exact map_onBuf_cases h
  | move ht hdir =>
      simp only [handleMsg, ht, MsgType.ofCode_code, hdir, Except.ok_bind_eq] at h
      exact map_onBuf_cases h

theorem act_ok {b : Buffer R} {type : MsgType} {payload : Option Bytes} {quit : Bool}
    (h : e.act b type payload op = .ok (e', msg, quit)) : quit = false ∧ msg = createMsg type e.userId b.id b.ver payload ∧
      ∃ b' res, op.run { b with ver := b.ver + 1 } = .ok (b', res) ∧ e' = { e with b := some b' } := by
  obtain ⟨⟨b', res⟩, hrun, h⟩ := Except.bind_eq_ok.mp h
  obtain ⟨rfl, hmsg⟩ := Prod.mk.inj (Except.ok.inj h)
  obtain ⟨rfl, rfl⟩ := Prod.mk.inj hmsg
  exact ⟨rfl, rfl, b', res, hrun, rfl⟩

theorem sendable_hstr {c : UInt8} (h0 : c ≠ 0) (hascii : c.toNat < 128) (type : MsgType) (userId fileId fileVersion : Int) :
    (createMsg type userId fileId fileVersion (some (hstr c))).Sendable := by
  intro pl hpl
  obtain rfl := Option.some.inj hpl
  rw [hstr, if_neg h0, ← Utf8.encode_ofNat hascii, Utf8.decode_encode, Utf8.encode_ofNat hascii]
  exact ⟨by simpa using h0.symm, rfl⟩

/-- A client carries out a key at its own cursor, and asks the worker to do the same at the cursor of its user. -/
theorem handleInput_ok (h : e.handleInput key = .ok (e', msg, false)) :
    ∃ b b' op own res, e.b = some b ∧ key.op e.userId = some op ∧ key.op ownCursId = some own ∧ msg.Asks op ∧
      (key.Ascii → msg.Sendable) ∧ own.run { b with ver := b.ver + 1 } = .ok (b', res) ∧ e' = { e with b := some b' } := by
  unfold handleInput at h
  split at h
  · cases h
  · next b hb =>
      have hact : ∀ {type payload own op}, e.act b type payload own = .ok (e', msg, false) → key.op e.userId = some op →
          key.op ownCursId = some own → (createMsg type e.userId b.id b.ver payload).Asks op →
          (key.Ascii → (createMsg type e.userId b.id b.ver payload).Sendable) →
          ∃ b b' op own res, e.b = some b ∧ key.op e.userId = some op ∧ key.op ownCursId = some own ∧ msg.Asks op ∧
            (key.Ascii → msg.Sendable) ∧ own.run { b with ver := b.ver + 1 } = .ok (b', res) ∧ e' = { e with b := some b' } := by
        intro type payload own op h hop hown hasks hsend
        obtain ⟨-, rfl, b', res, hrun, rfl⟩ := act_ok h
        exact ⟨b, b', op, own, res, hb, hop, hown, hasks, hsend, hrun, rfl⟩
      cases key with
      | left | right | up | down =>
          refine hact h rfl rfl (.move rfl rfl) fun _ pl hpl => ?_
          obtain rfl := Option.some.inj hpl
          decide
      | backspace => exact hact h rfl rfl (.del rfl) nofun
      | esc => cases h
      | newline => exact hact h rfl rfl (.insertLine rfl) nofun
      | char c =>
          refine hact h rfl rfl ?_ fun hkey => sendable_hstr hkey.1 hkey.2 _ _ _ _
          have hasks : (createMsg .insert e.userId b.id b.ver (some (hstr c))).Asks
              (.insert e.userId ((hstr c).headD 0)) := .insert rfl rfl
          have hc : (hstr c).headD 0 = c := by
            unfold hstr
            split
            · next h0 => exact h0.symm
            · rfl
          rwa [hc] at hasks

end Editor

end CoEditor
