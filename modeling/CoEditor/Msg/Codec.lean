-- SUMMARY: Messages and their JSON text: serialize_msg, deserialize_msg.
import CoEditor.Buffer.Types
import CoEditor.Parson.RoundTrip

/-!
# Messages

The messages of `msg.h` and their JSON text. The type of a message comes off
the wire as a number, so a message carries the number and `MsgType.ofCode`
names it where a `switch` looks at it.
-/

namespace CoEditor

/-- `MSG_TYPE` -/
inductive MsgType where
  | msgFailed | msgOk | login | register | quit | fileRequest | fileResponse | fileList | createFile | deleteFile
  | insert | insertLine | delete | moveCursor | addCursor | deleteCursor
deriving DecidableEq, Repr

namespace MsgType

/-- The types in the order of `msg.h`. -/
def all : List MsgType :=
  [msgFailed, msgOk, login, register, quit, fileRequest, fileResponse, fileList, createFile, deleteFile, insert,
    insertLine, delete, moveCursor, addCursor, deleteCursor]

/-- The number of a type. -/
def code (t : MsgType) : Int := all.idxOf t

/-- The type with a number, if there is one. -/
def ofCode (n : Int) : Option MsgType := if 0 ≤ n then all[n.toNat]? else none

@[simp] theorem ofCode_code (t : MsgType) : ofCode t.code = some t := by
  cases t <;> rfl

theorem ofCode_eq_some {n : Int} {t : MsgType} : ofCode n = some t ↔ n = t.code := by
  refine ⟨fun h => ?_, fun h => h ▸ ofCode_code t⟩
  rw [ofCode] at h
  split at h
  · next hn =>
      have hidx : all.idxOf t = n.toNat := by
        have hlt := (List.getElem?_eq_some_iff.mp h).1
        have hnodup : all.Nodup := by decide
        rw [List.getElem?_eq_getElem hlt] at h
        rw [← Option.some.inj h]
        exact hnodup.idxOf_getElem _ hlt
      rw [code, hidx, Int.toNat_of_nonneg hn]
  · cases h

theorem code_inj {t t' : MsgType} : t.code = t'.code ↔ t = t' := by
  rw [← ofCode_eq_some, ofCode_code, Option.some.injEq]

theorem ne_code {n : Int} {t t' : MsgType} (h : n = t.code) (hne : t ≠ t') : n ≠ t'.code :=
  fun h' => hne (code_inj.mp (h.symm.trans h'))

end MsgType

/-- A socket message. -/
structure Message where
  type : Int
  userId : Int
  fileId : Int
  fileVersion : Int
  /-- `none` for `NULL`; the value depends on the type. -/
  payload : Option Bytes
deriving DecidableEq, Repr

/-- Create a message with defined attributes. -/
def createMsg (type : MsgType) (userId fileId fileVersion : Int) (payload : Option Bytes) : Message :=
  { type := type.code, userId, fileId, fileVersion, payload }

/-! ## The text of a message -/

/-- The object that `serialize_msg` builds. -/
def msgObject (msg : Message) : JsonObject :=
  let o := jsonObjectSetNumber [] (bytes "type") msg.type
  let o := jsonObjectSetNumber o (bytes "user_id") msg.userId
  let o := jsonObjectSetNumber o (bytes "file_id") msg.fileId
  let o := jsonObjectSetNumber o (bytes "file_version") msg.fileVersion
  match msg.payload with
  | some pl => jsonObjectSetString o (bytes "payload") pl
  | none => o

/-- Serialize a message to a JSON string. -/
def serializeMsg (msg : Message) : Bytes := jsonSerialize (.obj (msgObject msg))

/-- The payload of a decoded message; `strlen` reads whatever string comes back. -/
def readPayload (o : JsonObject) : Except Fault (Option Bytes) :=
  if (jsonObjectGetValue o (bytes "payload")).isSome then
    match jsonObjectGetString o (bytes "payload") with
    | some pl => pure (some pl)
    | none => .error .nullStr
  else pure none

/-- The message that an object stands for. -/
def readMsg (o : JsonObject) : Except Fault Message := do
  let payload ← readPayload o
  pure {
    type := jsonObjectGetNumber o (bytes "type")
    userId := jsonObjectGetNumber o (bytes "user_id")
    fileId := jsonObjectGetNumber o (bytes "file_id")
    fileVersion := jsonObjectGetNumber o (bytes "file_version")
    payload }

/-- Deserialize a JSON string to a message. -/
def deserializeMsg (serializedMsg : Bytes) : Except Fault Message :=
  readMsg (jsonValueGetObject (jsonParseString serializedMsg))

/-- `deserialize_msg` on any text, large numbers included. -/
def deserializeText (serializedMsg : Bytes) : Except Fault Message :=
  readMsg (jsonValueGetObject (jsonParseDoubles serializedMsg))

/-- The payload of `LOGIN` and `REGISTER`. -/
def createLoginPayload (name pass : Bytes) : Bytes :=
  jsonSerialize (.obj (jsonObjectSetString (jsonObjectSetString [] (bytes "name") name) (bytes "pass") pass))

/-! ## Reading a message back -/

/-- What `serialize_msg` makes of a payload: one that is not valid UTF-8 is left out. -/
def sentPayload : Option Bytes → Option Bytes
  | some pl => if (Utf8.decode pl).isSome then some pl else none
  | none => none

/-- The members of the text of a message. -/
def msgMembers (msg : Message) : JsonObject :=
  [(bytes "type", .num msg.type), (bytes "user_id", .num msg.userId), (bytes "file_id", .num msg.fileId),
    (bytes "file_version", .num msg.fileVersion)] ++ (msg.payload.map fun pl => (bytes "payload", Json.str pl)).toList

theorem msgObject_eq (msg : Message) :
    msgObject msg = msgMembers { msg with payload := sentPayload msg.payload } := by
  rcases hpl : msg.payload with - | pl
  · rw [msgObject, hpl]
    rfl
  · rcases hdec : Utf8.decode pl with - | cs
    · simp only [msgObject, hpl, jsonObjectSetString, jsonValueInitString, sentPayload, hdec]
      rfl
    · simp only [msgObject, hpl, jsonObjectSetString, jsonValueInitString, sentPayload, hdec]
      rfl

theorem readMsg_members (msg : Message) : readMsg (msgMembers msg) = .ok msg := by
  obtain ⟨type, userId, fileId, fileVersion, pl⟩ := msg
  cases pl <;> rfl

theorem msgMembers_depth (msg : Message) : depthMembers (msgMembers msg) = 0 := by
  obtain ⟨type, userId, fileId, fileVersion, pl⟩ := msg
  cases pl <;> rfl

theorem msgMembers_ok {msg : Message} (hpl : ∀ pl, msg.payload = some pl → (0 : UInt8) ∉ pl) :
    (Json.obj (msgMembers msg)).Ok := by
  have hzero : ∀ w ∈ ["type", "user_id", "file_id", "file_version", "payload"], (0 : UInt8) ∉ bytes w := by decide
  obtain ⟨type, userId, fileId, fileVersion, pl⟩ := msg
  simp only [Json.Ok, okMembers_iff]
  cases pl with
  | none =>
      refine ⟨by simp [msgMembers]; decide, ?_⟩
      simp [msgMembers, Json.Ok, hzero]
  | some pl =>
      refine ⟨by simp [msgMembers]; decide, ?_⟩
      simp [msgMembers, Json.Ok, hzero, hpl pl rfl]

/-- The text of a message is parsed as its members, whatever comes after it. -/
theorem jsonParseString_serializeMsg {msg : Message} (hpl : ∀ pl, msg.payload = some pl → (0 : UInt8) ∉ pl) (rest : Bytes) :
    jsonParseString (serializeMsg msg ++ rest) = some (.obj (msgMembers { msg with payload := sentPayload msg.payload })) := by
  have hsent : ∀ pl, sentPayload msg.payload = some pl → (0 : UInt8) ∉ pl := by
    intro pl h
    rcases hp : msg.payload with - | pl'
    · simp [hp, sentPayload] at h
    · simp only [hp, sentPayload, Option.ite_none_right_eq_some, Option.some.injEq] at h
      exact h.2 ▸ hpl pl' hp
  rw [serializeMsg, msgObject_eq, jsonParseString_serialize (msgMembers_ok hsent) (by rw [msgMembers_depth]; decide)]

theorem parse_serializeMsg {msg : Message} (hpl : ∀ pl, msg.payload = some pl → (0 : UInt8) ∉ pl) (rest : Bytes) :
    jsonValueGetObject (jsonParseString (serializeMsg msg ++ rest)) =
      msgMembers { msg with payload := sentPayload msg.payload } := by
  rw [jsonParseString_serializeMsg hpl, jsonValueGetObject_obj]

/-- The numbers of the message are doubles. -/
def Message.Small (msg : Message) : Prop :=
  ∀ n ∈ [msg.type, msg.userId, msg.fileId, msg.fileVersion], n.natAbs < 2 ^ 53

instance (msg : Message) : Decidable msg.Small := inferInstanceAs (Decidable (∀ _ ∈ _, _))

theorem Message.Small.members {msg : Message} (h : msg.Small) : (Json.obj (msgMembers msg)).Small := by
  obtain ⟨type, userId, fileId, fileVersion, pl⟩ := msg
  simp only [Message.Small, List.forall_mem_cons] at h
  obtain ⟨htype, huser, hfile, hversion, -⟩ := h
  cases pl with
  | none => exact ⟨htype, huser, hfile, hversion, trivial⟩
  | some pl => exact ⟨htype, huser, hfile, hversion, trivial, trivial⟩

/-- Where the numbers of a message are doubles, rounding them changes nothing. -/
theorem parseDoubles_serializeMsg {msg : Message} (hpl : ∀ pl, msg.payload = some pl → (0 : UInt8) ∉ pl) (hsmall : msg.Small) :
    jsonValueGetObject (jsonParseDoubles (serializeMsg msg)) = msgMembers { msg with payload := sentPayload msg.payload } := by
  have hparse := jsonParseString_serializeMsg hpl []
  rw [List.append_nil] at hparse
  have hsent : ({ msg with payload := sentPayload msg.payload } : Message).Small := hsmall
  rw [jsonParseDoubles_small hparse hsent.members, jsonValueGetObject_obj]

/-- The text of a message is read back, whatever comes after it; only a payload that is not valid UTF-8
    is lost. -/
theorem deserializeMsg_serializeMsg {msg : Message} (hpl : ∀ pl, msg.payload = some pl → (0 : UInt8) ∉ pl)
    (rest : Bytes) :
    deserializeMsg (serializeMsg msg ++ rest) = .ok { msg with payload := sentPayload msg.payload } := by
  rw [deserializeMsg, parse_serializeMsg hpl, readMsg_members]

/-- A message survives its codec exactly if its payload is `NULL` or valid UTF-8. -/
theorem message_roundtrip (msg : Message) (hpl : ∀ pl, msg.payload = some pl → (0 : UInt8) ∉ pl) :
    deserializeMsg (serializeMsg msg) = .ok msg ↔
      ∀ pl, msg.payload = some pl → (Utf8.decode pl).isSome := by
  have hrun := deserializeMsg_serializeMsg hpl []
  rw [List.append_nil] at hrun
  obtain ⟨type, userId, fileId, fileVersion, pl⟩ := msg
  rw [hrun]
  cases pl with
  | none => simp [sentPayload]
  | some pl => simp [sentPayload, Option.isSome_iff_ne_none]

theorem message_roundtrip_move : deserializeMsg (serializeMsg (createMsg .moveCursor 2 1 0 (some (bytes "3")))) =
      .ok (createMsg .moveCursor 2 1 0 (some (bytes "3"))) ↔
    ∀ pl, (createMsg .moveCursor 2 1 0 (some (bytes "3"))).payload = some pl → (Utf8.decode pl).isSome :=
  message_roundtrip _ (by
    intro pl h
    obtain rfl := Option.some.inj h
    decide)

/-- The first byte of a two-byte character, typed by itself, does not arrive. -/
theorem message_loses_payload :
    deserializeMsg (serializeMsg (createMsg .insert 2 1 0 (some [0xC3]))) = .ok (createMsg .insert 2 1 0 none) ∧
      deserializeMsg (serializeMsg (createMsg .insert 2 1 0 (some [0xC3]))) ≠
        .ok (createMsg .insert 2 1 0 (some [0xC3])) := by
  have hpl : ∀ pl, (createMsg .insert 2 1 0 (some [0xC3])).payload = some pl → (0 : UInt8) ∉ pl := by
    intro pl h
    obtain rfl := Option.some.inj h
    decide
  have hrun := deserializeMsg_serializeMsg hpl []
  rw [List.append_nil] at hrun
  rw [hrun]
  exact ⟨rfl, by decide⟩

end CoEditor
