-- SUMMARY: Messages on a connection: send_msg, send_msg_without_delete, recv_msg.
import CoEditor.Msg.Codec

/-!
# Messages on a connection

A connection delivers the bytes in the order they were sent, cut into chunks
wherever the network pleases. `recv_msg` takes every chunk for one message.
-/

namespace CoEditor

/-- `MAGIC_NUMBER`, the size of `global_serialized_msg`. -/
abbrev magicNumber : Nat := 100000

/-- A message sent by one of the two senders. -/
inductive Send where
  | sendMsg (msg : Message)
  | sendMsgWithoutDelete (msg : Message)

namespace Send

def msg : Send → Message
  | .sendMsg msg | .sendMsgWithoutDelete msg => msg

/-- The bytes that go out; only `send_msg` sends the `NUL` along. -/
def written : Send → Bytes
  | .sendMsg msg => serializeMsg msg ++ [0]
  | .sendMsgWithoutDelete msg => serializeMsg msg

/-- The bytes of a message after its text. -/
def terminator : Send → Bytes
  | .sendMsg _ => [0]
  | .sendMsgWithoutDelete _ => []

theorem written_eq (s : Send) : s.written = serializeMsg s.msg ++ s.terminator := by
  cases s with
  | sendMsg msg => rfl
  | sendMsgWithoutDelete msg => simp [written, terminator, Send.msg]

end Send

/-- Receive a message: a chunk is written over the head of `global_serialized_msg`, here `buf`, which is
    then read as a string. What lies behind the array is `beyond`. The chunk is what `recv` returned, so it is given to
    have at most `magicNumber` bytes: see `Cut`. -/
def recvMsg (beyond buf chunk : Bytes) : Except Fault (Bytes × Option Message) :=
  if chunk = [] then pure (buf, none)
  else do
    let buf := chunk ++ buf.drop chunk.length
    let msg ← deserializeMsg (cString (buf ++ beyond))
    pure (buf, some msg)

/-- The messages that successive `recv_msg` calls yield. -/
def recvMsgs (beyond : Bytes) : Bytes → List Bytes → Except Fault (List Message)
  | _, [] => pure []
  | buf, chunk :: chunks => do
      let (buf, msg) ← recvMsg beyond buf chunk
      let msgs ← recvMsgs beyond buf chunks
      pure (msg.toList ++ msgs)

/-- `recv` returns the stream in these chunks. -/
structure Cut (stream : Bytes) (chunks : List Bytes) : Prop where
  flatten : chunks.flatten = stream
  chunk : ∀ c ∈ chunks, c ≠ [] ∧ c.length ≤ magicNumber

/-! ## Chunks that are messages -/

/-- A payload that arrives as it was sent. -/
def Message.Sendable (msg : Message) : Prop :=
  ∀ pl, msg.payload = some pl → (0 : UInt8) ∉ pl ∧ (Utf8.decode pl).isSome

instance (msg : Message) : Decidable msg.Sendable :=
  match h : msg.payload with
  | none => .isTrue fun pl hpl => by rw [h] at hpl; cases hpl
  | some pl => decidable_of_iff ((0 : UInt8) ∉ pl ∧ (Utf8.decode pl).isSome)
      ⟨fun hpl pl' h' => by rw [h] at h'; exact Option.some.inj h' ▸ hpl, fun hall => hall pl h⟩

theorem Message.Sendable.sentPayload {msg : Message} (h : msg.Sendable) :
    CoEditor.sentPayload msg.payload = msg.payload := by
  rcases hpl : msg.payload with - | pl
  · rfl
  · simp [CoEditor.sentPayload, (h pl hpl).2]

/-- The message that `recv_msg` makes of the text of a message. -/
def Message.received (msg : Message) : Message := { msg with payload := CoEditor.sentPayload msg.payload }

theorem Message.Sendable.received {msg : Message} (h : msg.Sendable) : msg.received = msg := by
  rw [Message.received, h.sentPayload]

/-- A chunk that starts with the text of a message yields what can be read of that message, whatever else it holds. -/
theorem recvMsg_received (beyond buf rest : Bytes) {msg : Message} (h : ∀ pl, msg.payload = some pl → (0 : UInt8) ∉ pl) :
    ∃ buf', recvMsg beyond buf (serializeMsg msg ++ rest) = .ok (buf', some msg.received) := by
  have hne : serializeMsg msg ++ rest ≠ [] := by
    intro hnil
    have hpos := jsonSerialize_pos (.obj (msgObject msg))
    rw [List.append_eq_nil_iff] at hnil
    rw [serializeMsg] at hnil
    rw [hnil.1] at hpos
    exact absurd hpos (by decide)
  refine ⟨serializeMsg msg ++ rest ++ buf.drop (serializeMsg msg ++ rest).length, ?_⟩
  have htext : cString (serializeMsg msg ++ rest ++ buf.drop (serializeMsg msg ++ rest).length ++ beyond) =
      serializeMsg msg ++ cString (rest ++ (buf.drop (serializeMsg msg ++ rest).length ++ beyond)) := by
    rw [List.append_assoc, List.append_assoc, serializeMsg, cString_append (zero_notMem_serialize _)]
  rw [recvMsg, if_neg hne]
  simp only [htext, deserializeMsg_serializeMsg h, Except.ok_bind_eq, Except.pure_eq_ok]
  rfl

/-- A message that can be sent is received as it was. -/
theorem recvMsg_text (beyond buf rest : Bytes) {msg : Message} (h : msg.Sendable) :
    ∃ buf', recvMsg beyond buf (serializeMsg msg ++ rest) = .ok (buf', some msg) := by
  have hrun := recvMsg_received beyond buf rest fun pl hpl => (h pl hpl).1
  rwa [h.received] at hrun

/-- Chunks that start with the texts of messages yield these messages. -/
theorem recvMsgs_texts (beyond : Bytes) {sends : List Send} (h : ∀ s ∈ sends, s.msg.Sendable) :
    ∀ buf, recvMsgs beyond buf (sends.map Send.written) = .ok (sends.map Send.msg) := by
  induction sends with
  | nil => exact fun _ => rfl
  | cons s sends ih =>
      intro buf
      obtain ⟨buf', hrun⟩ := recvMsg_text beyond buf s.terminator (h s (by simp))
      rw [List.map_cons, recvMsgs, s.written_eq, hrun]
      simp only [Except.ok_bind_eq, ih (fun t ht => h t (by simp [ht])) buf']
      rfl

/-- When every `recv` returns just what one call has sent, the messages received are the messages sent. -/
theorem messages_received {sends : List Send} {chunks : List Bytes}
    (hnul : ∀ s ∈ sends, ∀ pl, s.msg.payload = some pl → (0 : UInt8) ∉ pl)
    (hutf8 : ∀ s ∈ sends, ∀ pl, s.msg.payload = some pl → (Utf8.decode pl).isSome)
    (hchunks : chunks = sends.map Send.written) (beyond buf : Bytes) :
    recvMsgs beyond buf chunks = .ok (sends.map Send.msg) := by
  rw [hchunks]
  exact recvMsgs_texts beyond (fun s hs pl hpl => ⟨hnul s hs pl hpl, hutf8 s hs pl hpl⟩) buf

/-- Two edits passed on to a client. -/
def twoEdits : List Send :=
  [.sendMsgWithoutDelete (createMsg .insertLine 2 1 0 none), .sendMsgWithoutDelete (createMsg .insert 2 1 0 (some (bytes "a")))]

theorem messages_received_two : recvMsgs [] (List.replicate magicNumber 0) (twoEdits.map Send.written) =
    .ok (twoEdits.map Send.msg) := by
  have hpl : ∀ s ∈ twoEdits, s.msg.Sendable := by decide
  exact messages_received (fun s hs pl h => (hpl s hs pl h).1) (fun s hs pl h => (hpl s hs pl h).2) rfl _ _

/-- Two edits that arrive in one chunk are taken for one. -/
theorem messages_merged : Cut (twoEdits.flatMap Send.written) [twoEdits.flatMap Send.written] ∧
    (∀ s ∈ twoEdits, s.msg.Sendable) ∧
    recvMsgs [] (List.replicate magicNumber 0) [twoEdits.flatMap Send.written] =
      .ok [createMsg .insertLine 2 1 0 none] ∧
    twoEdits.map Send.msg ≠ [createMsg .insertLine 2 1 0 none] := by
  have hpl : ∀ s ∈ twoEdits, s.msg.Sendable := by decide
  refine ⟨⟨List.append_nil _, ?_⟩, hpl, ?_, by decide⟩
  · simp only [List.mem_singleton]
    rintro c rfl
    decide +kernel
  · obtain ⟨buf', hrun⟩ := recvMsg_text [] (List.replicate magicNumber 0)
      (serializeMsg (createMsg .insert 2 1 0 (some (bytes "a"))) ++ []) (hpl _ (List.mem_cons_self ..))
    have hflat : twoEdits.flatMap Send.written = serializeMsg (createMsg .insertLine 2 1 0 none) ++
        (serializeMsg (createMsg .insert 2 1 0 (some (bytes "a"))) ++ []) := rfl
    rw [recvMsgs, hflat]
    exact (congrArg (· >>= _) hrun).trans rfl

end CoEditor
