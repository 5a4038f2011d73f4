-- SUMMARY: What becomes of a message of which only a piece has arrived.
import CoEditor.Client.Lobby
import CoEditor.Parson.Prefixes

/-!
# Pieces of messages

Nothing tells `recv_msg` where a message ends, so a message that the network
delivers in pieces is read piece by piece. The first piece is no JSON text, and
what is made of that is a message all of whose numbers are 0.
-/

namespace CoEditor

variable {R : Type} [Rope R]

/-- The message that is made of a text that is no object. -/
def noMessage : Message := createMsg .msgFailed 0 0 0 none

/-- Nothing is left in memory of an earlier and longer message where a chunk ends. -/
def Clear (beyond buf chunk : Bytes) : Prop := ∀ c ∈ (buf.drop chunk.length ++ beyond).head?, c = 0

/-- It is so at the start. -/
theorem clear_zeros (n : Nat) (chunk : Bytes) : Clear [] (List.replicate n 0) chunk := by
  rw [Clear, List.append_nil, List.drop_replicate]
  exact fun c hc => List.eq_of_mem_replicate (List.mem_of_mem_head? hc)

/-! ## What is received -/

/-- The texts of messages are prefix-free. -/
theorem parse_cut {msg : Message} (hpl : ∀ pl, msg.payload = some pl → (0 : UInt8) ∉ pl) {p q : Bytes}
    (hcut : p ++ q = serializeMsg msg) (hq : q ≠ []) : jsonParseString p = none := by
  have hsent : ∀ pl, sentPayload msg.payload = some pl → (0 : UInt8) ∉ pl := by
    intro pl h
    rw [sentPayload.eq_def] at h
    split at h
    · next pl' hpl' =>
        split at h
        · obtain rfl := Option.some.inj h
          exact hpl _ hpl'
        · cases h
    · cases h
  rw [serializeMsg, msgObject_eq] at hcut
  refine jsonParseString_cut (msgMembers_ok hsent) ?_ hcut hq
  have hlevels := levelsMembers_le_depth (msgMembers { msg with payload := sentPayload msg.payload })
  rw [msgMembers_depth] at hlevels
  rw [Json.levels]
  exact hlevels.trans (by decide)

theorem recvMsg_piece {beyond buf : Bytes} {msg : Message} (hpl : ∀ pl, msg.payload = some pl → (0 : UInt8) ∉ pl) {p q : Bytes}
    (hcut : p ++ q = serializeMsg msg) (hp : p ≠ []) (hq : q ≠ []) (hclear : Clear beyond buf p) :
    ∃ buf', recvMsg beyond buf p = .ok (buf', some noMessage) := by
  have hzero : (0 : UInt8) ∉ p := fun hmem =>
    zero_notMem_serialize (.obj (msgObject msg)) (by rw [← serializeMsg, ← hcut]; exact List.mem_append_left q hmem)
  have hrest : cString (buf.drop p.length ++ beyond) = [] := by
    rw [Clear] at hclear
    cases hmem : buf.drop p.length ++ beyond with
    | nil => rfl
    | cons c s =>
        rw [hmem] at hclear
        rw [cString, hclear c rfl]
        rfl
  refine ⟨p ++ buf.drop p.length, ?_⟩
  rw [recvMsg, if_neg hp]
  simp only [List.append_assoc, cString_append hzero, hrest, List.append_nil, deserializeMsg, parse_cut hpl hcut hq]
  rfl

/-- The first chunk of a stream of messages yields the first of them if all of its text is there, and no message otherwise. -/
theorem recvMsg_first {beyond buf : Bytes} {s : Send} {sends : List Send}
    (hpl : ∀ pl, s.msg.payload = some pl → (0 : UInt8) ∉ pl) {chunk later : Bytes}
    (hstream : chunk ++ later = (s :: sends).flatMap Send.written) (hne : chunk ≠ []) (hclear : Clear beyond buf chunk) :
    ∃ buf', recvMsg beyond buf chunk =
      .ok (buf', some (if (serializeMsg s.msg).length ≤ chunk.length then s.msg.received else noMessage)) := by
  rw [List.flatMap_cons, s.written_eq, List.append_assoc] at hstream
  rcases List.append_eq_append_iff.mp hstream with ⟨q, hq, -⟩ | ⟨rest, rfl, -⟩
  · cases q with
    | nil =>
        rw [List.append_nil] at hq
        rw [if_pos (by rw [hq])]
        have hrecv := recvMsg_received beyond buf [] hpl
        rwa [List.append_nil, hq] at hrecv
    | cons c q =>
        rw [if_neg (by rw [hq, List.length_append, List.length_cons]; omega)]
        exact recvMsg_piece hpl hq.symm hne (List.cons_ne_nil c q) hclear
  · rw [if_pos (by rw [List.length_append]; omega)]
    exact recvMsg_received beyond buf rest hpl

/-! ## What is done about it -/

/-- Nobody is logged in as user 0. -/
theorem Run.no_user_zero {w₀ w : World R} {trace : List (Step R)} (h₀ : WorkerStart w₀ ∨ ServerStart w₀) (h : AnyRun w₀ trace w)
    (outside : Int → Bool) : w.proc.loggedIn outside 0 = false := by
  have hclients : w₀.proc.clients = List.replicate (maxClients + 1) false := h₀.elim (·.clients) (·.clients)
  by_contra hflag
  obtain ⟨s, hs, c, hlogin⟩ := h.login_of_flag hclients ⟨Int.le_refl 0, by decide⟩ (Bool.eq_true_of_not_eq_false hflag)
  obtain ⟨-, -, hstep⟩ := h.of_mem hs
  obtain ⟨payload, hvalid⟩ := hlogin.valid hstep
  exact validateUser_ne_zero hvalid rfl

theorem Run.closes_noMessage {w₀ w : World R} {trace : List (Step R)} (h₀ : WorkerStart w₀ ∨ ServerStart w₀)
    (h : AnyRun w₀ trace w) {i : Nat} {fd : Conn} (hfd : w.connAt i = some fd) (a : Answers) :
    w.step (.message i noMessage a) = .ok (w.closeSocket fd) := by
  have hclients : w₀.proc.clients = List.replicate (maxClients + 1) false := h₀.elim (·.clients) (·.clients)
  have hin : w.readsClient noMessage.userId = w := World.readsClient_eq (h.inTable hclients ⟨Int.le_refl 0, by decide⟩)
  have hneeds : World.NeedsLogin noMessage := by decide
  simp only [World.step, hfd, World.handleMsg, hin]
  rw [if_pos ⟨h.no_user_zero h₀ a.outside, hneeds⟩]
  rfl

end CoEditor
