-- SUMMARY: The cursors of a worker's users over a run.
import CoEditor.Server.Sessions
import CoEditor.Session.Hosted
import CoEditor.Session.Slots

/-!
# Cursors of users

`FILE_REQUEST` creates the cursor of its user and `QUIT` frees it; edits leave
every cursor in its slot. Nothing else changes the buffer of a worker.
-/

namespace CoEditor

variable {R : Type} [Rope R]

/-- The call on the buffer that a message asks for. -/
inductive Message.Calls (msg : Message) : Op → Prop where
  | join : msg.type = MsgType.fileRequest.code → Calls msg (.copyOwn msg.userId)
  | leave : msg.type = MsgType.quit.code → Calls msg (.free msg.userId)
  | edit {op : Op} : msg.Asks op → Calls msg op

namespace Message

variable {msg : Message} {op op' : Op}

theorem Calls.type_ne (h : msg.Calls op) {t : MsgType}
    (ht : t ∉ [MsgType.fileRequest, .quit, .insert, .insertLine, .delete, .moveCursor]) : msg.type ≠ t.code := by
  rw [List.mem_cons, List.mem_cons, not_or, not_or] at ht
  cases h with
  | join h => exact MsgType.ne_code h (Ne.symm ht.1)
  | leave h => exact MsgType.ne_code h (Ne.symm ht.2.1)
  | edit h => exact h.type_ne ht.2.2

theorem Calls.needsLogin (h : msg.Calls op) : World.NeedsLogin msg := ⟨h.type_ne (by decide), h.type_ne (by decide)⟩

theorem Asks.editsAt (h : msg.Asks op) : op.EditsAt msg.userId := by
  cases h <;> rfl

/-- Two different types are not the type of one message. -/
theorem type_unique {t t' : MsgType} (h : msg.type = t.code) (h' : msg.type = t'.code) : t = t' :=
  MsgType.code_inj.mp (h.symm.trans h')

theorem Asks.inj (h : msg.Asks op) (h' : msg.Asks op') : op = op' := by
  cases h with
  | insert ht hpl =>
      cases h' with
      | insert ht' hpl' => rw [Option.some.inj (hpl.symm.trans hpl')]
      | insertLine ht' => cases type_unique ht ht'
      | del ht' => cases type_unique ht ht'
      | move ht' => cases type_unique ht ht'
  | insertLine ht =>
      cases h' with
      | insert ht' => cases type_unique ht ht'
      | insertLine ht' => rfl
      | del ht' => cases type_unique ht ht'
      | move ht' => cases type_unique ht ht'
  | del ht =>
      cases h' with
      | insert ht' => cases type_unique ht ht'
      | insertLine ht' => cases type_unique ht ht'
      | del ht' => rfl
      | move ht' => cases type_unique ht ht'
  | move ht hdir =>
      cases h' with
      | insert ht' => cases type_unique ht ht'
      | insertLine ht' => cases type_unique ht ht'
      | del ht' => cases type_unique ht ht'
      | move ht' hdir' => rw [Except.ok.inj (hdir.symm.trans hdir')]

/-- A message asks for one call at most. -/
theorem Calls.inj (h : msg.Calls op) (h' : msg.Calls op') : op = op' := by
  cases h with
  | join ht =>
      cases h' with
      | join => rfl
      | leave ht' => cases type_unique ht ht'
      | edit h' => exact absurd ht (h'.type_ne (by decide))
  | leave ht =>
      cases h' with
      | join ht' => cases type_unique ht ht'
      | leave => rfl
      | edit h' => exact absurd ht (h'.type_ne (by decide))
  | edit h =>
      cases h' with
      | join ht' => exact absurd ht' (h.type_ne (by decide))
      | leave ht' => exact absurd ht' (h.type_ne (by decide))
      | edit h' => exact h.inj h'

end Message

namespace World

/-- The event is a message of a user that is logged in, and asks for a call. -/
def Calls (w : World R) (ev : Event) (op : Op) : Prop :=
  ∃ i msg a fd, ev = .message i msg a ∧ w.connAt i = some fd ∧ w.proc.loggedIn a.outside msg.userId = true ∧
    msg.Calls op

variable {w w' : World R} {ev : Event}

/-- A step of a worker makes the call that is asked for, or leaves the buffer alone. -/
theorem step_buf (hmode : w.proc.mode = .worker) (h : w.step ev = .ok w') :
    (∃ op b b' res, w.Calls ev op ∧ w.proc.buf = some b ∧ op.run b = .ok (b', res) ∧ w'.proc.buf = some b') ∨
      (∀ op, ¬ w.Calls ev op) ∧ w'.proc.buf = w.proc.buf := by
  rcases step_cases h with ⟨i, msg, a, fd, rfl, hfd, h⟩ | ⟨hev, hidle⟩
  · have hcall : ∀ {op b b' res}, Admits a w msg → msg.Calls op → w.proc.buf = some b →
        op.run b = .ok (b', res) → w'.proc.buf = some b' →
        (∃ op b b' res, w.Calls (.message i msg a) op ∧ w.proc.buf = some b ∧ op.run b = .ok (b', res) ∧
          w'.proc.buf = some b') ∨ (∀ op, ¬ w.Calls (.message i msg a) op) ∧ w'.proc.buf = w.proc.buf := by
      intro op b b' res hadm hcalls hb hrun hb'
      have hflag := hadm.resolve_right fun h => h hcalls.needsLogin
      exact .inl ⟨op, b, b', res, ⟨i, msg, a, fd, rfl, hfd, hflag, hcalls⟩, hb, hrun, hb'⟩
    have hquiet : (w.proc.loggedIn a.outside msg.userId = true → ∀ op, ¬ msg.Calls op) → w'.proc.buf = w.proc.buf →
        (∃ op b b' res, w.Calls (.message i msg a) op ∧ w.proc.buf = some b ∧ op.run b = .ok (b', res) ∧
          w'.proc.buf = some b') ∨ (∀ op, ¬ w.Calls (.message i msg a) op) ∧ w'.proc.buf = w.proc.buf := by
      intro hno hbuf
      refine .inr ⟨?_, hbuf⟩
      rintro op ⟨i', msg', a', fd', he, hfd', hflag, hcalls⟩
      obtain ⟨rfl, rfl, rfl⟩ := Event.message.inj he
      exact hno hflag op hcalls
    rcases handleMsg_cases h with ⟨hno, rfl⟩ | ⟨hadm, ⟨hserver, -⟩ | ⟨-, h⟩⟩
    · exact hquiet (fun hflag => absurd (.inl hflag) hno) rfl
    · rw [hmode] at hserver
      cases hserver
    · cases handleWorker_does h with
      | login ht h =>
          refine hquiet (fun _ op hcalls => hcalls.type_ne (by decide) ht) ?_
          obtain ⟨u, -, ⟨-, list, proc, hproc, rfl⟩ | ⟨-, rfl⟩⟩ := login_cases h
          · obtain ⟨-, rfl⟩ := Proc.setClient_ok hproc
            rfl
          · rfl
      | join ht hb _ hrun => exact hcall hadm (.join ht) hb hrun rfl
      | leave ht hb hrun => exact hcall hadm (.leave ht) hb hrun rfl
      | edit hasks hb hrun => exact hcall hadm (.edit hasks) hb hrun rfl
      | ignore hts =>
          refine hquiet (fun _ op hcalls => ?_) rfl
          have hts : ∀ t ∈ [MsgType.fileRequest, .quit, .insert, .insertLine, .delete, .moveCursor], msg.type ≠ t.code :=
            fun t ht => hts t (List.mem_cons_of_mem _ ht)
          cases hcalls with
          | join ht => exact hts .fileRequest (by simp) ht
          | leave ht => exact hts .quit (by simp) ht
          | edit hasks =>
              cases hasks with
              | insert ht => exact hts .insert (by simp) ht
              | insertLine ht => exact hts .insertLine (by simp) ht
              | del ht => exact hts .delete (by simp) ht
              | move ht => exact hts .moveCursor (by simp) ht
  · refine .inr ⟨?_, hidle.buf⟩
    rintro op ⟨i, msg, a, fd, he, hfd, -⟩
    exact hev i msg a fd he hfd

omit [Rope R] in
/-- An event asks for one call at most. -/
theorem Calls.inj {op op' : Op} (h : w.Calls ev op) (h' : w.Calls ev op') : op = op' := by
  obtain ⟨i, msg, a, fd, rfl, -, -, hcalls⟩ := h
  obtain ⟨i', msg', a', fd', he, -, -, hcalls'⟩ := h'
  obtain ⟨rfl, rfl, rfl⟩ := Event.message.inj he
  exact hcalls.inj hcalls'

end World

/-! ## The buffer of a worker -/

theorem Message.Calls.by {msg : Message} {op : Op} (h : msg.Calls op) : op.By msg.userId := by
  cases h with
  | join | leave => rfl
  | edit h => exact h.editsAt.by

/-- A login as user `u` means that `u` is the id of an account. -/
theorem Step.LogsIn.valid {s : Step R} {fd : Conn} {u : Int} (h : s.LogsIn fd u)
    (hstep : s.pre.step s.event = .ok s.post) : ∃ payload, validateUser s.pre.disk payload = .ok u := by
  obtain ⟨msg, ⟨i, a, hev, hfd, list, hsent⟩, ht⟩ := h
  rw [hev] at hstep
  simp only [World.step, hfd, World.handleMsg_login ht] at hstep
  obtain ⟨v, hv, ⟨-, list', proc, -, hpost⟩ | ⟨-, hpost⟩⟩ := World.login_cases hstep
  · rw [hpost] at hsent
    have hsame := List.append_cancel_left hsent
    simp only [createMsg, List.cons.injEq, Prod.mk.injEq, Send.sendMsg.injEq, Message.mk.injEq] at hsame
    exact ⟨msg.payload, hsame.1.2.2.1 ▸ hv⟩
  · rw [hpost] at hsent
    have hsame := List.append_cancel_left hsent
    simp [createMsg] at hsame

/-- No `FILE_REQUEST` comes from a user that has a cursor. -/
def JoinsOnce (w : World R) (ev : Event) : Prop :=
  ∀ u b, w.Calls ev (.copyOwn u) → w.proc.buf = some b → ¬ HasCurs b u

section
variable {ok : World R → Event → Prop} {w₀ w w' : World R} {trace : List (Step R)} {u : Int} {ev : Event} {op : Op}

/-- The own cursor of the buffer belongs to no user. -/
theorem Run.calls_user (hclients : w₀.proc.clients = List.replicate (maxClients + 1) false) (h : Run ok w₀ trace w)
    (hcalls : w.Calls ev op) : ∃ u, op.By u ∧ u ≠ 0 := by
  obtain ⟨i, msg, a, fd, -, -, hflag, hcalls⟩ := hcalls
  refine ⟨msg.userId, hcalls.by, fun h0 => ?_⟩
  rw [h0] at hflag
  obtain ⟨s, hs, c, hlogin⟩ := h.login_of_flag hclients ⟨Int.le_refl 0, by decide⟩ hflag
  obtain ⟨-, -, hstep⟩ := h.of_mem hs
  obtain ⟨payload, hvalid⟩ := hlogin.valid hstep
  exact validateUser_ne_zero hvalid rfl

/-- As long as nobody joins twice, the buffer of a worker is one of those studied above. -/
theorem Run.hosted_of (hmode : w₀.proc.mode = .worker) (hclients : w₀.proc.clients = List.replicate (maxClients + 1) false)
    (hok : ∀ w ev, ok w ev → JoinsOnce w ev) (hbuf : ∀ b, w₀.proc.buf = some b → Hosted b) (h : Run ok w₀ trace w) :
    ∀ b, w.proc.buf = some b → Hosted b := by
  induction h with
  | init => exact hbuf
  | @step trace w w' ev hrun _ hev hstep ih =>
      intro b' hb'
      rcases World.step_buf (hrun.frame.1.trans hmode) hstep with ⟨op, b, b'', res, hcalls, hb, hcall, hpost⟩ | ⟨-, hsame⟩
      · obtain rfl := Option.some.inj (hpost.symm.trans hb')
        obtain ⟨u, hby, hu⟩ := hrun.calls_user hclients hcalls
        refine .step (ih b hb) hby hu ?_ hcall
        cases op with
        | new => exact hby.elim
        | copyOwn => exact hok w ev hev _ b hcalls hb
        | free | move | insert | insertLine | del => trivial
      · exact ih b' (hsame ▸ hb')

theorem Run.hosted (h₀ : WorkerStart w₀) (hok : ∀ w ev, ok w ev → JoinsOnce w ev) (h : Run ok w₀ trace w) :
    ∀ b, w.proc.buf = some b → Hosted b := by
  refine h.hosted_of h₀.mode h₀.clients hok fun b hb => ?_
  obtain ⟨name, fileId, hload⟩ := h₀.buf
  unfold loadBuffer at hload
  split at hload
  · rw [hb] at hload
    cases hload
  · obtain ⟨b', hrun, hb'⟩ := Except.map_eq_ok.mp hload
    rw [hb] at hb'
    obtain rfl := Option.some.inj hb'
    exact .load (by decide) hrun

end

/-! ## One cursor for each user -/

/-- The slot with the cursor that the latest `FILE_REQUEST` of user `u` created, as long as there is no `QUIT`
    of `u` after it. -/
inductive CursorOf (u : Int) : List (Step R) → Option CursRef → Prop where
  | start : CursorOf u [] none
  | join {s : Step R} {trace : List (Step R)} {b : Buffer R} : s.pre.Calls s.event (.copyOwn u) →
      s.pre.proc.buf = some b → CursorOf u (s :: trace) b.freeSlot
  | leave {s : Step R} {trace : List (Step R)} : s.pre.Calls s.event (.free u) → CursorOf u (s :: trace) none
  | keep {s : Step R} {trace : List (Step R)} {ref : Option CursRef} : ¬ s.pre.Calls s.event (.copyOwn u) →
      ¬ s.pre.Calls s.event (.free u) → CursorOf u trace ref → CursorOf u (s :: trace) ref

omit [Rope R] in
theorem CursorOf.unique {u : Int} {trace : List (Step R)} {ref ref' : Option CursRef} (h : CursorOf u trace ref)
    (h' : CursorOf u trace ref') : ref = ref' := by
  induction h with
  | start => cases h'; rfl
  | join hcalls hb =>
      cases h' with
      | join _ hb' => rw [Option.some.inj (hb.symm.trans hb')]
      | leave hleave => cases hcalls.inj hleave
      | keep hno => exact absurd hcalls hno
  | leave hcalls =>
      cases h' with
      | join hjoin => cases hcalls.inj hjoin
      | leave => rfl
      | keep _ hno => exact absurd hcalls hno
  | keep hjoin hleave _ ih =>
      cases h' with
      | join hcalls => exact absurd hcalls hjoin
      | leave hcalls => exact absurd hcalls hleave
      | keep _ _ h' => exact ih h'

/-- In this step user `u` is sent a snapshot, and the own cursor of every copy made from it stands where the new
    cursor of `u` does. -/
def Step.StartsTogether (s : Step R) (u : Int) : Prop :=
  ∃ fd fileId version snap rest b, s.post.sent = s.pre.sent ++
      (fd, .sendMsg (createMsg .fileResponse u fileId version (some snap))) :: rest ∧
    s.post.proc.buf = some b ∧
    ∀ ref cur ui (b' : Buffer R), bcursorFind b u = .ok (some ref) → b.curs ref = .ok cur →
      bufferDeserialize snap ui = .ok b' → b'.ownCurs.map b'.curs? = some (0, (b.curs? cur).2)

section
variable {ok : World R → Event → Prop} {w₀ w w' : World R} {trace : List (Step R)} {u : Int} {ev : Event}

/-- A buffer that was just loaded has no cursor but its own. -/
theorem loadBuffer_find {d : Disk} {name : Option Bytes} {fileId : Int} {b : Buffer R}
    (h : loadBuffer d name fileId = .ok (some b)) (hu : u ≠ 0) : bcursorFind b u = .ok none := by
  unfold loadBuffer at h
  split at h
  · cases h
  · obtain ⟨b', hrun, hb'⟩ := Except.map_eq_ok.mp h
    obtain rfl := Option.some.inj hb'
    obtain ⟨b'', hrun', p, hrep, -, hdoc⟩ := bufferFromFile_exact (R := R) _ fileId workerWidth (n := 20) (by decide) false
    obtain rfl := Except.ok.inj (hrun.symm.trans hrun')
    rw [hrep.bcursorFind, Page.find_eq_none.mpr (Page.doc_curs_eq_none.mp ?_)]
    rw [hdoc]
    exact (Doc.load_curs ..).2 u hu

theorem Run.cursorOf (h₀ : WorkerStart w₀) (hok : ∀ w ev, ok w ev → JoinsOnce w ev) (h : Run ok w₀ trace w)
    (hu : u ≠ 0) : ∀ b, w.proc.buf = some b → ∃ ref, CursorOf u trace ref ∧ bcursorFind b u = .ok ref := by
  induction h with
  | init =>
      intro b hb
      obtain ⟨name, fileId, hload⟩ := h₀.buf
      exact ⟨none, .start, loadBuffer_find (hb ▸ hload) hu⟩
  | @step trace w w' ev hrun _ hev hstep ih =>
      intro b' hb'
      rcases World.step_buf (hrun.frame.1.trans h₀.mode) hstep with
        ⟨op, b, b'', res, hcalls, hb, hcall, hpost⟩ | ⟨hno, hsame⟩
      · obtain rfl := Option.some.inj (hpost.symm.trans hb')
        obtain ⟨v, hby, hv⟩ := hrun.calls_user h₀.clients hcalls
        obtain ⟨ref, hof, hfind⟩ := ih b hb
        have hreach := (hrun.hosted h₀ hok b hb).reachable
        have hkeep : op ≠ .copyOwn u → op ≠ .free u → CursorOf u (⟨w, ev, w'⟩ :: trace) ref := fun h₁ h₂ =>
          .keep (fun h => h₁ (hcalls.inj h)) (fun h => h₂ (hcalls.inj h)) hof
        have hedit : op.EditsAt v → ∃ ref, CursorOf u (⟨w, ev, w'⟩ :: trace) ref ∧ bcursorFind b'' u = .ok ref := by
          intro hop
          refine ⟨ref, hkeep ?_ ?_, (hreach.find_edit hop hcall u).trans hfind⟩
          · rintro rfl
            exact hop
          · rintro rfl
            exact hop
        cases op with
        | new => exact hby.elim
        | copyOwn i =>
            obtain rfl : i = v := hby
            have hfind' := hreach.find_join hv (hok w ev hev i b hcalls hb) hcall u
            by_cases huv : u = i
            · subst huv
              exact ⟨_, .join hcalls hb, hfind'.trans (if_pos rfl)⟩
            · refine ⟨ref, hkeep ?_ (by simp), hfind'.trans ((if_neg huv).trans hfind)⟩
              simpa using Ne.symm huv
        | free i =>
            obtain rfl : i = v := hby
            have hfind' := hreach.find_leave hv hcall u
            by_cases huv : u = i
            · subst huv
              exact ⟨none, .leave hcalls, hfind'.trans (if_pos rfl)⟩
            · refine ⟨ref, hkeep (by simp) ?_, hfind'.trans ((if_neg huv).trans hfind)⟩
              simpa using Ne.symm huv
        | move | insert | insertLine | del => exact hedit hby
      · obtain ⟨ref, hof, hfind⟩ := ih b' (hsame ▸ hb')
        exact ⟨ref, .keep (hno _) (hno _) hof, hfind⟩

/-- A join sends the snapshot of the buffer that the new cursor is put into. -/
theorem World.step_join (hmode : w.proc.mode = .worker) (hcalls : w.Calls ev (.copyOwn u)) (h : w.step ev = .ok w') :
    ∃ fd fileId version snap rest b b' res, w.proc.buf = some b ∧ bufferSerialize b = .ok snap ∧
      Op.run b (.copyOwn u) = .ok (b', res) ∧ w'.proc.buf = some b' ∧ w'.sent = w.sent ++
        (fd, .sendMsg (createMsg .fileResponse u fileId version (some snap))) :: rest := by
  obtain ⟨i, msg, a, fd, rfl, hfd, hflag, hcalls⟩ := hcalls
  simp only [World.step, hfd] at h
  have hid : msg.userId = u := hcalls.by.symm
  cases World.handleMsg_worker_does hmode hflag h with
  | login ht => exact absurd ht (hcalls.type_ne (by decide))
  | @join b b' snap res ht hb hs hrun =>
      rw [hid] at hrun
      refine ⟨fd, msg.fileId, msg.fileVersion, snap, (w.others fd).map fun c =>
        (c, .sendMsgWithoutDelete (createMsg .addCursor msg.userId msg.fileId msg.fileVersion none)),
        b, b', res, hb, hs, hrun, rfl, ?_⟩
      rw [← hid]
      exact List.append_assoc w.sent _ _
  | leave ht => cases hcalls.inj (.leave ht)
  | edit hasks =>
      obtain rfl := hcalls.inj (.edit hasks)
      exact hasks.editsAt.elim
  | ignore hts =>
      cases hcalls with
      | join ht => exact absurd ht (hts .fileRequest (by simp))
      | edit hasks => exact hasks.editsAt.elim

theorem Run.startsTogether (h₀ : WorkerStart w₀) (hok : ∀ w ev, ok w ev → JoinsOnce w ev) (h : Run ok w₀ trace w)
    (hev : ok w ev) (hcalls : w.Calls ev (.copyOwn u)) (hstep : w.step ev = .ok w') :
    (⟨w, ev, w'⟩ : Step R).StartsTogether u := by
  obtain ⟨fd, fileId, version, snap, rest, b, b', res, hb, hs, hrun, hb', hsent⟩ :=
    World.step_join (h.frame.1.trans h₀.mode) hcalls hstep
  obtain ⟨v, rfl, hu⟩ := h.calls_user h₀.clients hcalls
  have hreach := (h.hosted h₀ hok b hb).reachable
  refine ⟨fd, fileId, version, snap, rest, b', hsent, hb', fun ref cur ui copy href hcur hcopy => ?_⟩
  rw [(hreach.sameDocument hs hcopy).own]
  exact hreach.join_place hu (hok w ev hev _ b hcalls hb) hrun href hcur

/-- As long as nobody asks for the file who has a cursor in it, each user has one cursor, the one that was created
    last for it, and starts where its own copy does. -/
theorem one_cursor_per_user (h₀ : WorkerStart w₀) (h : Run JoinsOnce w₀ trace w) :
    (∀ b, w.proc.buf = some b → b.DistinctPeers ∧
      ∀ u, u ≠ 0 → ∀ ref, bcursorFind b u = .ok ref ↔ CursorOf u trace ref) ∧
    ∀ s ∈ trace, ∀ u, s.pre.Calls s.event (.copyOwn u) → s.StartsTogether u := by
  refine ⟨fun b hb => ⟨(h.hosted h₀ (fun _ _ h => h) b hb).reachable.distinctPeers, fun u hu ref => ?_⟩, ?_⟩
  · obtain ⟨ref', hof, hfind⟩ := h.cursorOf h₀ (fun _ _ h => h) hu b hb
    rw [hfind, Except.ok.injEq]
    constructor
    · rintro rfl
      exact hof
    · exact hof.unique
  · induction h with
    | init => simp
    | @step trace w w' ev hrun _ hev hstep ih =>
        intro s hs u hcalls
        rcases List.mem_cons.mp hs with rfl | hs
        · exact hrun.startsTogether h₀ (fun _ _ h => h) hev hcalls hstep
        · exact ih s hs u hcalls

end

/-- Anna asks for the document. -/
def annaRequest : Message := createMsg .fileRequest 1 1 0 none

/-- The buffer of the example with one cursor and with two cursors of Anna. -/
theorem demo_joins : ∃ b b₁ b₂ : Buffer ListRope, ∃ s s₁ res res₁,
    bufferFromFile (bytes "ab") 1 workerHeight workerWidth false = .ok b ∧ ¬ HasCurs b 1 ∧
    bufferSerialize b = .ok s ∧ Op.run b (.copyOwn 1) = .ok (b₁, res) ∧
    bufferSerialize b₁ = .ok s₁ ∧ Op.run b₁ (.copyOwn 1) = .ok (b₂, res₁) ∧ b₁.freeSlot = some (.peer 1) ∧
    bcursorFind b₂ 1 = .ok (some (.peer 0)) ∧ (b₂.peerCurss.take 2).map (·.map Cursor.id) = [some 1, some 1] := by
  have htest : returns (bufferFromFile (R := ListRope) (bytes "ab") 1 workerHeight workerWidth false) (fun b =>
      decide (¬ HasCurs b 1 ∧ b.Fits) && returns (Op.run b (.copyOwn 1)) fun x =>
        decide (x.1.Fits ∧ x.1.freeSlot = some (.peer 1)) && returns (Op.run x.1 (.copyOwn 1)) fun y =>
          decide (bcursorFind y.1 1 = .ok (some (.peer 0)) ∧
            (y.1.peerCurss.take 2).map (·.map Cursor.id) = [some 1, some 1])) = true := by
    decide +kernel
  obtain ⟨b, hb, htest⟩ := exists_of_returns htest
  obtain ⟨hno, htest⟩ := (Bool.and_eq_true _ _).mp htest
  obtain ⟨hno, hfits⟩ := of_decide_eq_true hno
  obtain ⟨⟨b₁, res⟩, hrun, htest⟩ := exists_of_returns htest
  obtain ⟨hslot, htest⟩ := (Bool.and_eq_true _ _).mp htest
  obtain ⟨hfits₁, hslot⟩ := of_decide_eq_true hslot
  obtain ⟨⟨b₂, res₁⟩, hrun₁, htest⟩ := exists_of_returns htest
  obtain ⟨hfind, htwo⟩ := of_decide_eq_true htest
  have hreach : Reachable b := .load (by decide) hb
  obtain ⟨-, s, -, -, -, hs, -, -⟩ := hreach.restored hfits true
  obtain ⟨-, s₁, -, -, -, hs₁, -, -⟩ := (hreach.step (show Op.Legal (HasCurs b) (.copyOwn 1) from hno) trivial hrun).restored hfits₁ true
  exact ⟨b, b₁, b₂, s, s₁, res, res₁, hb, hno, hs, hrun, hs₁, hrun₁, hslot, hfind, htwo⟩

section
variable {w : World ListRope} {b b' : Buffer ListRope} {i : Nat} {c : Conn} {s : Bytes} {res : Bres}

/-- Anna joins over the connection in slot `i`. -/
theorem anna_joins (hmode : w.proc.mode = .worker) (hflag : w.proc.loggedIn demoAnswers.outside 1 = true)
    (hfd : w.connAt i = some c) (hbuf : w.proc.buf = some b) (hs : bufferSerialize b = .ok s)
    (hrun : Op.run b (.copyOwn 1) = .ok (b', res)) :
    w.step (.message i annaRequest demoAnswers) = .ok
      ((((w.readsClient 1).sendMsg c (createMsg .fileResponse 1 1 0 (some s))).setBuf b').sendMsgEveryone c
        (createMsg .addCursor 1 1 0 none)) := by
  have hstep : w.handleMsg demoAnswers c annaRequest = _ := World.handleMsg_admitted (.inl hflag)
  simp only [hmode] at hstep
  rw [World.handleWorker_join rfl (by exact hbuf) hs (by exact hrun)] at hstep
  simp only [World.step, hfd]
  exact hstep

theorem anna_calls (hflag : w.proc.loggedIn demoAnswers.outside 1 = true) (hfd : w.connAt i = some c) :
    w.Calls (.message i annaRequest demoAnswers) (.copyOwn 1) := ⟨i, annaRequest, demoAnswers, c, rfl, hfd, hflag, .join rfl⟩

theorem joinsOnce_anna (hflag : w.proc.loggedIn demoAnswers.outside 1 = true) (hfd : w.connAt i = some c)
    (hbuf : w.proc.buf = some b) (hno : ¬ HasCurs b 1) : JoinsOnce w (.message i annaRequest demoAnswers) := by
  intro u b' hcalls hb'
  obtain rfl := Option.some.inj (hb'.symm.trans hbuf)
  cases hcalls.inj (anna_calls hflag hfd)
  exact hno

theorem joinsOnce_quiet {ev : Event} (h : ∀ i msg a, ev = .message i msg a → msg = annaLogin) : JoinsOnce w ev := by
  rintro u b ⟨i, msg, a, fd, rfl, -, -, hcalls⟩
  obtain rfl := h i msg a rfl
  exact absurd rfl (hcalls.type_ne (t := .login) (by decide))

end

/-- A worker after Anna has logged in. -/
theorem demo_login_run (b : Buffer ListRope) : ∃ w trace, Run JoinsOnce (demoWorld .worker demoDisk (some b)) trace w ∧
    w.proc.mode = .worker ∧ w.proc.buf = some b ∧ w.proc.loggedIn demoAnswers.outside 1 = true ∧
    w.connAt 0 = some 0 := by
  have h₁ : Run JoinsOnce (demoWorld .worker demoDisk (some b)) (⟨_, .accept 0, _⟩ :: []) _ :=
    .step .init (by show 0 ∉ []; decide) (joinsOnce_quiet (by simp)) rfl
  have h₂ : Run JoinsOnce (demoWorld .worker demoDisk (some b)) (⟨_, .message 0 annaLogin demoAnswers, _⟩ :: _) _ :=
    .step h₁ trivial (joinsOnce_quiet fun i msg a he => (Event.message.inj he).2.1.symm) (anna_logsIn rfl rfl rfl)
  exact ⟨_, _, h₂, rfl, rfl, rfl, rfl⟩

/-- Anna logs in and asks for the document: her cursor is in the first slot. -/
theorem one_cursor_per_user_demo : ∃ (b b₁ : Buffer ListRope) (w : World ListRope) (trace : List (Step ListRope)),
    Run JoinsOnce (demoWorld .worker demoDisk (some b)) trace w ∧ w.proc.buf = some b₁ ∧ b₁.DistinctPeers ∧
    (∀ u, u ≠ 0 → ∀ ref, bcursorFind b₁ u = .ok ref ↔ CursorOf u trace ref) ∧
    ∀ s ∈ trace, ∀ u, s.pre.Calls s.event (.copyOwn u) → s.StartsTogether u := by
  obtain ⟨b, b₁, -, s, -, res, -, hb, hno, hs, hrun, -⟩ := demo_joins
  obtain ⟨w, trace, h₂, hmode, hbuf, hflag, hfd⟩ := demo_login_run b
  have h₃ : Run JoinsOnce (demoWorld .worker demoDisk (some b)) (⟨_, .message 0 annaRequest demoAnswers, _⟩ :: _) _ :=
    .step h₂ trivial (joinsOnce_anna hflag hfd hbuf hno) (anna_joins hmode hflag hfd hbuf hs hrun)
  obtain ⟨hbuf, hjoin⟩ := one_cursor_per_user (demoWorld_worker hb) h₃
  obtain ⟨hdistinct, hfind⟩ := hbuf b₁ rfl
  exact ⟨b, b₁, _, _, h₃, rfl, hdistinct, hfind, hjoin⟩

/-- Anna's connection is lost, and she logs in and asks for the document again: then she has two cursors, and the
    worker goes on with the old one. -/
theorem two_cursors_after_reconnect : ∃ (b b₂ : Buffer ListRope) (w : World ListRope) (trace : List (Step ListRope)),
    WorkerStart (demoWorld .worker demoDisk (some b)) ∧ AnyRun (demoWorld .worker demoDisk (some b)) trace w ∧
    w.proc.buf = some b₂ ∧ ¬ b₂.DistinctPeers ∧ bcursorFind b₂ 1 = .ok (some (.peer 0)) ∧
    CursorOf 1 trace (some (.peer 1)) := by
  obtain ⟨b, b₁, b₂, s, s₁, res, res₁, hb, -, hs, hrun, hs₁, hrun₁, hslot, hfind, htwo⟩ := demo_joins
  have h₁ : AnyRun (demoWorld .worker demoDisk (some b)) (⟨_, .accept 0, _⟩ :: []) _ :=
    .step .init (by show 0 ∉ []; decide) trivial rfl
  have h₂ : AnyRun (demoWorld .worker demoDisk (some b)) (⟨_, .message 0 annaLogin demoAnswers, _⟩ :: _) _ :=
    .step h₁ trivial trivial (anna_logsIn rfl rfl rfl)
  have h₃ : AnyRun (demoWorld .worker demoDisk (some b)) (⟨_, .message 0 annaRequest demoAnswers, _⟩ :: _) _ :=
    .step h₂ trivial trivial (anna_joins (c := 0) rfl rfl rfl rfl hs hrun)
  have h₄ : AnyRun (demoWorld .worker demoDisk (some b)) (⟨_, .hangup 0, _⟩ :: _) _ := .step h₃ trivial trivial rfl
  have h₅ : AnyRun (demoWorld .worker demoDisk (some b)) (⟨_, .accept 1, _⟩ :: _) _ :=
    .step h₄ (by show 1 ∉ [0]; decide) trivial rfl
  have h₆ : AnyRun (demoWorld .worker demoDisk (some b)) (⟨_, .message 0 annaLogin demoAnswers, _⟩ :: _) _ :=
    .step h₅ trivial trivial (anna_logsIn rfl rfl rfl)
  have h₇ : AnyRun (demoWorld .worker demoDisk (some b)) (⟨_, .message 0 annaRequest demoAnswers, _⟩ :: _) _ :=
    .step h₆ trivial trivial (anna_joins (c := 1) rfl rfl rfl rfl hs₁ hrun₁)
  refine ⟨b, b₂, _, _, demoWorld_worker hb, h₇, rfl, fun hdistinct => ?_, hfind, hslot ▸ .join (anna_calls (c := 1) rfl rfl) rfl⟩
  have hslot : ∀ i, i < 2 → ∃ c, b₂.peerCurss[i]? = some (some c) ∧ c.id = 1 := by
    intro i hi
    have hget := congrArg (·[i]?) htwo
    have hone : [some (1 : Int), some 1][i]? = some (some 1) := by
      rcases Nat.lt_or_ge i 1 with h | h
      · obtain rfl : i = 0 := by omega
        rfl
      · obtain rfl : i = 1 := by omega
        rfl
    simp only [List.getElem?_map, List.getElem?_take_of_lt hi, hone, Option.map_eq_some_iff] at hget
    obtain ⟨o, ho, c, rfl, hc⟩ := hget
    exact ⟨c, ho, hc⟩
  obtain ⟨c, hc, hid⟩ := hslot 0 (by decide)
  obtain ⟨c', hc', hid'⟩ := hslot 1 (by decide)
  exact absurd (hdistinct 0 1 c c' hc hc' (hid.trans hid'.symm)) (by decide)

end CoEditor
