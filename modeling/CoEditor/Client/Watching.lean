-- SUMMARY: A client that joins a worker and carries out what it is sent shows the worker's document.
import CoEditor.Client.Joining
import CoEditor.Client.Network
import CoEditor.Server.Sheets

/-!
# Watching

A user joins and only watches while the others go on. Everything the worker
puts on the connection from then on, the snapshot first, keeps the buffer of
the client in step with that of the worker.
-/

namespace CoEditor

variable {R : Type} [Rope R]

/-- In this step user `u` asks for the file over connection `c`. -/
def Step.Joins (s : Step R) (c : Conn) (u : Int) : Prop :=
  ∃ i msg a, s.event = .message i msg a ∧ s.pre.connAt i = some c ∧ s.pre.proc.loggedIn a.outside msg.userId = true ∧
    msg.type = MsgType.fileRequest.code ∧ msg.userId = u

/-- The payload is text. -/
def Message.IsText (msg : Message) : Prop := ∀ pl, msg.payload = some pl → (Utf8.decode pl).isSome

instance (msg : Message) : Decidable msg.IsText :=
  decidable_of_iff (∀ pl ∈ msg.payload, (Utf8.decode pl).isSome) Iff.rfl

/-- Nothing comes over connection `c`, nobody else acts as user `u`, and the payloads of the others are text. -/
structure Step.Leaves (s : Step R) (c : Conn) (u : Int) : Prop where
  quiet : ¬ s.pre.Sender s.event c
  alone : ∀ e, s.pre.entry s.event = some e → e.msg.userId ≠ u
  text : ∀ e, s.pre.entry s.event = some e → e.msg.IsText

instance (s : Step R) (c : Conn) (u : Int) : Decidable (s.Joins c u) :=
  match hev : s.event with
  | .message i msg a => decidable_of_iff (s.pre.connAt i = some c ∧ s.pre.proc.loggedIn a.outside msg.userId = true ∧
      msg.type = MsgType.fileRequest.code ∧ msg.userId = u)
      ⟨fun h => ⟨i, msg, a, hev, h⟩, fun ⟨_, _, _, he, h⟩ => by
        obtain ⟨rfl, rfl, rfl⟩ := Event.message.inj (hev.symm.trans he)
        exact h⟩
  | .accept _ | .hangup _ | .eof _ | .files _ | .gone _ => .isFalse (by
      rintro ⟨_, _, _, he, _⟩
      cases hev.symm.trans he)

instance (s : Step R) (c : Conn) (u : Int) : Decidable (s.Leaves c u) :=
  decidable_of_iff (¬ s.pre.Sender s.event c ∧ (∀ e ∈ s.pre.entry s.event, e.msg.userId ≠ u) ∧
    ∀ e ∈ s.pre.entry s.event, e.msg.IsText) ⟨fun ⟨h, h', h''⟩ => ⟨h, h', h''⟩, fun ⟨h, h', h''⟩ => ⟨h, h', h''⟩⟩

/-- The client after it has handled these messages; its user presses no key. -/
def Editor.watch (e : Editor R) (msgs : List Message) : Except Fault (Editor R) :=
  msgs.foldlM (fun e msg => Prod.fst <$> e.handleMsg msg) e

/-! ## The messages of a connection -/

section
variable {w w' : World R} {ev : Event} {fd c : Conn}

/-- What is sent to someone who joins. -/
theorem World.handleMsg_join {a : Answers} {msg : Message} (hmode : w.proc.mode = .worker)
    (hflag : w.proc.loggedIn a.outside msg.userId = true) (ht : msg.type = MsgType.fileRequest.code)
    (h : w.handleMsg a fd msg = .ok w') : ∃ b b' s res, w.proc.buf = some b ∧ bufferSerialize b = .ok s ∧
      Op.run b (.copyOwn msg.userId) = .ok (b', res) ∧ w'.proc.buf = some b' ∧
      w.Sends w' fd [createMsg .fileResponse msg.userId msg.fileId msg.fileVersion (some s)]
        [createMsg .addCursor msg.userId msg.fileId msg.fileVersion none] := by
  cases handleMsg_worker_does hmode hflag h with
  | login ht' => cases Message.type_unique ht ht'
  | join _ hb hs hrun =>
      exact ⟨_, _, _, _, hb, hs, hrun, rfl, by simp [Sends, sendMsg, sendMsgEveryone, setBuf, readsClient, others]⟩
  | leave ht' => cases Message.type_unique ht ht'
  | edit hasks => exact absurd ht (hasks.type_ne (by decide))
  | ignore hts => exact absurd ht (hts .fileRequest (by simp))

end

/-! ## One message -/

section
variable {E E' : Editor R} {msg : Message} {op : Op} {C : Buffer R} {f : Line R} {out : List Message}

theorem Message.IsText.news (hcalls : msg.Calls op) (htext : msg.IsText) : msg.news.IsText := by
  cases hcalls with
  | join ht =>
      simp only [Message.news, ht, MsgType.ofCode_code]
      intro pl h
      cases h
  | leave ht =>
      simp only [Message.news, ht, MsgType.ofCode_code]
      intro pl h
      cases h
  | edit hasks => rwa [hasks.news_eq]

/-- Whenever one `recv` returns the whole message, alone or with what comes after it, it is received as it was sent. A payload
    is a string of C, so there is no NUL in it. -/
def Message.Arrives (msg : Message) : Prop :=
  ∀ beyond buf rest, (∀ pl, msg.payload = some pl → (0 : UInt8) ∉ pl) → (serializeMsg msg ++ rest).length ≤ magicNumber →
    ∃ buf', recvMsg beyond buf (serializeMsg msg ++ rest) = .ok (buf', some msg)

theorem Message.IsText.arrives (htext : msg.IsText) : msg.Arrives := by
  intro beyond buf rest hpl _
  have hsend : msg.Sendable := fun pl h => ⟨hpl pl h, htext pl h⟩
  obtain ⟨buf', hrecv⟩ := recvMsg_received beyond buf rest hpl
  exact ⟨buf', by rw [hrecv, hsend.received]⟩

/-- What the worker tells a client of a call of somebody else, the client carries out. -/
theorem Editor.handleMsg_news (hcalls : msg.Calls op) (hother : msg.userId ≠ E.userId) (hC : E.b = some C)
    (hf : C.line C.first = .ok f) (h : E.handleMsg msg.news = .ok (E', out)) :
    ∃ C' res, (op.atClient E.userId f.id).run C = .ok (C', res) ∧ E' = { E with b := some C' } := by
  have hmap : ∀ {op}, (·, ([] : List Message)) <$> E.onBuf op = .ok (E', out) →
      ∃ C' res, op.run C = .ok (C', res) ∧ E' = { E with b := some C' } := by
    intro op h
    obtain ⟨-, b, b', res, hb, hrun, rfl⟩ := map_onBuf_cases h
    obtain rfl := Option.some.inj (hC.symm.trans hb)
    exact ⟨b', res, hrun, rfl⟩
  cases hcalls with
  | join ht =>
      simp only [Message.news, ht, MsgType.ofCode_code, createMsg, handleMsg, addCursor, hC, hf, Except.ok_bind_eq] at h
      rw [if_pos (Ne.symm hother)] at h
      simp only [Op.atClient, clientId_ne hother]
      exact hmap h
  | leave ht =>
      simp only [Message.news, ht, MsgType.ofCode_code, createMsg, handleMsg] at h
      simp only [Op.atClient, clientId_ne hother]
      exact hmap h
  | edit hasks =>
      rw [hasks.news_eq] at h
      obtain ⟨-, b, b', res, hb, hrun, rfl⟩ := handleMsg_edit hasks h
      obtain rfl := Option.some.inj (hC.symm.trans hb)
      refine ⟨b', res, ?_, rfl⟩
      cases hasks with
      | insert | insertLine | del | move => simpa only [Op.atClient, clientId_ne hother] using hrun

end

/-! ## A run -/

theorem Editor.watch_concat {E E' : Editor R} {msgs : List Message} {msg : Message} (h : E.watch (msgs ++ [msg]) = .ok E') :
    ∃ E₁ out, E.watch msgs = .ok E₁ ∧ E₁.handleMsg msg = .ok (E', out) := by
  rw [watch, List.foldlM_append] at h
  obtain ⟨E₁, hE₁, h⟩ := Except.bind_eq_ok.mp h
  rw [List.foldlM_cons] at h
  obtain ⟨E₂, hE₂, h⟩ := Except.bind_eq_ok.mp h
  obtain ⟨x, hx, rfl⟩ := Except.map_eq_ok.mp hE₂
  obtain rfl := Except.ok.inj h
  exact ⟨E₁, x.2, hE₁, hx⟩

/-- The buffer of the worker, and that of client `u` if it has survived, after the messages `msgs` were put on its
    connection. -/
structure Watched (w : World R) (E : Editor R) (u : Int) (msgs : List Message) (S : Buffer R) : Prop where
  buf : w.proc.buf = some S
  present : HasCurs S u
  text : ∀ msg ∈ msgs, msg.IsText
  mirrored : ∀ E', E.watch msgs = .ok E' → E'.userId = u ∧ ∃ C d e, E'.b = some C ∧
    Reached (fun b op => op.KeepsRange b) C ∧ Mirrored u S C d e

namespace Mirrored

variable {S C : Buffer R} {u v : Int} {d e : Doc R} {op : Op}

/-- What the two buffers show, once the user has a cursor. -/
theorem sheet (h : Mirrored u S C d e) (hu : HasCurs S u) : C.sheet (clientId u) = S.sheet id := by
  rw [h.client.sheet, h.worker.sheet]
  ext1
  · exact h.swapped.width
  · show e.texts = d.texts
    rw [Doc.texts_eq, Doc.texts_eq, h.swapped.content, h.swapped.last]
  · funext v
    show (if v = 0 then none else e.curs (clientId u v)) = if v = 0 then none else d.curs v
    split
    · rfl
    · next hv =>
        by_cases hvu : v = u
        · subst hvu
          rw [clientId_self, h.swapped.own ((h.worker.hasCurs v).mp hu)]
        · rw [clientId_ne hvu, h.swapped.curs v hv hvu]

/-- What is legal at the worker is legal at the client. -/
theorem legal (h : Mirrored u S C d e) (hby : op.By v) (hv : v ≠ 0) (hvu : v ≠ u) (hlegal : op.Legal (HasCurs S)) (first : Int) :
    (op.atClient u first).Legal (HasCurs C) := by
  cases op with
  | new => exact hby.elim
  | copyOwn i =>
      obtain rfl : i = v := hby
      show ¬ HasCurs C (clientId u i)
      rw [clientId_ne hvu, h.client.hasCurs, h.swapped.curs i hv hvu, ← h.worker.hasCurs]
      exact hlegal
  | free | move | insert | insertLine | del => trivial

end Mirrored

theorem Op.keepsRange_atClient {op : Op} {v : Int} (hby : op.By v) (hascii : op.TypesAscii) (u first : Int) (C : Buffer R) :
    (op.atClient u first).KeepsRange C := by
  cases op with
  | new => exact hby.elim
  | copyOwn => exact fun t _ => ⟨Int.le_refl 0, Int.natCast_nonneg _⟩
  | insert => exact .inl hascii
  | free | move | insertLine | del => trivial

section
variable {w₀ w w' : World R} {trace : List (Step R)} {ev : Event} {c : Conn} {u : Int} {E : Editor R} {msgs : List Message} {S : Buffer R}

/-- A step in which the client only watches. -/
theorem Watched.step (h : Watched w E u msgs S) (h₀ : WorkerStart w₀) (hrun : Run Event.Orderly w₀ trace w) (hev : ev.Orderly w)
    (hstep : w.step ev = .ok w') (hattended : Attended S) (hleaves : (⟨w, ev, w'⟩ : Step R).Leaves c u) {j : Nat}
    (hc : w.connAt j = some c) : ∃ news S', w'.inbox c = w.inbox c ++ news ∧ Watched w' E u (msgs ++ news) S' := by
  have hpolled := hrun.polled h₀.pollList h₀.closed
  rcases World.step_entry (hrun.frame.1.trans h₀.mode) hstep with
    ⟨e, S₁, S', res, replies, he, hS₁, hcall, hS', hsends⟩ | ⟨-, hsame, fd, replies, hsender, hsends⟩
  · obtain rfl := Option.some.inj (h.buf.symm.trans hS₁)
    obtain ⟨i, a, hmsg, hfd, -, hcalls⟩ := World.entry_eq_some.mp he
    have hne : c ≠ e.fd := by
      rintro rfl
      exact hleaves.quiet ⟨i, e.msg, a, hmsg, hfd⟩
    have hinbox := hpolled.inbox hsends c
    rw [if_neg hne, if_pos (World.mem_others.mpr ⟨hne, j, hc⟩), List.append_nil] at hinbox
    have htext := (hleaves.text e he).news hcalls
    have huser := hrun.entry_user h₀ hev he
    have hv : e.msg.userId ≠ 0 := by omega
    have hby := World.entry_by he
    have hother : e.msg.userId ≠ u := hleaves.alone e he
    have hlegal := joinsOnce_iff.mp hev.joinsOnce e he S h.buf
    have hpresent : HasCurs S' u := by
      rw [HasCurs, hattended.reached.find_other hby hv hlegal hcall (Ne.symm hother)]
      exact h.present
    refine ⟨_, S', hinbox, hS', hpresent,
      List.forall_mem_append.mpr ⟨h.text, List.forall_mem_singleton.mpr htext⟩, fun E' hE' => ?_⟩
    obtain ⟨E₁, out, hE₁, hmsg⟩ := Editor.watch_concat hE'
    obtain ⟨hid, C, d, t, hC, hreached, hmirrored⟩ := h.mirrored E₁ hE₁
    obtain ⟨p, hrep, -⟩ := hmirrored.client
    obtain ⟨f, hf⟩ : ∃ f, C.line C.first = .ok f := by
      obtain ⟨r, hr, hfirst⟩ := hrep.first_row
      exact ⟨_, hfirst ▸ hrep.line hr⟩
    obtain ⟨C', res', hcall', rfl⟩ := Editor.handleMsg_news hcalls (by rwa [hid]) hC hf hmsg
    rw [hid] at hcall'
    have htypes : e.op.TypesPresent u S := by
      cases hop : e.op with
      | insert v chr => exact fun _ => h.present
      | new | copyOwn | free | move | insertLine | del => trivial
    obtain ⟨d', t', hmirrored'⟩ := hmirrored.step hby hv hlegal (hattended.room _) (hev.ascii e he) htypes hf hcall hcall'
    have hreached' := hreached.step (hmirrored.legal hby hv hother hlegal f.id)
      (Op.keepsRange_atClient hby (hev.ascii e he) u f.id C) hcall'
    exact ⟨hid, C', d', t', rfl, hreached', hmirrored'⟩
  · refine ⟨[], S, ?_, by rw [List.append_nil]; exact ⟨hsame.trans h.buf, h.present, h.text, h.mirrored⟩⟩
    rw [hpolled.inbox hsends c, ite_self, List.append_nil]
    rcases hsender with hsender | rfl
    · rw [if_neg]
      rintro rfl
      exact hleaves.quiet hsender
    · rw [ite_self]

/-- What was accepted by the time of a step stays so. -/
theorem Run.accepted_mono {ok : World R → Event → Prop} (h : Run ok w₀ trace w) {s : Step R} (hs : s ∈ trace) {c : Conn}
    (hc : c ∈ s.pre.accepted) : c ∈ w.accepted := by
  induction h with
  | init => cases hs
  | @step trace w w' ev _ _ _ hstep ih =>
      have hold : c ∈ w.accepted := by
        rcases List.mem_cons.mp hs with rfl | hs
        · exact hc
        · exact ih hs
      rcases World.step_conns hstep with ⟨fd, -, rfl⟩ | ⟨-, haccepted, -⟩ | ⟨-, -, -, -, haccepted, -⟩
      · exact List.mem_cons_of_mem _ hold
      · rwa [haccepted]
      · rwa [haccepted]

/-- Only a worker that has loaded a buffer has one. -/
theorem Run.attended_of_buf (h₀ : WorkerStart w₀) (h : Run Event.Orderly w₀ trace w) (hS : w.proc.buf = some S) : Attended S := by
  cases hb₀ : w₀.proc.buf with
  | some b₀ =>
      obtain ⟨b, hb, hattended, -⟩ := h.attended h₀ hb₀
      exact Option.some.inj (hb.symm.trans hS) ▸ hattended
  | none =>
      have hnone : w.proc.buf = none := by
        clear hS
        induction h with
        | init => exact hb₀
        | @step trace w w' ev hrun _ _ hstep ih =>
            rcases World.step_entry (hrun.frame.1.trans h₀.mode) hstep with ⟨-, b, -, -, -, -, hb, -⟩ | ⟨-, hsame, -⟩
            · cases ih.symm.trans hb
            · exact hsame.trans ih
      cases hnone.symm.trans hS

theorem Attended.joinable (h : Attended S) (hu : u ≠ 0) (hno : ¬ HasCurs S u) : Joinable u S where
  reached := h.reached
  serverMode := h.serverMode
  own := h.own
  user := hu
  peers := by
    intro x hx
    obtain ⟨d, hd, -⟩ := h.reached.inRange
    obtain ⟨h0, hcur⟩ := hd.holds.mem_peerIds.mp (List.mem_map_of_mem hx)
    have hcur := (hd.hasCurs _).mpr hcur
    obtain ⟨hpos, hle⟩ := h.users _ h0 hcur
    have hle : x.1 ≤ 5 := hle
    refine ⟨hpos, ?_, ?_⟩
    · show x.1 < 20
      omega
    · rintro rfl
      exact hno hcur

/-- The client is sent the snapshot before the worker has its cursor. -/
theorem Watched.join {s : Step R} {old : List (Step R)} (h₀ : WorkerStart w₀) (h : Run Event.Orderly w₀ (s :: old) w)
    (hjoin : s.Joins c u) (hE : E.userId = u) : ∃ msgs S, w.inbox c = s.pre.inbox c ++ msgs ∧ Watched w E u msgs S := by
  obtain ⟨i, msg, a, hev, hc, hflag, ht, rfl⟩ := hjoin
  cases h with
  | @step _ w₁ _ ev hrun _ hok hstep =>
      dsimp only at hev hc hflag ⊢
      subst hev
      have hpolled := hrun.polled h₀.pollList h₀.closed
      simp only [World.step, hc] at hstep
      obtain ⟨S, S', s, res, hS, hs, hcall, hS', hsends⟩ := World.handleMsg_join (hrun.frame.1.trans h₀.mode) hflag ht hstep
      have hattended := hrun.attended_of_buf h₀ hS
      have he : w₁.entry (.message i msg a) = some ⟨c, msg, .copyOwn msg.userId⟩ :=
        World.entry_eq_some.mpr ⟨i, a, rfl, hc, hflag, .join ht⟩
      have huser := hrun.entry_user h₀ hok he
      have hno : ¬ HasCurs S msg.userId := hok.joinsOnce _ S (World.entry_calls he) hS
      have hu : msg.userId ≠ 0 := by
        have := huser.1
        dsimp only at this
        omega
      have hinbox := hpolled.inbox hsends c
      rw [if_pos rfl, if_neg fun hmem => (World.mem_others.mp hmem).1 rfl, List.append_nil] at hinbox
      have hsend := hattended.reached.sendable hs .fileResponse msg.userId msg.fileId msg.fileVersion
      have hpresent : HasCurs S' msg.userId := by
        have hby : (Op.copyOwn msg.userId).By msg.userId := rfl
        obtain ⟨hattended', hsheet⟩ := hattended.step hby huser hno trivial hcall
        obtain ⟨d, hd, -⟩ := hattended'.reached.inRange
        have hplace := congrFun (congrArg Sheet.curs hsheet) msg.userId
        simp only [Buffer.sheet, Sheet.perform, Function.update_self, if_neg hu, id_eq] at hplace
        rw [hd.holds.hasCurs, ← hd.holds.place, hplace]
        exact Option.some_ne_none _
      refine ⟨_, S', hinbox, hS', hpresent, List.forall_mem_singleton.mpr fun pl h => (hsend pl h).2, fun E' hE' => ?_⟩
      rw [← List.nil_append [_]] at hE'
      obtain ⟨E₁, out, hE₁, hmsg⟩ := Editor.watch_concat hE'
      obtain rfl := Except.ok.inj hE₁
      simp only [Editor.handleMsg, createMsg, MsgType.ofCode_code, Option.getD_some] at hmsg
      obtain ⟨C, hC, hmsg⟩ := Except.bind_eq_ok.mp hmsg
      obtain ⟨rfl, -⟩ := Prod.mk.inj (Except.ok.inj hmsg)
      obtain ⟨d, e, hmirrored⟩ := (hattended.joinable hu hno).mirrored hs hC hcall
      exact ⟨hE, C, d, e, rfl, .reload hattended.reached hs hC, hmirrored⟩

theorem Run.watched {s : Step R} {new old : List (Step R)} (h₀ : WorkerStart w₀) (h : Run Event.Orderly w₀ (new ++ s :: old) w)
    (hjoin : s.Joins c u) (hleaves : ∀ s' ∈ new, s'.Leaves c u) (hopen : ∃ j, w.connAt j = some c) (hE : E.userId = u) :
    ∃ msgs S, w.inbox c = s.pre.inbox c ++ msgs ∧ Watched w E u msgs S := by
  induction new generalizing w with
  | nil => exact Watched.join h₀ h hjoin hE
  | cons s' new ih =>
      obtain ⟨hlast, hbefore⟩ := List.forall_mem_cons.mp hleaves
      obtain ⟨j, hj⟩ := hopen
      cases h with
      | @step _ w₁ _ ev hrun hpossible hok hstep =>
          have hstart := hrun.of_suffix (s := s) (t := old) (List.suffix_append _ _)
          have hpolled := hstart.1.polled h₀.pollList h₀.closed
          have haccepted : c ∈ w₁.accepted := by
            obtain ⟨i, -, -, -, hc, -⟩ := hjoin
            exact hrun.accepted_mono (by simp) (hpolled.accepted i c hc)
          have hnew : ev ≠ .accept c := by
            rintro rfl
            exact hpossible haccepted
          obtain ⟨k, hk⟩ := World.polled_before hstep hnew hj
          obtain ⟨msgs, S, hinbox, hwatched⟩ := ih hrun hbefore ⟨k, hk⟩
          obtain ⟨news, S', hinbox', hwatched'⟩ := hwatched.step h₀ hrun hok hstep (hrun.attended_of_buf h₀ hwatched.buf) hlast hk
          exact ⟨msgs ++ news, S', by rw [hinbox', hinbox, List.append_assoc], hwatched'⟩

/-- Whenever a user joins and then only watches, while the others send text, what it is sent from then on arrives as it was
    sent, and a client that survives it shows the document of the worker. -/
theorem watcher_agrees {s : Step R} {new old : List (Step R)} (h₀ : WorkerStart w₀)
    (h : Run Event.Orderly w₀ (new ++ s :: old) w) (hjoin : s.Joins c u) (hleaves : ∀ s' ∈ new, s'.Leaves c u)
    (hopen : ∃ j, w.connAt j = some c) (hE : E.userId = u) :
    ∃ msgs S, w.inbox c = s.pre.inbox c ++ msgs ∧ w.proc.buf = some S ∧ (∀ msg ∈ msgs, msg.Arrives) ∧
      ∀ E', E.watch msgs = .ok E' → ∃ C, E'.b = some C ∧ Agree u S C := by
  obtain ⟨msgs, S, hinbox, hwatched⟩ := h.watched h₀ hjoin hleaves hopen hE
  refine ⟨msgs, S, hinbox, hwatched.buf, fun msg hmem => (hwatched.text msg hmem).arrives, fun E' hE' => ?_⟩
  obtain ⟨-, C, d, e, hC, -, hde⟩ := hwatched.mirrored E' hE'
  exact ⟨C, hC, hde.agree⟩

end

/-- Anna joins and watches Bert join and type. -/
theorem watcher_agrees_pair : ∃ (b : Buffer ListRope) (w : World ListRope) (s : Step ListRope) (new old : List (Step ListRope)),
    Run Event.Orderly (demoWorld .worker pairDisk (some b)) (new ++ s :: old) w ∧ new.length = 2 ∧ s.Joins 0 1 ∧
    ∃ msgs S E' C, w.inbox 0 = s.pre.inbox 0 ++ msgs ∧ w.proc.buf = some S ∧
      Editor.watch (⟨1, 1, none⟩ : Editor ListRope) msgs = .ok E' ∧ E'.b = some C ∧ C.texts = ["xab".toList] ∧ Agree 1 S C := by
  obtain ⟨b, w, trace, h₀, hrun, hP⟩ := exists_pair pairEvents (P := fun w trace =>
    match trace with
    | s₂ :: s₁ :: s :: _ => decide (s.Joins 0 1 ∧ (∀ s' ∈ [s₂, s₁], s'.Leaves 0 1) ∧ w.connAt 0 = some 0) &&
        returns (Editor.watch (⟨1, 1, none⟩ : Editor ListRope) ((w.inbox 0).drop (s.pre.inbox 0).length)) fun E' =>
          E'.b.map Buffer.texts = some ["xab".toList]
    | [_, _] | [_] | [] => false) (by decide +kernel)
  match trace, hrun, hP with
  | s₂ :: s₁ :: s :: old, hrun, hP =>
      obtain ⟨htest, hwatch⟩ := Bool.and_eq_true_iff.mp hP
      obtain ⟨hjoin, hleaves, hopen⟩ := of_decide_eq_true htest
      have hE : (⟨1, 1, none⟩ : Editor ListRope).userId = 1 := rfl
      have hrun : Run Event.Orderly _ ([s₂, s₁] ++ s :: old) w := hrun
      obtain ⟨msgs, S, hinbox, hS, -, hagree⟩ := watcher_agrees h₀ hrun hjoin hleaves ⟨0, hopen⟩ hE
      rw [hinbox, List.drop_left] at hwatch
      obtain ⟨E', hE', htexts⟩ := exists_of_returns hwatch
      obtain ⟨C, hC, hagree⟩ := hagree E' hE'
      have htexts := of_decide_eq_true htexts
      rw [hC] at htexts
      exact ⟨b, w, s, [s₂, s₁], old, hrun, rfl, hjoin, msgs, S, E', C, hinbox, hS, hE', hC, Option.some.inj htexts, hagree⟩

end CoEditor
