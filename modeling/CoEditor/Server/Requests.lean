-- SUMMARY: In runs of the main server, harmless requests spare the accounts, the list and the other documents.
import CoEditor.Registry.Requests
import CoEditor.Server.Sessions

/-!
# Requests to the main server

A user that is logged in may create and delete documents. What the calls on the
list do to the files is carried over to runs, in which users also come and go,
sign up, and open documents.
-/

namespace CoEditor

variable {R : Type} [Rope R]

/-- The call on the list that a message asks for. -/
inductive Message.Requests (msg : Message) : FileOp → Prop where
  | create {name : Bytes} : msg.type = MsgType.createFile.code → msg.payload = some name → Requests msg (.create name)
  | delete : msg.type = MsgType.deleteFile.code → Requests msg (.delete msg.fileId)

theorem Message.Requests.type {msg : Message} {op : FileOp} (h : msg.Requests op) :
    msg.type = MsgType.createFile.code ∨ msg.type = MsgType.deleteFile.code := by
  cases h with
  | create ht => exact .inl ht
  | delete ht => exact .inr ht

/-- A user that is logged in asks for a call on the list; `fails` says which system calls fail. -/
def World.Requests (w : World R) (ev : Event) (fails : SysCall → Bool) (op : FileOp) : Prop :=
  ∃ i msg a fd, ev = .message i msg a ∧ w.connAt i = some fd ∧ w.proc.loggedIn a.outside msg.userId = true ∧
    msg.Requests op ∧ fails = a.fails

/-- Files are written for another reason: somebody signs up, or another process writes them. -/
def Event.WritesElse (ev : Event) : Prop :=
  (∃ d, ev = .files d) ∨ ∃ i msg a, ev = .message i msg a ∧ msg.type = MsgType.register.code

/-- The requests are harmless, and other processes leave a list of entries. -/
structure Event.Harmless (w : World R) (ev : Event) : Prop where
  requests : ∀ fails op, w.Requests ev fails op → op.Typed ∧ op.Harmless fails w.disk
  files : ∀ d, ev = .files d → WellListed (d.text filesTxt)

namespace World

variable {w w' : World R} {a : Answers} {fd : Conn} {msg : Message} {ev : Event}

/-- A message makes the call on the list that it asks for, or it asks for none. -/
theorem handleMsg_disk (hmode : w.proc.mode = .server) (h : w.handleMsg a fd msg = .ok w') :
    (∃ op res, w.proc.loggedIn a.outside msg.userId = true ∧ msg.Requests op ∧ op.call a.fails w.disk = .ok (w'.disk, res)) ∨
      (w.proc.loggedIn a.outside msg.userId = true → ∀ op, ¬ msg.Requests op) ∧
        (w'.disk = w.disk ∨
          msg.type = MsgType.register.code ∧ ∃ u, validateRegister a.freed w.disk msg.payload = .ok (w'.disk, u)) := by
  have hunasked : msg.type ≠ MsgType.createFile.code → msg.type ≠ MsgType.deleteFile.code → ∀ op, ¬ msg.Requests op :=
    fun hcreate hdelete op hop => hop.type.elim hcreate hdelete
  have hflag : w.Admits a msg → NeedsLogin msg → w.proc.loggedIn a.outside msg.userId = true := fun hadm hneeds =>
    hadm.resolve_right fun h => h hneeds
  obtain ⟨hno, rfl⟩ | ⟨hadm, ⟨-, h⟩ | ⟨hm, -⟩⟩ := handleMsg_cases h
  · exact .inr ⟨fun hflag => absurd (.inl hflag) hno, .inl rfl⟩
  · cases handleServer_does h with
    | login ht h =>
        refine .inr ⟨fun _ => hunasked (by rw [ht]; decide) (by rw [ht]; decide), .inl ?_⟩
        obtain ⟨u, -, ⟨-, list, proc, -, rfl⟩ | ⟨-, rfl⟩⟩ := login_cases h
        · rfl
        · rfl
    | register ht hrun h =>
        obtain ⟨m, rfl⟩ := answer_sends h
        exact .inr ⟨fun _ => hunasked (by rw [ht]; decide) (by rw [ht]; decide), .inr ⟨ht, _, hrun⟩⟩
    | fileRequest ht hrun =>
        refine .inr ⟨fun _ => hunasked (by rw [ht]; decide) (by rw [ht]; decide), .inl ?_⟩
        obtain ⟨-, -, -, rfl⟩ | ⟨-, -, -, -, -, -, -, -, -, rfl⟩ := getWorker_cases hrun
        · rfl
        · rfl
    | createFile ht hrun h =>
        obtain ⟨m, rfl⟩ := answer_sends h
        cases hpayload : msg.payload with
        | none =>
            refine .inr ⟨fun _ op hop => ?_, .inl (createFile_null (hpayload ▸ hrun))⟩
            cases hop with
            | create _ hname =>
                rw [hpayload] at hname
                cases hname
            | delete ht' =>
                rw [ht] at ht'
                exact absurd ht' (by decide)
        | some name =>
            have hneeds : NeedsLogin msg := ⟨by rw [ht]; decide, by rw [ht]; decide⟩
            exact .inl ⟨.create name, _, hflag hadm hneeds, .create ht hpayload, hpayload ▸ hrun⟩
    | deleteFile ht hrun h =>
        obtain ⟨m, rfl⟩ := answer_sends h
        have hneeds : NeedsLogin msg := ⟨by rw [ht]; decide, by rw [ht]; decide⟩
        exact .inl ⟨.delete msg.fileId, _, hflag hadm hneeds, .delete ht, hrun⟩
    | quit ht hproc =>
        exact .inr ⟨fun _ => hunasked (by rw [ht]; decide) (by rw [ht]; decide), .inl rfl⟩
    | ignore hignored =>
        exact .inr ⟨fun _ => hunasked (hignored .createFile (by decide)) (hignored .deleteFile (by decide)), .inl rfl⟩
  · rw [hmode] at hm
    cases hm

/-- What a step does to the files. -/
theorem step_disk (hmode : w.proc.mode = .server) (h : w.step ev = .ok w') :
    (∃ fails op res, w.Requests ev fails op ∧ op.call fails w.disk = .ok (w'.disk, res)) ∨
      (∀ fails op, ¬ w.Requests ev fails op) ∧
        (w'.disk = w.disk ∨ ev.WritesElse ∧
          (ev = .files w'.disk ∨ ∃ freed payload u, validateRegister freed w.disk payload = .ok (w'.disk, u))) := by
  have hquiet : (∀ i msg a fd, ev = .message i msg a → w.connAt i ≠ some fd) → ∀ fails op, ¬ w.Requests ev fails op := by
    rintro hno fails op ⟨i, msg, a, fd, hev, hfd, -⟩
    exact hno i msg a fd hev hfd
  cases ev with
  | accept fd =>
      obtain rfl := Except.ok.inj h
      exact .inr ⟨hquiet (by simp), .inl rfl⟩
  | hangup i =>
      refine .inr ⟨hquiet (by simp), .inl ?_⟩
      simp only [step] at h
      split at h
      · rw [Except.ok.inj h]
      · obtain rfl := Except.ok.inj h
        rfl
  | eof i => exact .inr ⟨hquiet (by simp), .inl (by rw [Except.ok.inj h])⟩
  | files d =>
      obtain rfl := Except.ok.inj h
      exact .inr ⟨hquiet (by simp), .inr ⟨.inl ⟨d, rfl⟩, .inl rfl⟩⟩
  | gone pid => exact .inr ⟨hquiet (by simp), .inl (by rw [← Except.ok.inj h])⟩
  | message i msg a =>
      cases hfd : w.connAt i with
      | none =>
          simp only [step, hfd] at h
          refine .inr ⟨hquiet fun i' msg' a' fd hev hfd' => ?_, .inl (by rw [Except.ok.inj h])⟩
          obtain ⟨rfl, -, -⟩ := Event.message.inj hev
          rw [hfd] at hfd'
          cases hfd'
      | some fd =>
          simp only [step, hfd] at h
          rcases handleMsg_disk hmode h with ⟨op, res, hflag, hop, hrun⟩ | ⟨hno, hdisk⟩
          · exact .inl ⟨a.fails, op, res, ⟨i, msg, a, fd, rfl, hfd, hflag, hop, rfl⟩, hrun⟩
          · refine .inr ⟨?_, hdisk.imp_right ?_⟩
            · rintro fails op ⟨i', msg', a', fd', hev, -, hflag, hop, -⟩
              obtain ⟨-, rfl, rfl⟩ := Event.message.inj hev
              exact hno hflag op hop
            · rintro ⟨ht, u, hrun⟩
              exact ⟨.inr ⟨i, msg, a, rfl, ht⟩, .inr ⟨_, _, u, hrun⟩⟩

omit [Rope R] in
/-- A message asks for one call. -/
theorem Requests.inj {fails fails' : SysCall → Bool} {op op' : FileOp} (h : w.Requests ev fails op)
    (h' : w.Requests ev fails' op') : fails = fails' ∧ op = op' := by
  obtain ⟨i, msg, a, fd, rfl, -, -, hop, rfl⟩ := h
  obtain ⟨i', msg', a', fd', hev, -, -, hop', rfl⟩ := h'
  obtain ⟨-, rfl, rfl⟩ := Event.message.inj hev
  refine ⟨rfl, ?_⟩
  cases hop with
  | create ht hname =>
      cases hop' with
      | create _ hname' => rw [Option.some.inj (hname.symm.trans hname')]
      | delete ht' => exact absurd (ht.symm.trans ht') (by decide)
  | delete ht =>
      cases hop' with
      | create ht' _ => exact absurd (ht.symm.trans ht') (by decide)
      | delete => rfl

end World

/-! ## Runs -/

section
variable {w₀ w : World R} {trace : List (Step R)}

/-- The list stays a list of entries. -/
theorem Run.wellListed (h : Run (fun w ev => ev.Harmless w) w₀ trace w) (h₀ : ServerStart w₀)
    (hlist : WellListed (w₀.disk.text filesTxt)) : WellListed (w.disk.text filesTxt) := by
  induction h with
  | init => exact hlist
  | @step trace w w' ev hrun _ hok hev ih =>
      rcases World.step_disk (hrun.frame.1.trans h₀.mode) hev with ⟨fails, op, res, hop, hcall⟩ | ⟨-, hdisk | ⟨-, hwrites⟩⟩
      · obtain ⟨htyped, hharmless⟩ := hok.requests fails op hop
        exact (hharmless.frame htyped ih hcall).2
      · rwa [hdisk]
      · rcases hwrites with hfiles | ⟨freed, payload, u, hregister⟩
        · exact hok.files _ hfiles
        · have hsame : w'.disk.text filesTxt = w.disk.text filesTxt :=
            Disk.text_congr (by rw [validateRegister_files hregister])
          rwa [hsame]

/-- Harmless requests change their own entries and their own document only. -/
theorem requests_spare (h₀ : ServerStart w₀) (hlist : WellListed (w₀.disk.text filesTxt))
    (h : Run (fun w ev => ev.Harmless w) w₀ trace w) :
    (∀ s ∈ trace, ∀ fails op, s.pre.Requests s.event fails op →
      ∃ res, op.call fails s.pre.disk = .ok (s.post.disk, res) ∧ op.Frame s.pre.disk s.post.disk res) ∧
    ((∀ s ∈ trace, ¬ s.event.WritesElse) → w.disk.text userdataTxt = w₀.disk.text userdataTxt) := by
  have hstep : ∀ {trace : List (Step R)} {w w' : World R} {ev : Event}, Run (fun w ev => ev.Harmless w) w₀ trace w →
      ev.Harmless w → w.step ev = .ok w' → ∀ fails op, w.Requests ev fails op →
      ∃ res, op.call fails w.disk = .ok (w'.disk, res) ∧ op.Frame w.disk w'.disk res := by
    intro trace w w' ev hrun hok hev fails op hop
    rcases World.step_disk (hrun.frame.1.trans h₀.mode) hev with ⟨fails', op', res, hop', hcall⟩ | ⟨hno, -⟩
    · obtain ⟨rfl, rfl⟩ := hop'.inj hop
      obtain ⟨htyped, hharmless⟩ := hok.requests _ _ hop
      exact ⟨res, hcall, (hharmless.frame htyped (hrun.wellListed h₀ hlist) hcall).1⟩
    · exact absurd hop (hno fails op)
  refine ⟨fun s hs => ?_, ?_⟩
  · obtain ⟨l, t, rfl⟩ := List.append_of_mem hs
    obtain ⟨hrun, -, hok, hev⟩ := h.of_suffix (List.suffix_append l (s :: t))
    exact hstep hrun hok hev
  · induction h with
    | init => exact fun _ => rfl
    | @step trace w w' ev hrun _ hok hev ih =>
        intro hall
        rw [List.forall_mem_cons] at hall
        rw [← ih hall.2]
        rcases World.step_disk (hrun.frame.1.trans h₀.mode) hev with ⟨fails, op, res, hop, -⟩ | ⟨-, hdisk | ⟨helse, -⟩⟩
        · obtain ⟨res', -, hframe⟩ := hstep hrun hok hev fails op hop
          exact hframe.users
        · rw [hdisk]
        · exact absurd helse hall.1

end

/-- Anna's request to create a document. -/
def annaCreate (name : Bytes) : Message := createMsg .createFile 1 (-1) (-1) (some name)

theorem World.handleServer_create {a : Answers} {w : World R} {fd : Conn} {msg : Message} {d : Disk} {id : Int} {list : Bytes}
    (ht : msg.type = MsgType.createFile.code) (hrun : createFile a.fails w.disk msg.payload = .ok (d, id)) (h0 : 0 < id)
    (hlist : getFileList d a.mem = .ok list) : w.handleServer a fd msg =
      .ok ({ w with disk := d }.sendMsg fd (createMsg .msgOk msg.userId (-1) (-1) (some list))) := by
  have hcode : MsgType.ofCode msg.type = some .createFile := MsgType.ofCode_eq_some.mpr ht
  simp only [handleServer, hcode, hrun, Except.ok_bind_eq, answer, h0, if_true, hlist]
  rfl

/-- The server after Anna has logged in and created a document. -/
theorem anna_creates {name : Bytes} {d : Disk} {list : Bytes} (ok : World ListRope → Event → Prop)
    (hrun : createFile noFailure demoDisk (some name) = .ok (d, 2)) (hlist : getFileList d [] = .ok list)
    (hquiet : ∀ w ev, (∀ i msg a, ev = .message i msg a → msg = annaLogin) → (∀ d, ev ≠ .files d) → ok w ev)
    (hok : ∀ w, w.disk = demoDisk → ok w (.message 0 (annaCreate name) demoAnswers)) :
    ∃ w w' trace, Run ok (demoWorld .server demoDisk none)
      (⟨w, .message 0 (annaCreate name) demoAnswers, w'⟩ :: trace) w' ∧ w.disk = demoDisk ∧ w'.disk = d ∧
      w.Requests (.message 0 (annaCreate name) demoAnswers) noFailure (.create name) := by
  have h₁ : Run ok (demoWorld .server demoDisk none) (⟨_, .accept 0, _⟩ :: []) _ :=
    .step .init (by show 0 ∉ []; decide) (hquiet _ _ (by simp) (by simp)) rfl
  have h₂ : Run ok (demoWorld .server demoDisk none) (⟨_, .message 0 annaLogin demoAnswers, _⟩ :: _) _ :=
    .step h₁ trivial (hquiet _ _ (fun i msg a he => (Event.message.inj he).2.1.symm) (by simp)) (anna_logsIn rfl rfl rfl)
  have hstep : ∀ {w : World ListRope}, w.proc.mode = .server → w.disk = demoDisk → w.connAt 0 = some 0 →
      w.proc.loggedIn demoAnswers.outside 1 = true → w.step (.message 0 (annaCreate name) demoAnswers) =
        .ok ({ w.readsClient 1 with disk := d }.sendMsg 0 (createMsg .msgOk 1 (-1) (-1) (some list))) := by
    intro w hmode hdisk hfd hflag
    simp only [World.step, hfd]
    rw [World.handleMsg_admitted (.inl hflag), hmode]
    exact World.handleServer_create rfl (show createFile _ w.disk _ = _ from hdisk ▸ hrun) (by decide) hlist
  exact ⟨_, _, _, .step h₂ trivial (hok _ rfl) (hstep rfl rfl rfl rfl), rfl, rfl, 0, _, _, 0, rfl, rfl, rfl, .create rfl rfl, rfl⟩

/-- Anna creates a document of her own. -/
theorem requests_spare_notes : ∃ (w w' : World ListRope) (trace : List (Step ListRope)) (res : Int),
    Run (fun w ev => ev.Harmless w) (demoWorld .server demoDisk none)
      (⟨w, .message 0 (annaCreate (bytes "notes")) demoAnswers, w'⟩ :: trace) w' ∧
    (FileOp.create (bytes "notes")).Frame w.disk w'.disk res := by
  have htest : returns (createFile noFailure demoDisk (some (bytes "notes"))) (fun r => decide (r.2 = 2) &&
      returns (getFileList r.1 []) fun _ => true) = true := by decide +kernel
  obtain ⟨⟨d, id⟩, hrun, htest⟩ := exists_of_returns htest
  obtain ⟨hid, hlist⟩ := (Bool.and_eq_true _ _).mp htest
  obtain rfl : id = 2 := of_decide_eq_true hid
  obtain ⟨list, hlist, -⟩ := exists_of_returns hlist
  have hdocs : demoDisk.documents = [(1, bytes "doc")] := by decide +kernel
  have hwell : WellListed (demoDisk.text filesTxt) := by
    have hlines : lines (demoDisk.text filesTxt) = [FileEntry.line (1, bytes "doc")] := by decide +kernel
    intro l hl
    rw [hlines, List.mem_singleton] at hl
    exact .inr ⟨_, ⟨by decide, by decide⟩, .inl hl⟩
  have hharmless : (FileOp.create (bytes "notes")).Harmless noFailure demoDisk := by
    intro _ _ _
    refine ⟨fun h => absurd h (by decide), fun h => absurd h (by decide), ?_⟩
    rw [hdocs]
    simp only [List.forall_mem_singleton]
    exact fun _ => ⟨by decide, fun h => absurd h (by decide)⟩
  have hquiet : ∀ (w : World ListRope) (ev : Event), (∀ i msg a, ev = .message i msg a → msg = annaLogin) → (∀ d, ev ≠ .files d) →
      ev.Harmless w := by
    refine fun w ev hlogin hfiles => ⟨?_, fun d hd => absurd hd (hfiles d)⟩
    rintro fails op ⟨i, msg, a, fd, hev, -, -, hop, -⟩
    obtain rfl := hlogin i msg a hev
    exact absurd hop.type (by decide)
  have hok : ∀ w : World ListRope, w.disk = demoDisk →
      Event.Harmless w (.message 0 (annaCreate (bytes "notes")) demoAnswers) := by
    refine fun w hdisk => ⟨?_, fun d hd => nomatch hd⟩
    rintro fails op ⟨i, msg, a, fd, hev, -, -, hop, rfl⟩
    obtain ⟨-, rfl, rfl⟩ := Event.message.inj hev
    cases hop with
    | create _ hname =>
        obtain rfl := Option.some.inj hname
        exact ⟨(by decide : IsTyped (bytes "notes")), hdisk ▸ hharmless⟩
    | delete ht => exact absurd ht (by decide)
  obtain ⟨w, w', trace, hw, -, -, hop⟩ := anna_creates (fun w ev => ev.Harmless w) hrun hlist hquiet hok
  obtain ⟨res, -, hframe⟩ := (requests_spare (demoWorld_server demoDisk) hwell hw).1 _ (List.mem_cons_self ..) _ _ hop
  exact ⟨w, w', trace, res, hw, hframe⟩

/-- Anna creates a document called `userdata.txt`, and all accounts are lost. -/
theorem accounts_emptied : ∃ (w w' : World ListRope) (trace : List (Step ListRope)),
    ServerStart (demoWorld .server demoDisk none) ∧
    AnyRun (demoWorld .server demoDisk none) (⟨w, .message 0 (annaCreate userdataTxt) demoAnswers, w'⟩ :: trace) w' ∧
    w.Requests (.message 0 (annaCreate userdataTxt) demoAnswers) noFailure (.create userdataTxt) ∧
    IsTyped userdataTxt ∧ userdataTxt.length ≤ 63 ∧
    w.disk.text userdataTxt = bytes "anna:secret" ∧ w'.disk.text userdataTxt = [] := by
  have htest : returns (createFile noFailure demoDisk (some userdataTxt)) (fun r => decide (r.2 = 2) &&
      decide (r.1.text userdataTxt = []) && returns (getFileList r.1 []) fun _ => true) = true := by decide +kernel
  obtain ⟨⟨d, id⟩, hrun, htest⟩ := exists_of_returns htest
  obtain ⟨htest, hlist⟩ := (Bool.and_eq_true _ _).mp htest
  obtain ⟨hid, hempty⟩ := (Bool.and_eq_true _ _).mp htest
  obtain rfl : id = 2 := of_decide_eq_true hid
  obtain ⟨list, hlist, -⟩ := exists_of_returns hlist
  obtain ⟨w, w', trace, hw, hdisk, hdisk', hop⟩ := anna_creates (fun _ _ => True) hrun hlist
    (fun _ _ _ _ => trivial) fun _ _ => trivial
  refine ⟨w, w', trace, demoWorld_server demoDisk, hw, hop, by decide, by decide, ?_, ?_⟩
  · rw [hdisk]
    decide +kernel
  · rw [hdisk']
    exact of_decide_eq_true hempty

end CoEditor
