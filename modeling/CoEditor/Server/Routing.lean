-- SUMMARY: Which requests are routed to a worker of the document they name, and where a worker saves its buffer.
import CoEditor.Buffer.Frame
import CoEditor.Server.Cursors
import CoEditor.Server.Requests
import CoEditor.Session.Files

/-!
# Routing

The main server forks a worker for a document when it is first asked for it,
and remembers its port under the id of the document. A worker keeps the buffer
that it loaded when it started, and looks the name of its document up again
when it shuts down.
-/

namespace CoEditor

variable {R : Type} [Rope R]

/-! ## Shutting down -/

/-- `buffer_save`; without a name no file is opened. -/
def saveAs (d : Disk) (fname : Option Bytes) (b : Buffer R) : Except Fault Disk :=
  match fname with
  | none => pure d
  | some name => do
      let text ← bufferSave b
      pure (d.set name (some { (d.get name).getD (.closed []) with content := text }))

/-- `handle_shutdown`: the files afterwards, and the processes that the signal is passed on to. -/
def World.handleShutdown (w : World R) : Except Fault (Disk × List Int) :=
  match w.proc.mode with
  | .server => pure (w.disk, (w.proc.workers.filter (·.1 ≠ 0)).map Prod.snd)
  | .worker =>
      match w.proc.buf with
      | none => pure (w.disk, [])
      | some b => do
          let fname ← getFileName w.disk b.id
          let disk ← saveAs w.disk fname b
          pure (disk, [])

/-- A worker at the start of its main loop. -/
def Child.world (child : Child R) (d : Disk) : World R where
  proc := child.proc
  disk := d
  accepted := []
  closed := []
  sent := []
  children := []

/-- Whenever the worker shuts down with these files around, it saves its buffer to the file it was loaded from: what
    `buffer_save` writes, which is all lines if they fit the scratch pad and nobody has joined twice. -/
structure SavesBack (d : Disk) (child : Child R) (name : Bytes) : Prop where
  loaded : child.name = some name
  writes : ∀ d₀ trace wk, AnyRun (child.world d₀) trace wk → ∃ b, wk.proc.buf = some b ∧ ∀ text, bufferSave b = .ok text →
    { wk with disk := d }.handleShutdown = .ok (d.set name (some { (d.get name).getD (.closed []) with content := text }), [])
  saves : ∀ d₀ trace wk, Run JoinsOnce (child.world d₀) trace wk → ∀ b, wk.proc.buf = some b → (∀ t ∈ b.texts, FitsSp t) →
    bufferSave b = .ok (stored b.texts)

/-! ## Routes -/

/-- Document `f` has a worker. -/
def World.HasWorker (w : World R) (f : Int) : Prop := ∃ port pid, arrayGet w.proc.workers f = .ok (port, pid) ∧ port ≠ 0

/-- The worker was forked for document `f` and has not ended, and its buffer was loaded from the file that is now listed under
    `f`. -/
structure Serves (w : World R) (f port : Int) (child : Child R) : Prop where
  mem : child ∈ w.children
  port : child.port = port
  pid : 0 < child.pid
  listed : getFileName w.disk f = .ok child.name
  loaded : ∃ (d : Disk) (name : Bytes) (fp : Inode) (b : Buffer R), child.name = some name ∧ d.get name = some fp ∧
    bufferFromFile fp.content f workerHeight workerWidth false = .ok b ∧ child.proc.buf = some b
  started : ∃ d, WorkerStart (child.world d)

/-- The port is one that a worker of document `f` can be reached at, and that no other document has. -/
structure Routed (w : World R) (f port : Int) : Prop where
  valid : 0 < port ∧ port ≤ 65535
  entry : ∃ pid, arrayGet w.proc.workers f = .ok (port, pid)
  apart : ∀ g q pid, g ≠ f → arrayGet w.proc.workers g = .ok (q, pid) → q ≠ port
  served : ∃ child, Serves w f port child

/-- In this step `FILE_REQUEST` for document `f` is answered with a port. -/
def Step.Replies (s : Step R) (f port : Int) : Prop :=
  ∃ i msg a fd, s.event = .message i msg a ∧ s.pre.connAt i = some fd ∧ msg.type = MsgType.fileRequest.code ∧
    msg.fileId = f ∧ s.post.sent = s.pre.sent ++
      [(fd, .sendMsg (createMsg .fileResponse (-1) f msg.fileVersion (some (ch 'M' :: Decimal.digits port))))]

/-! ## Conditions -/

/-- The request is for a document from `1` to `MAX_WORKERS`. If there is no worker for it yet, `fork` succeeds,
    the second free port is a port number, and the document is listed under a file that exists. -/
structure RequestServed (a : Answers) (w : World R) (f : Int) : Prop where
  range : 1 ≤ f ∧ f ≤ maxWorkers
  fork : ¬ w.HasWorker f → 0 < a.pid
  ports : ¬ w.HasWorker f → ∀ lp rest pp rest', nextFree a.portFree w.proc.hport = .ok (lp, rest) →
    nextFree rest (lp + 1) = .ok (pp, rest') → pp ≤ 65535
  file : ¬ w.HasWorker f → ∃ name fp, getFileName w.disk f = .ok (some name) ∧ name ≠ [] ∧ w.disk.get name = some fp

/-- The call on the list leaves the names of the documents that have a worker alone. -/
def FileOp.KeepsNames (fails : SysCall → Bool) (w : World R) : FileOp → Prop
  | .create name => (∃ f, w.HasWorker f) → fails .fopenFiles = false →
      (∀ l ∈ lines (w.disk.text filesTxt), (fields l).2 ≠ some name) →
      fails .creat = false ∧ w.disk.canon name ≠ w.disk.canon filesTxt
  | .delete id => (∃ f, w.HasWorker f) → ¬ w.HasWorker id ∧
      if fails .rename then w.disk.putAside fails = none ∨ fails .fopenFiles = true
      else fails .fopenTemp = false ∧ fails .fopenFiles = false ∧ (0 : UInt8) ∉ w.disk.text filesTxt ∧
        ∀ name, getFileName w.disk id = .ok (some name) → w.disk.canon name ≠ w.disk.canon filesTxt

/-- The requests are served, no worker ends, and everybody leaves the names of the documents that have a worker alone. -/
structure Event.KeepsRoutes (w : World R) (ev : Event) : Prop where
  serves : ∀ i msg a fd, ev = .message i msg a → w.connAt i = some fd → w.proc.loggedIn a.outside msg.userId = true →
    msg.type = MsgType.fileRequest.code → RequestServed a w msg.fileId
  names : ∀ fails op, w.Requests ev fails op → op.KeepsNames fails w
  files : ∀ d, ev = .files d → (∃ f, w.HasWorker f) → d.get filesTxt = w.disk.get filesTxt
  alive : ∀ pid, ev = .gone pid → ∀ child ∈ w.children, child.pid ≠ pid

/-! ## The names of the documents -/

section
variable {d d' : Disk} {fails : SysCall → Bool} {f : Int} {name : Bytes}

omit [Rope R] in
/-- A call on the list that does not meet the files of the registry leaves the names alone. -/
theorem FileOp.KeepsNames.getFileName {w : World R} {op : FileOp} {res : Int} (h : op.KeepsNames fails w)
    (hworker : w.HasWorker f) (hf : f ≠ 0) (hname : name ≠ []) (hlisted : CoEditor.getFileName w.disk f = .ok (some name))
    (hrun : op.call fails w.disk = .ok (d', res)) : CoEditor.getFileName d' f = .ok (some name) := by
  obtain ⟨fp, hfile, -⟩ := getFileName_eq_some.mp hlisted
  have htext : w.disk.text filesTxt = fp.content := by rw [Disk.text, hfile]; rfl
  cases op with
  | create fname =>
      by_cases hopen : fails .fopenFiles = true
      · have hrun : createFile fails w.disk (some fname) = .ok (d', res) := hrun
        rw [createFile, if_pos hopen] at hrun
        rwa [← (Prod.mk.inj (Except.ok.inj hrun)).1]
      · by_cases htaken : ∃ l ∈ lines fp.content, (fields l).2 = some fname
        · rwa [getFileName_congr (createFile_taken hfile htaken hrun)]
        · obtain ⟨hcreat, hapart⟩ := h ⟨f, hworker⟩ (by simpa using hopen) fun l hl heq =>
            htaken ⟨l, htext ▸ hl, heq⟩
          refine createFile_keeps hrun hcreat (fun n hn => ?_) hf hlisted
          obtain rfl := Option.some.inj hn
          exact hapart
  | delete id =>
      obtain ⟨hother, hcalls⟩ := h ⟨f, hworker⟩
      have hid : f ≠ id := fun heq => hother (heq ▸ hworker)
      cases hrename : fails .rename with
      | true =>
          rw [hrename, if_pos rfl] at hcalls
          rcases deleteFile_unrenamed hrename hcalls hrun with rfl | ⟨t, -, rfl⟩
          · exact hlisted
          · rwa [getFileName_congr (Disk.get_set_ne _ w.disk.files_ne_temp _)]
      | false =>
          simp only [hrename, Bool.false_eq_true, if_false] at hcalls
          obtain ⟨htemp, hfiles, hnul, hapart⟩ := hcalls
          refine deleteFile_keeps hrun hrename htemp hfiles (fun fp' hfp' => ?_) hapart hid hname hlisted
          obtain rfl := Option.some.inj (hfile.symm.trans hfp')
          exact htext ▸ hnul

end

/-! ## The buffer of a worker -/

theorem Op.run_frame {b b' : Buffer R} {op : Op} {res : Bres} (h : op.run b = .ok (b', res)) : b'.frame = b.frame :=
  congrArg Prod.fst ((op.run_keeps b).fixes _ h)

/-- A worker keeps the id of its buffer. -/
theorem Run.worker_buf {ok : World R → Event → Prop} {w₀ w : World R} {trace : List (Step R)} (h : Run ok w₀ trace w)
    (hmode : w₀.proc.mode = .worker) {b₀ : Buffer R} (hbuf : w₀.proc.buf = some b₀) :
    ∃ b, w.proc.buf = some b ∧ b.id = b₀.id := by
  induction h with
  | init => exact ⟨b₀, hbuf, rfl⟩
  | @step trace w w' ev hrun _ _ hev ih =>
      obtain ⟨b, hb, hid⟩ := ih
      rcases World.step_buf (hrun.frame.1.trans hmode) hev with ⟨op, b₁, b', res, -, hb₁, hcall, hb'⟩ | ⟨-, hsame⟩
      · obtain rfl := Option.some.inj (hb.symm.trans hb₁)
        exact ⟨b', hb', (congrArg Prod.fst (Op.run_frame hcall)).trans hid⟩
      · exact ⟨b, hsame.trans hb, hid⟩

/-- A worker saves its buffer to the file that is listed under the id of its document. -/
theorem Serves.savesBack {w : World R} {f port : Int} {child : Child R} (h : Serves w f port child) {d : Disk}
    (hlisted : getFileName d f = .ok child.name) : ∃ name, SavesBack d child name := by
  obtain ⟨-, name, fp, b₀, hname, -, hload, hbuf⟩ := h.loaded
  obtain ⟨dₛ, hstart⟩ := h.started
  rw [hname] at hlisted
  refine ⟨name, hname, fun d₀ trace wk hrun => ?_, fun d₀ trace wk hrun b hb hfits => ?_⟩
  · obtain ⟨b, hb, hid⟩ := hrun.worker_buf hstart.mode hbuf
    have hmode : wk.proc.mode = .worker := hrun.frame.1.trans hstart.mode
    have hid₀ : b₀.id = f := congrArg Prod.fst (bufferFromFile_frame fp.content f workerHeight workerWidth false b₀ hload)
    refine ⟨b, hb, fun text htext => ?_⟩
    simp only [World.handleShutdown, hmode, hb, hid, hid₀, hlisted, saveAs, htext, Except.ok_bind_eq]
    rfl
  · have hmode : (child.world d₀).proc.mode = .worker := hstart.mode
    have hclients : (child.world d₀).proc.clients = List.replicate (maxClients + 1) false := hstart.clients
    have hhosted : ∀ b, (child.world d₀).proc.buf = some b → Hosted b := fun b hb => by
      obtain rfl := Option.some.inj (hbuf.symm.trans hb)
      exact .load (by decide) hload
    obtain ⟨doc, hsound⟩ := (hrun.hosted_of hmode hclients (fun _ _ h => h) hhosted b hb).reachable.sound
    exact hsound.holds.bufferSave.mpr ⟨hfits, rfl⟩

/-! ## What a step does to the workers -/

theorem nextFree_le : ∀ {answers : List Bool} {hport : Int} {r : Int × List Bool}, nextFree answers hport = .ok r →
    hport ≤ r.1 := by
  intro answers
  induction answers with
  | nil => exact fun h => nomatch h
  | cons free answers ih =>
      intro hport r h
      rw [nextFree] at h
      split at h
      · obtain rfl := Except.ok.inj h
        exact Int.le_refl _
      · have := ih h
        omega

theorem arrayGet_eq_ok {α : Type} {l : List α} {i : Int} {x : α} : arrayGet l i = .ok x ↔ 0 ≤ i ∧ l[i.toNat]? = some x := by
  unfold arrayGet
  by_cases h0 : 0 ≤ i
  · rw [if_pos h0]
    cases l[i.toNat]? with
    | none => simp
    | some y => simp [h0]
  · simp [h0]

/-- What is read after a write. -/
theorem arrayGet_arraySet {α : Type} {l l' : List α} {i j : Int} {x y : α} (hset : arraySet l i x = .ok l')
    (hget : arrayGet l' j = .ok y) : j = i ∧ y = x ∨ j ≠ i ∧ arrayGet l j = .ok y := by
  obtain ⟨h0, hlt, rfl⟩ := arraySet_ok hset
  obtain ⟨hj, hget⟩ := arrayGet_eq_ok.mp hget
  by_cases heq : j = i
  · subst heq
    rw [List.getElem?_set_self hlt] at hget
    exact .inl ⟨rfl, (Option.some.inj hget).symm⟩
  · rw [List.getElem?_set_ne (by omega)] at hget
    exact .inr ⟨heq, arrayGet_eq_ok.mpr ⟨hj, hget⟩⟩

theorem arrayGet_set_self {α : Type} {l l' : List α} {i : Int} {x : α} (hset : arraySet l i x = .ok l') :
    arrayGet l' i = .ok x := by
  obtain ⟨h0, hlt, rfl⟩ := arraySet_ok hset
  exact arrayGet_eq_ok.mpr ⟨h0, List.getElem?_set_self hlt⟩

theorem arrayGet_set_ne {α : Type} {l l' : List α} {i j : Int} {x y : α} (hset : arraySet l i x = .ok l') (hne : j ≠ i)
    (hget : arrayGet l j = .ok y) : arrayGet l' j = .ok y := by
  obtain ⟨h0, -, rfl⟩ := arraySet_ok hset
  obtain ⟨hj, hget⟩ := arrayGet_eq_ok.mp hget
  exact arrayGet_eq_ok.mpr ⟨hj, by rw [List.getElem?_set_ne (by omega), hget]⟩

namespace World

variable {a : Answers} {w w' : World R} {fd : Conn} {msg : Message} {ev : Event}

/-- A message asks for a worker, or it leaves the workers alone. -/
theorem handleMsg_routes (hmode : w.proc.mode = .server) (h : w.handleMsg a fd msg = .ok w') :
    (∃ w₁ port, w.proc.loggedIn a.outside msg.userId = true ∧ msg.type = MsgType.fileRequest.code ∧
      getWorker a (w.readsClient msg.userId) msg.fileId = .ok (w₁, port) ∧
      w' = w₁.sendMsg fd
        (createMsg .fileResponse (-1) msg.fileId msg.fileVersion (some (ch 'M' :: Decimal.digits port)))) ∨
    w'.proc.workers = w.proc.workers ∧ w'.proc.hport = w.proc.hport ∧ w'.children = w.children ∧
      (msg.type = MsgType.fileRequest.code → w'.sent = w.sent) := by
  have hne : ∀ {t : MsgType}, t ≠ .fileRequest → msg.type = t.code → msg.type = MsgType.fileRequest.code →
      w'.sent = w.sent := fun hne ht ht' => absurd (ht.symm.trans ht') (MsgType.ne_code rfl hne)
  obtain ⟨-, rfl⟩ | ⟨hadm, ⟨-, h⟩ | ⟨hm, -⟩⟩ := handleMsg_cases h
  · exact .inr ⟨rfl, rfl, rfl, fun _ => rfl⟩
  · cases handleServer_does h with
    | login ht h =>
        obtain ⟨u, -, ⟨-, list, proc, hproc, rfl⟩ | ⟨-, rfl⟩⟩ := login_cases h
        · obtain ⟨-, rfl⟩ := Proc.setClient_ok hproc
          exact .inr ⟨rfl, rfl, rfl, hne (by decide) ht⟩
        · exact .inr ⟨rfl, rfl, rfl, hne (by decide) ht⟩
    | register ht _ h =>
        obtain ⟨m, rfl⟩ := answer_sends h
        exact .inr ⟨rfl, rfl, rfl, hne (by decide) ht⟩
    | fileRequest ht hrun =>
        have hneeds : NeedsLogin msg := ⟨by rw [ht]; decide, by rw [ht]; decide⟩
        exact .inl ⟨_, _, hadm.resolve_right fun h => h hneeds, ht, hrun, rfl⟩
    | createFile ht _ h =>
        obtain ⟨m, rfl⟩ := answer_sends h
        exact .inr ⟨rfl, rfl, rfl, hne (by decide) ht⟩
    | deleteFile ht _ h =>
        obtain ⟨m, rfl⟩ := answer_sends h
        exact .inr ⟨rfl, rfl, rfl, hne (by decide) ht⟩
    | quit ht hproc =>
        obtain ⟨-, rfl⟩ := Proc.setClient_ok hproc
        exact .inr ⟨rfl, rfl, rfl, hne (by decide) ht⟩
    | ignore => exact .inr ⟨rfl, rfl, rfl, fun _ => rfl⟩
  · rw [hmode] at hm
    cases hm

end World

/-- Where no worker ends, all workers stay. -/
theorem World.step_alive {w w' : World R} {ev : Event} (hquiet : ∀ i msg a fd, ev = .message i msg a → w.connAt i ≠ some fd)
    (halive : ∀ pid, ev = .gone pid → ∀ child ∈ w.children, child.pid ≠ pid) (h : w.step ev = .ok w') :
    ∀ child ∈ w.children, child ∈ w'.children := by
  intro child hmem
  cases ev with
  | gone pid =>
      obtain rfl := Except.ok.inj h
      exact List.mem_filter.mpr ⟨hmem, decide_eq_true (halive pid rfl child hmem)⟩
  | accept | eof | files =>
      obtain rfl := Except.ok.inj h
      exact hmem
  | hangup i =>
      simp only [step] at h
      split at h <;>
      · obtain rfl := Except.ok.inj h
        exact hmem
  | message i msg a =>
      cases hfd : w.connAt i with
      | none =>
          simp only [step, hfd] at h
          obtain rfl := Except.ok.inj h
          exact hmem
      | some fd => exact absurd hfd (hquiet i msg a fd rfl)

/-! ## The table of workers -/

/-- The table of workers: every entry is the port of a worker that serves the document. -/
structure Routes (w : World R) : Prop where
  hport : 0 < w.proc.hport
  entry : ∀ f port pid, arrayGet w.proc.workers f = .ok (port, pid) → port ≠ 0 →
    1 ≤ f ∧ (0 < port ∧ port ≤ 65535) ∧ port < w.proc.hport ∧ ∃ child name, Serves w f port child ∧ child.name = some name ∧ name ≠ []
  apart : ∀ f g port pid pid', arrayGet w.proc.workers f = .ok (port, pid) → arrayGet w.proc.workers g = .ok (port, pid') →
    port ≠ 0 → f = g

section
variable {w w' : World R} {a : Answers} {f port : Int} {child : Child R}

theorem Serves.mono (h : Serves w f port child) (hmem : child ∈ w'.children)
    (hlisted : getFileName w'.disk f = .ok child.name) : Serves w' f port child :=
  ⟨hmem, h.port, h.pid, hlisted, h.loaded, h.started⟩

/-- The workers stay, and so do the names of their documents. -/
theorem Routes.of_eq (h : Routes w) (hworkers : w'.proc.workers = w.proc.workers) (hhport : w'.proc.hport = w.proc.hport)
    (hchildren : ∀ child ∈ w.children, child ∈ w'.children)
    (hnames : ∀ f name, w.HasWorker f → f ≠ 0 → name ≠ [] → getFileName w.disk f = .ok (some name) →
      getFileName w'.disk f = .ok (some name)) : Routes w' := by
  refine ⟨hhport ▸ h.hport, fun f port pid hget hne => ?_, fun f g port pid pid' hf hg hne => ?_⟩
  · rw [hworkers] at hget
    obtain ⟨hf, hvalid, hlt, child, name, hserves, hname, hnil⟩ := h.entry f port pid hget hne
    refine ⟨hf, hvalid, hhport ▸ hlt, child, name, hserves.mono (hchildren child hserves.mem) ?_, hname, hnil⟩
    rw [hname]
    exact hnames f name ⟨port, pid, hget, hne⟩ (by omega) hnil (hname ▸ hserves.listed)
  · rw [hworkers] at hf hg
    exact h.apart f g port pid pid' hf hg hne

/-- A child that loads its document starts. -/
theorem startWorker_returns (p : Proc R) (port pid : Int) {d : Disk} {name : Bytes} {fp : Inode}
    (hlisted : getFileName d f = .ok (some name)) (hfile : d.get name = some fp) :
    ∃ b : Buffer R, bufferFromFile fp.content f workerHeight workerWidth false = .ok b ∧
      startWorker d p f port pid = .ok {
        pid, port, name := some name
        proc := { p with
          mode := .worker
          pollList := List.replicate maxClients none
          clients := List.replicate (maxClients + 1) false
          buf := some b } } := by
  have hheight : workerHeight = (20 : Nat) := rfl
  obtain ⟨b, hload, -⟩ := bufferFromFile_exact (R := R) fp.content f workerWidth (show 2 ≤ 20 by decide) false
  rw [← hheight] at hload
  refine ⟨b, hload, ?_⟩
  simp only [startWorker, hlisted, loadBuffer, Option.bind_some, hfile, hload, Except.ok_bind_eq]
  rfl

/-- A new worker gets a port above all others. -/
theorem Routes.fork (h : Routes w) (hf : 1 ≤ f) {pid : Int} (hport : w.proc.hport < port) (hvalid : 0 < port ∧ port ≤ 65535)
    {name : Bytes} (hserves : Serves w' f port child) (hname : child.name = some name) (hnil : name ≠ [])
    (hhport : w'.proc.hport = port + 1) (hset : arraySet w.proc.workers f (port, pid) = .ok w'.proc.workers)
    (hchildren : ∀ c ∈ w.children, c ∈ w'.children) (hdisk : w'.disk = w.disk) : Routes w' ∧ Routed w' f port := by
  have hpos := h.hport
  have hold : ∀ {g q pid'}, arrayGet w.proc.workers g = .ok (q, pid') → q ≠ port := by
    rintro g q pid' hget rfl
    have := (h.entry g q pid' hget (by omega)).2.2.1
    omega
  refine ⟨⟨by omega, fun g q pid' hget hne => ?_, fun g₁ g₂ q pid₁ pid₂ hget₁ hget₂ hne => ?_⟩, hvalid, ⟨pid, arrayGet_set_self hset⟩,
    fun g q pid' hg hget => ?_, child, hserves⟩
  · rcases arrayGet_arraySet hset hget with ⟨rfl, heq⟩ | ⟨-, hget⟩
    · obtain ⟨rfl, -⟩ := Prod.mk.inj heq
      exact ⟨hf, hvalid, by omega, child, name, hserves, hname, hnil⟩
    · obtain ⟨hg, hvalid', hlt, c, n, hc, hn, hnil'⟩ := h.entry g q pid' hget hne
      exact ⟨hg, hvalid', by omega, c, n, hc.mono (hchildren c hc.mem) (by rw [hdisk]; exact hc.listed), hn, hnil'⟩
  · rcases arrayGet_arraySet hset hget₁ with ⟨rfl, heq₁⟩ | ⟨-, hget₁⟩
    · rcases arrayGet_arraySet hset hget₂ with ⟨rfl, -⟩ | ⟨-, hget₂⟩
      · rfl
      · exact absurd (Prod.mk.inj heq₁).1 (hold hget₂)
    · rcases arrayGet_arraySet hset hget₂ with ⟨rfl, heq₂⟩ | ⟨-, hget₂⟩
      · exact absurd (Prod.mk.inj heq₂).1 (hold hget₁)
      · exact h.apart g₁ g₂ q pid₁ pid₂ hget₁ hget₂ hne
  · rcases arrayGet_arraySet hset hget with ⟨heq, -⟩ | ⟨-, hget⟩
    · exact absurd heq hg
    · exact hold hget

/-- A document that is asked for gets a worker, or it has one. -/
theorem Routes.getWorker (h : Routes w) (hserved : RequestServed a w f) (hrun : getWorker a w f = .ok (w', port)) :
    Routes w' ∧ Routed w' f port := by
  rcases World.getWorker_cases hrun with ⟨pid, hget, hne, rfl⟩ | ⟨pid, lp, answers, rest, workers, hget, hlp, hpp, hset, rfl⟩
  · obtain ⟨-, hvalid, -, child, name, hserves, -⟩ := h.entry f port pid hget hne
    refine ⟨h, hvalid, ⟨pid, hget⟩, fun g q pid' hg hget' heq => ?_, child, hserves⟩
    subst heq
    exact hg (h.apart f g q pid pid' hget hget' hne).symm
  · have hnone : ¬ w.HasWorker f := by
      rintro ⟨port', pid', hget', hne⟩
      obtain ⟨rfl, -⟩ := Prod.mk.inj (Except.ok.inj (hget.symm.trans hget'))
      exact hne rfl
    obtain ⟨name, fp, hlisted, hnil, hfile⟩ := hserved.file hnone
    obtain ⟨b, hload, hstart⟩ := startWorker_returns { w.proc with hport := port + 1 } port a.pid hlisted hfile
    have hlt : w.proc.hport < port := by
      have h₁ := nextFree_le hlp
      have h₂ := nextFree_le hpp
      simp only at h₁ h₂
      omega
    have hpos := h.hport
    have hvalid : 0 < port ∧ port ≤ 65535 := ⟨by omega, hserved.ports hnone lp answers port rest hlp hpp⟩
    have hpid := hserved.fork hnone
    rw [if_pos hpid, hstart]
    exact h.fork hserved.range.1 hlt hvalid
      ⟨List.mem_cons_self .., rfl, hpid, hlisted, ⟨w.disk, name, fp, b, rfl, hfile, hload, rfl⟩, w.disk, startWorker_start hstart⟩
      rfl hnil rfl hset
      (fun c hc => List.mem_cons_of_mem _ hc) rfl

theorem Routed.of_eq (h : Routed w f port) (hworkers : w'.proc.workers = w.proc.workers)
    (hchildren : w'.children = w.children) (hdisk : w'.disk = w.disk) : Routed w' f port := by
  obtain ⟨child, hserves⟩ := h.served
  refine ⟨h.valid, hworkers ▸ h.entry, fun g q pid hg hget => h.apart g q pid hg (hworkers ▸ hget), child, ?_⟩
  exact hserves.mono (hchildren ▸ hserves.mem) (by rw [hdisk]; exact hserves.listed)

/-- A message keeps the table, and the port in an answer is routed. -/
theorem Routes.handleMsg {fd : Conn} {msg : Message} (h : Routes w) (hmode : w.proc.mode = .server)
    (hserved : w.proc.loggedIn a.outside msg.userId = true → msg.type = MsgType.fileRequest.code →
      RequestServed a w msg.fileId) (hrun : w.handleMsg a fd msg = .ok w')
    (hnames : ∀ f name, w.HasWorker f → f ≠ 0 → name ≠ [] → getFileName w.disk f = .ok (some name) →
      getFileName w'.disk f = .ok (some name)) :
    Routes w' ∧ ∀ port, msg.type = MsgType.fileRequest.code → w'.sent = w.sent ++
      [(fd, .sendMsg (createMsg .fileResponse (-1) msg.fileId msg.fileVersion (some (ch 'M' :: Decimal.digits port))))] →
      Routed w' msg.fileId port := by
  rcases World.handleMsg_routes hmode hrun with ⟨w₁, port₁, hflag, ht, hworker, rfl⟩ | ⟨hworkers, hhport, hchildren, hsent⟩
  · have hs := hserved hflag ht
    have hs' : RequestServed a (w.readsClient msg.userId) msg.fileId := ⟨hs.range, hs.fork, hs.ports, hs.file⟩
    have h' : Routes (w.readsClient msg.userId) := h.of_eq rfl rfl (fun _ h => h) fun f name _ _ _ hlisted => hlisted
    obtain ⟨hroutes, hrouted⟩ := h'.getWorker hs' hworker
    refine ⟨hroutes.of_eq rfl rfl (fun _ h => h) fun f name _ _ _ hlisted => hlisted, fun port _ hsent => ?_⟩
    have hfront : w₁.sent = w.sent := (World.getWorker_front hworker).sent
    have hreply := hsent
    rw [World.sendMsg, hfront] at hreply
    have hdigits : Decimal.digits port₁ = Decimal.digits port := by
      have := List.append_cancel_left hreply
      simpa [createMsg] using this
    obtain rfl : port₁ = port := by rw [← atoi_digits port₁, hdigits, atoi_digits]
    exact hrouted.of_eq rfl rfl rfl
  · refine ⟨h.of_eq hworkers hhport (fun _ hmem => hchildren ▸ hmem) hnames, fun port ht hreply => ?_⟩
    rw [hsent ht] at hreply
    simp at hreply

/-- The names of the documents that have a worker stay. -/
theorem World.step_names {ev : Event} (hmode : w.proc.mode = .server) (hok : ev.KeepsRoutes w) (hstep : w.step ev = .ok w')
    {name : Bytes} (hworker : w.HasWorker f) (hf : f ≠ 0) (hnil : name ≠ [])
    (hlisted : getFileName w.disk f = .ok (some name)) : getFileName w'.disk f = .ok (some name) := by
  rcases World.step_disk hmode hstep with ⟨fails, op, res, hop, hcall⟩ | ⟨-, hdisk | ⟨-, hfiles | ⟨freed, payload, u, hregister⟩⟩⟩
  · exact (hok.names fails op hop).getFileName hworker hf hnil hlisted hcall
  · rwa [hdisk]
  · rwa [getFileName_congr (hok.files _ hfiles ⟨f, hworker⟩)]
  · rwa [getFileName_congr (validateRegister_files hregister)]

/-- A step keeps the table, and the port in an answer is routed. -/
theorem Routes.step {ev : Event} (h : Routes w) (hmode : w.proc.mode = .server) (hok : ev.KeepsRoutes w)
    (hstep : w.step ev = .ok w') :
    Routes w' ∧ ∀ f port, (⟨w, ev, w'⟩ : Step R).Replies f port → Routed w' f port := by
  have hnames := fun (f : Int) (name : Bytes) (hworker : w.HasWorker f) (hf : f ≠ 0) (hnil : name ≠ []) =>
    World.step_names hmode hok hstep hworker hf hnil
  rcases World.step_cases hstep with ⟨i, msg, a, fd, rfl, hfd, hrun⟩ | ⟨hquiet, hidle⟩
  · obtain ⟨hroutes, hreplies⟩ := h.handleMsg hmode (hok.serves i msg a fd rfl hfd) hrun hnames
    refine ⟨hroutes, ?_⟩
    rintro f port ⟨i', msg', a', fd', hev, hfd', ht, rfl, hsent⟩
    obtain ⟨rfl, rfl, rfl⟩ := Event.message.inj hev
    obtain rfl := Option.some.inj (hfd.symm.trans hfd')
    exact hreplies port ht hsent
  · refine ⟨h.of_eq hidle.workers hidle.hport (World.step_alive hquiet hok.alive hstep) hnames, ?_⟩
    rintro f port ⟨i, msg, a, fd, hev, hfd, -⟩
    exact absurd hfd (hquiet i msg a fd hev)

/-- A document that has a worker keeps it. -/
theorem Routes.hasWorker {ev : Event} (h : Routes w) (hmode : w.proc.mode = .server) (hstep : w.step ev = .ok w')
    (hworker : w.HasWorker f) : w'.HasWorker f := by
  obtain ⟨port, pid, hget, hne⟩ := hworker
  have hsame : w'.proc.workers = w.proc.workers → w'.HasWorker f := fun heq => ⟨port, pid, heq ▸ hget, hne⟩
  rcases World.step_cases hstep with ⟨i, msg, a, fd, rfl, -, hrun⟩ | ⟨-, hidle⟩
  · rcases World.handleMsg_routes hmode hrun with ⟨w₁, port₁, -, -, hfork, rfl⟩ | ⟨hworkers, -⟩
    · rcases World.getWorker_cases hfork with ⟨-, -, -, rfl⟩ | ⟨pid₁, lp, answers, rest, workers, -, hlp, hpp, hset, rfl⟩
      · exact hsame rfl
      · by_cases heq : f = msg.fileId
        · refine ⟨port₁, a.pid, by rw [heq]; exact arrayGet_set_self hset, ?_⟩
          have hpos : 0 < w.proc.hport := h.hport
          have h₁ := nextFree_le hlp
          have h₂ := nextFree_le hpp
          simp only [World.readsClient] at h₁ h₂
          omega
        · exact ⟨port, pid, arrayGet_set_ne hset heq hget, hne⟩
    · exact hsame hworkers
  · exact hsame hidle.workers

end

/-! ## Runs -/

section
variable {w₀ w : World R} {trace : List (Step R)}

theorem ServerStart.routes (h : ServerStart w) : Routes w := by
  have hnone : ∀ f port pid, arrayGet w.proc.workers f = .ok (port, pid) → port = 0 := by
    intro f port pid hget
    rw [h.workers] at hget
    obtain ⟨-, hget⟩ := arrayGet_eq_ok.mp hget
    exact (Prod.mk.inj (List.eq_of_mem_replicate (List.mem_of_getElem? hget))).1
  exact ⟨by rw [h.hport]; decide, fun f port pid hget hne => absurd (hnone f port pid hget) hne,
    fun f g port pid pid' hget _ hne => absurd (hnone f port pid hget) hne⟩

theorem Run.routes (h : Run (fun w ev => ev.KeepsRoutes w) w₀ trace w) (h₀ : ServerStart w₀) : Routes w := by
  induction h with
  | init => exact h₀.routes
  | step hrun _ hok hev ih => exact (ih.step (hrun.frame.1.trans h₀.mode) hok hev).1

/-- The port in an answer is routed, and the document keeps its name as long as the run goes on. -/
theorem Run.replies (h : Run (fun w ev => ev.KeepsRoutes w) w₀ trace w) (h₀ : ServerStart w₀) :
    ∀ s ∈ trace, ∀ f port, s.Replies f port → Routed s.post f port ∧ w.HasWorker f ∧
      ∀ child, Serves s.post f port child → getFileName w.disk f = .ok child.name := by
  induction h with
  | init => exact fun s hs => nomatch hs
  | @step trace w w' ev hrun _ hok hev ih =>
      have hmode := hrun.frame.1.trans h₀.mode
      have hroutes := hrun.routes h₀
      intro s hs f port hreplies
      rcases List.mem_cons.mp hs with rfl | hs
      · have hrouted := (hroutes.step hmode hok hev).2 f port hreplies
        obtain ⟨pid, hget⟩ := hrouted.entry
        have hpos := hrouted.valid.1
        exact ⟨hrouted, ⟨port, pid, hget, by omega⟩, fun child hserves => hserves.listed⟩
      · obtain ⟨hrouted, hworker, hlisted⟩ := ih s hs f port hreplies
        refine ⟨hrouted, hroutes.hasWorker hmode hev hworker, fun child hserves => ?_⟩
        have hname := hlisted child hserves
        obtain ⟨port', pid', hget, hne⟩ := hworker
        obtain ⟨hf, -, -, c, name, hc, hcname, hnil⟩ := hroutes.entry f port' pid' hget hne
        have hsame : child.name = some name := Except.ok.inj (hname.symm.trans (hcname ▸ hc.listed))
        rw [hsame] at hname ⊢
        exact World.step_names hmode hok hev ⟨port', pid', hget, hne⟩ (by omega) hnil hname

end

theorem World.handleServer_fileRequest {a : Answers} {w w₁ : World R} {fd : Conn} {msg : Message} {port : Int}
    (ht : msg.type = MsgType.fileRequest.code) (hrun : getWorker a w msg.fileId = .ok (w₁, port)) :
    w.handleServer a fd msg = .ok (w₁.sendMsg fd
      (createMsg .fileResponse (-1) msg.fileId msg.fileVersion (some (ch 'M' :: Decimal.digits port)))) := by
  have hcode : MsgType.ofCode msg.type = some .fileRequest := MsgType.ofCode_eq_some.mpr ht
  simp only [handleServer, hcode, hrun, Except.ok_bind_eq]
  rfl

theorem World.getWorker_fork {a : Answers} {w : World R} {f pid lp port : Int} {answers rest : List Bool}
    {workers : List (Int × Int)} (hget : arrayGet w.proc.workers f = .ok (0, pid))
    (hlp : nextFree a.portFree w.proc.hport = .ok (lp, answers)) (hpp : nextFree answers (lp + 1) = .ok (port, rest))
    (hset : arraySet w.proc.workers f (port, a.pid) = .ok workers) :
    ∃ w₁, getWorker a w f = .ok (w₁, port) ∧ w₁.sent = w.sent ∧ (¬ 0 < a.pid → w₁.children = w.children) := by
  simp only [CoEditor.getWorker, hget, hlp, hpp, hset, Except.ok_bind_eq, ne_eq, not_true_eq_false, if_false]
  exact ⟨_, rfl, rfl, fun h => if_neg h⟩

/-- Anna asks for the document; `pid` is the answer of `fork`. -/
theorem anna_requests (pid : Int) (ok : World ListRope → Event → Prop)
    (hquiet : ∀ w ev, (∀ i msg a, ev = .message i msg a → msg = annaLogin) → (∀ d, ev ≠ .files d) → (∀ pid, ev ≠ .gone pid) → ok w ev)
    (hok : ∀ w, w.disk = demoDisk → w.proc.hport = 46958 → ok w (.message 0 annaRequest { demoAnswers with pid })) :
    ∃ w w' trace, Run ok (demoWorld .server demoDisk none)
      (⟨w, .message 0 annaRequest { demoAnswers with pid }, w'⟩ :: trace) w' ∧
      (⟨w, .message 0 annaRequest { demoAnswers with pid }, w'⟩ : Step ListRope).Replies 1 46959 ∧
      (¬ 0 < pid → w'.children = []) := by
  have h₁ : Run ok (demoWorld .server demoDisk none) (⟨_, .accept 0, _⟩ :: []) _ :=
    .step .init (by show 0 ∉ []; decide) (hquiet _ _ (by simp) (by simp) (by simp)) rfl
  have h₂ : Run ok (demoWorld .server demoDisk none) (⟨_, .message 0 annaLogin demoAnswers, _⟩ :: _) _ :=
    .step h₁ trivial (hquiet _ _ (fun i msg a he => (Event.message.inj he).2.1.symm) (by simp) (by simp)) (anna_logsIn rfl rfl rfl)
  have hlast : ∀ {w : World ListRope} {trace : List (Step ListRope)}, Run ok (demoWorld .server demoDisk none) trace w →
      w.proc.mode = .server → w.disk = demoDisk → w.proc.hport = 46958 → w.children = [] →
      w.proc.workers = List.replicate (maxWorkers + 1) (0, 0) → w.connAt 0 = some 0 →
      w.proc.loggedIn demoAnswers.outside 1 = true → ∃ w w' trace, Run ok (demoWorld .server demoDisk none)
        (⟨w, .message 0 annaRequest { demoAnswers with pid }, w'⟩ :: trace) w' ∧
        (⟨w, .message 0 annaRequest { demoAnswers with pid }, w'⟩ : Step ListRope).Replies 1 46959 ∧
        (¬ 0 < pid → w'.children = []) := by
    intro w trace hrun hmode hdisk hport hchildren hworkers hfd hflag
    obtain ⟨w₁, hfork, hsent, hnone⟩ : ∃ w₁, getWorker { demoAnswers with pid } (w.readsClient 1) 1 = .ok (w₁, 46959) ∧
        w₁.sent = w.sent ∧ (¬ 0 < pid → w₁.children = w.children) := by
      have hworkers : (w.readsClient 1).proc.workers = List.replicate (maxWorkers + 1) (0, 0) := hworkers
      have hport : nextFree demoAnswers.portFree (w.readsClient 1).proc.hport = .ok (46958, [true]) := by
        show nextFree _ w.proc.hport = _
        rw [hport]
        rfl
      exact World.getWorker_fork (by rw [hworkers]; rfl) hport rfl (by rw [hworkers]; rfl)
    have hev : w.step (.message 0 annaRequest { demoAnswers with pid }) =
        .ok (w₁.sendMsg 0 (createMsg .fileResponse (-1) 1 0 (some (ch 'M' :: Decimal.digits 46959)))) := by
      simp only [World.step, hfd]
      rw [World.handleMsg_admitted (.inl hflag), hmode]
      exact World.handleServer_fileRequest rfl hfork
    exact ⟨w, _, trace, .step hrun trivial (hok w hdisk hport) hev,
      ⟨0, annaRequest, _, 0, rfl, hfd, rfl, rfl, by rw [World.sendMsg, hsent]; rfl⟩, fun h => (hnone h).trans hchildren⟩
  exact hlast h₂ rfl rfl rfl rfl rfl rfl rfl

end CoEditor
