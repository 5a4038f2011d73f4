-- SUMMARY: From signing in at the main server to the document on the screen.
import CoEditor.Client.Lobby
import CoEditor.Client.Sessions

/-!
# Opening a document

What `main` of `editor.c` puts together: `server_loop` leaves with a port, and
`worker_loop` joins the worker behind it. The client then shows the file that
the main server had listed under the chosen number when it forked the worker,
and what has been typed into it since.
-/

namespace CoEditor

variable {R : Type} [Rope R]

/-- The plain document of a file in a worker. -/
def Sheet.load (content : Bytes) : Sheet where
  width := workerWidth
  texts := (content.splitOn 10).map (Doc.typedText workerWidth)
  curs _ := none

/-- A worker that was forked in a step, for a document listed under `f` and found on the disk. -/
structure Step.Forks (s : Step R) (f port : Int) (child : Child R) (content : Bytes) : Prop where
  listed : ∃ name fp, getFileName s.pre.disk f = .ok (some name) ∧ s.pre.disk.get name = some fp ∧ fp.content = content
  started : ∃ p, startWorker s.pre.disk p f port child.pid = .ok child

section
variable {a : Answers} {w₀ w w' : World R} {trace : List (Step R)} {f g port q : Int} {child : Child R} {s : Step R} {content : Bytes}

theorem World.getWorker_children (hrun : getWorker a w f = .ok (w', port)) (hmem : child ∈ w.children) : child ∈ w'.children := by
  rcases World.getWorker_cases hrun with ⟨-, -, -, rfl⟩ | ⟨pid, lp, answers, rest, workers, -, -, -, -, rfl⟩
  · exact hmem
  · dsimp only
    split
    · split
      · exact List.mem_cons_of_mem _ hmem
      · exact hmem
    · exact hmem

/-- A port that is new is that of a worker which was forked for its document. -/
theorem World.getWorker_forks (hserved : RequestServed a w f) (hrun : getWorker a w f = .ok (w', port))
    (hq : w'.HasPort g q) : w.HasPort g q ∨ g = f ∧ ∃ child ∈ w'.children, child.port = q ∧
      (∃ name fp, getFileName w.disk f = .ok (some name) ∧ w.disk.get name = some fp) ∧
      ∃ p, startWorker w.disk p f q child.pid = .ok child := by
  rcases World.getWorker_cases hrun with ⟨-, -, -, rfl⟩ | ⟨pid, lp, answers, rest, workers, hget, hlp, hpp, hset, rfl⟩
  · exact .inl hq
  · obtain ⟨hne, pid', hget'⟩ := hq
    rcases arrayGet_arraySet hset hget' with ⟨rfl, heq⟩ | ⟨-, hget'⟩
    · obtain ⟨rfl, -⟩ := Prod.mk.inj heq
      refine .inr ⟨rfl, ?_⟩
      have hnone : ¬ w.HasWorker g := by
        rintro ⟨port', pid', hget', hne⟩
        exact hne (Prod.mk.inj (Except.ok.inj (hget'.symm.trans hget))).1
      obtain ⟨name, fp, hlisted, -, hfile⟩ := hserved.file hnone
      obtain ⟨b, hload, hstart⟩ := startWorker_returns { w.proc with hport := q + 1 } q a.pid hlisted hfile
      rw [if_pos (hserved.fork hnone), hstart]
      exact ⟨_, List.mem_cons_self .., rfl, ⟨name, fp, hlisted, hfile⟩, _, hstart⟩
    · exact .inl ⟨hne, pid', hget'⟩

/-- Behind every port there is a worker that was forked for the document. -/
theorem Run.forked (h₀ : ServerStart w₀) (h : Run (fun w ev => ev.KeepsRoutes w) w₀ trace w) (hport : w.HasPort f port) :
    ∃ s ∈ trace, ∃ child ∈ w.children, ∃ content, s.Forks f port child content := by
  induction h generalizing f port with
  | init => exact absurd hport (h₀.no_ports f port)
  | @step trace w w' ev hrun _ hok hstep ih =>
      have hmode := hrun.frame.1.trans h₀.mode
      have hold : (∀ child ∈ w.children, child ∈ w'.children) → w.HasPort f port →
          ∃ s ∈ ⟨w, ev, w'⟩ :: trace, ∃ child ∈ w'.children, ∃ content, s.Forks f port child content := by
        intro hchildren hport
        obtain ⟨s, hs, child, hmem, hforks⟩ := ih hport
        exact ⟨s, List.mem_cons_of_mem _ hs, child, hchildren child hmem, hforks⟩
      rcases World.step_cases hstep with ⟨i, msg, a, fd, rfl, hfd, hmsg⟩ | ⟨hquiet, hidle⟩
      · rcases World.handleMsg_routes hmode hmsg with ⟨w₁, port₁, hflag, ht, hworker, rfl⟩ | ⟨hworkers, -, hchildren, -⟩
        · have hserved := hok.serves i msg a fd rfl hfd hflag ht
          have hserved' : RequestServed a (w.readsClient msg.userId) msg.fileId :=
            ⟨hserved.range, hserved.fork, hserved.ports, hserved.file⟩
          rcases World.getWorker_forks hserved' hworker hport with hport | ⟨rfl, child, hmem, rfl, ⟨name, fp, hlisted, hfile⟩, hstart⟩
          · have hkept : ∀ child ∈ w.children, child ∈ w₁.children := fun _ hmem => World.getWorker_children hworker hmem
            exact hold hkept hport
          · exact ⟨_, List.mem_cons_self .., child, hmem, fp.content, ⟨name, fp, hlisted, hfile, rfl⟩, hstart⟩
        · exact hold (fun child hmem => hchildren ▸ hmem) ((World.HasPort.of_eq hworkers).mp hport)
      · exact hold (World.step_alive hquiet hok.alive hstep) ((World.HasPort.of_eq hidle.workers).mp hport)

/-- What a worker has when it starts. -/
theorem Step.Forks.start (h : s.Forks f port child content) : WorkerStart (child.world s.pre.disk) ∧
    ∃ b : Buffer R, bufferFromFile content f workerHeight workerWidth false = .ok b ∧ child.proc.buf = some b := by
  obtain ⟨name, fp, hlisted, hfile, rfl⟩ := h.listed
  obtain ⟨p, hstart⟩ := h.started
  obtain ⟨b, hload, hstart'⟩ := startWorker_returns p port child.pid hlisted hfile
  refine ⟨startWorker_start hstart, b, hload, ?_⟩
  rw [← Except.ok.inj (hstart'.symm.trans hstart)]

/-- A worker starts with the plain document of its file. -/
theorem load_sheet (hascii : Ascii content) {b : Buffer R}
    (h : bufferFromFile content f workerHeight workerWidth false = .ok b) : b.sheet id = Sheet.load content := by
  have hheight : workerHeight = (20 : Nat) := rfl
  obtain ⟨b', hload, hexact⟩ := bufferFromFile_exact (R := R) content f workerWidth (show 2 ≤ 20 by decide) false
  rw [← hheight] at hload
  obtain rfl := Except.ok.inj (h.symm.trans hload)
  have hholds := hexact.sound.holds
  ext1
  · exact congrArg (fun t => t.2.2.2.1) (bufferFromFile_frame content f workerHeight workerWidth false b h)
  · rw [hholds.sheet]
    exact Doc.load_texts hascii workerWidth (by decide) false
  · rw [hholds.sheet]
    funext v
    show (if v = 0 then none else (Doc.load (R := R) content workerWidth 20 false).curs v) = none
    split
    · rfl
    · next hv => exact (Doc.load_curs ..).2 v hv

/-- A client that has joined a worker shows the file that the worker was forked for, and the calls made since. -/
theorem Step.Forks.shows (h : s.Forks f port child content) (hascii : Ascii content) {wk : World R} {trace : List (Step R)}
    (hrun : Run Event.Orderly (child.world s.pre.disk) trace wk) {t : Site R} (hjoined : t.Joined trace wk) :
    ∃ C, t.editor.b = some C ∧
      C.sheet (clientId t.editor.userId) = ((log trace).map Entry.op).foldl Sheet.perform (Sheet.load content) := by
  obtain ⟨h₀, b, hload, hb⟩ := h.start
  obtain ⟨S, hS, -, hsheet⟩ := hrun.attended h₀ hb
  obtain ⟨C, hC, hsync⟩ := hjoined.inSync h₀ hrun hS
  exact ⟨C, hC, by rw [hsync.sheet, hsheet, load_sheet hascii hload]⟩

end

/-- In a run that keeps the routes: behind the port that a client leaves the main server with there is a worker that was
    forked with the file then listed under the number its user chose, and whoever joins this worker shows that file and the
    calls made since. -/
theorem document_opened {w₀ : World R} {v₀ v : Visit R} (h₀ : ServerStart w₀) (hstart : v₀.Start (fun w ev => ev.KeepsRoutes w) w₀)
    (hvisit : v₀.Runs (fun w ev => ev.KeepsRoutes w) v) (hport : v.lobby.workerPort ≠ 0) :
    (∃ trace, Run (fun w ev => ev.KeepsRoutes w) w₀ trace v.world) ∧
      ∀ trace, Run (fun w ev => ev.KeepsRoutes w) w₀ trace v.world → ∃ s ∈ trace, ∃ child ∈ v.world.children, ∃ content,
        s.Forks v.lobby.fileId v.lobby.workerPort child content ∧
        ∀ wk strace (t : Site R), Ascii content → Run Event.Orderly (child.world s.pre.disk) strace wk → t.Joined strace wk →
          ∃ C, t.editor.b = some C ∧
            C.sheet (clientId t.editor.userId) = ((log strace).map Entry.op).foldl Sheet.perform (Sheet.load content) := by
  refine ⟨hvisit.server hstart, fun trace hserver => ?_⟩
  obtain ⟨s, hs, child, hmem, content, hforks⟩ := hserver.forked h₀ ((hvisit.inv h₀ hstart).port hport).2
  exact ⟨s, hs, child, hmem, content, hforks, fun wk strace t hascii hrun hjoined => hforks.shows hascii hrun hjoined⟩

/-- Anna joins a worker that was forked in the step for the first document. -/
def Step.annaOpens (s : Step ListRope) (child : Child ListRope) : Bool :=
  returns (getFileName s.pre.disk 1) fun name => (name.bind s.pre.disk.get).any fun fp =>
    decide (Ascii fp.content) && annaJoinsAs (child.world s.pre.disk) fun anna => anna.b.map Buffer.texts = some ["ab".toList]

/-- Anna opens her document. -/
theorem document_opened_anna : ∃ (v : Visit ListRope) (s : Step ListRope) (child : Child ListRope) (content : Bytes)
    (wk : World ListRope) (strace : List (Step ListRope)) (t : Site ListRope) (C : Buffer ListRope),
    annaVisit.Runs (fun w ev => ev.KeepsRoutes w) v ∧ child ∈ v.world.children ∧ s.Forks 1 46959 child content ∧
    Run Event.Orderly (child.world s.pre.disk) strace wk ∧ t.Joined strace wk ∧ t.editor.b = some C ∧
    C.texts = ["ab".toList] ∧
    C.sheet (clientId t.editor.userId) = ((log strace).map Entry.op).foldl Sheet.perform (Sheet.load content) := by
  have hplain : (.accept 0 : Event).Plain (demoWorld .server demoDisk none) := trivial
  have hserver : Run (fun w ev => ev.Plain w) (demoWorld .server demoDisk none)
      [⟨demoWorld .server demoDisk none, .accept 0, annaVisit.world⟩] annaVisit.world :=
    .step .init (by show 0 ∉ []; decide) hplain rfl
  obtain ⟨v, hplay, hP⟩ : ∃ v, annaVisit.play (fun w ev => ev.Plain w) annaActs = some v ∧
      (decide (v.lobby.workerPort = 46959 ∧ v.lobby.fileId = 1) && (annaVisit.steps annaActs ++
        [(⟨demoWorld .server demoDisk none, .accept 0, annaVisit.world⟩ : Step ListRope)]).all fun (s : Step ListRope) =>
          v.world.children.all fun child => s.annaOpens child) = true :=
    (Option.any_eq_true _ _).mp (by decide +kernel)
  obtain ⟨hport, hopens⟩ := Bool.and_eq_true_iff.mp hP
  obtain ⟨hport, hfile⟩ := of_decide_eq_true hport
  have hvisit := (Visit.Runs.init.play hplay).mono fun _ _ h => Event.Plain.keepsRoutes h
  have hruns := (Visit.play_server hserver hplay).mono fun _ _ h => Event.Plain.keepsRoutes h
  obtain ⟨-, hforked⟩ := document_opened (demoWorld_server demoDisk) (annaVisit_start hplain.keepsRoutes) hvisit
    (by rw [hport]; decide)
  obtain ⟨s, hs, child, hmem, content, hforks, hshows⟩ := hforked _ hruns
  rw [hport, hfile] at hforks
  -- whichever step has forked it, Anna joins the worker
  obtain ⟨name, hlisted, hopens⟩ := exists_of_returns (List.all_eq_true.mp (List.all_eq_true.mp hopens s hs) child hmem)
  obtain ⟨fp, hfp, hopens⟩ := (Option.any_eq_true _ _).mp hopens
  obtain ⟨hascii, hjoins⟩ := Bool.and_eq_true_iff.mp hopens
  obtain ⟨name', fp', hlisted', hfile', rfl⟩ := hforks.listed
  obtain rfl := Except.ok.inj (hlisted.symm.trans hlisted')
  obtain rfl := Option.some.inj (hfp.symm.trans hfile')
  obtain ⟨wk, strace, t, hrun, hjoined, htexts⟩ := exists_joined hjoins
  obtain ⟨C, hC, hsheet⟩ := hshows wk strace t (of_decide_eq_true hascii) hrun hjoined
  have htexts := of_decide_eq_true htexts
  rw [hC] at htexts
  exact ⟨v, s, child, _, wk, strace, t, C, hvisit, hmem, hforks, hrun, hjoined, hC, Option.some.inj htexts, hsheet⟩

end CoEditor
