-- SUMMARY: Clients that join a worker one after another can then edit together, and come to agree.
import CoEditor.Client.Convergence
import CoEditor.Client.Watching

/-!
# Joined clients

Where a network starts: clients that have joined a worker one after another,
and have caught up with it.
-/

namespace CoEditor

variable {R : Type} [Rope R]

/-- The client has joined in the run, has only watched since, and has handled all that it was sent. -/
structure Site.Joined (t : Site R) (trace : List (Step R)) (w : World R) : Prop where
  watched : ∃ (s : Step R) (new old : List (Step R)) (E : Editor R), trace = new ++ s :: old ∧
    s.Joins t.fd t.editor.userId ∧ (∀ s' ∈ new, s'.Leaves t.fd t.editor.userId) ∧ E.userId = t.editor.userId ∧
    E.watch ((w.inbox t.fd).drop (s.pre.inbox t.fd).length) = .ok t.editor
  polled : ∃ j, w.connAt j = some t.fd
  up : t.up = []
  got : t.got = (w.inbox t.fd).length

section
variable {w₀ w : World R} {trace : List (Step R)} {t : Site R} {S : Buffer R} {u : Int}

/-- In a worker a flag that is up stays up. -/
theorem Run.flag_stays {ok : World R → Event → Prop} (h₀ : WorkerStart w₀) (h : Run ok w₀ trace w)
    (hu : 0 ≤ u ∧ u ≤ maxClients) {outside : Int → Bool} {s : Step R} (hs : s ∈ trace)
    (hflag : s.pre.proc.loggedIn outside u = true) : w.proc.loggedIn outside u = true := by
  induction h with
  | init => cases hs
  | @step trace w w' ev hrun _ _ hstep ih =>
      have hmode : w.proc.mode = .worker := hrun.frame.1.trans h₀.mode
      have hbefore : w.proc.loggedIn outside u = true := by
        rcases List.mem_cons.mp hs with rfl | hs
        · exact hflag
        · exact ih hs
      refine (Step.flag (s := ⟨w, ev, w'⟩) hstep (hrun.inTable h₀.clients hu) outside).mpr (.inr ⟨?_, hbefore⟩)
      rintro ⟨hserver, -⟩
      cases hmode.symm.trans hserver

/-- A client that has joined shows what the worker shows. -/
theorem Site.Joined.inSync (h : t.Joined trace w) (h₀ : WorkerStart w₀) (hrun : Run Event.Orderly w₀ trace w)
    (hS : w.proc.buf = some S) : ∃ C, t.editor.b = some C ∧ InSync t.editor.userId S C := by
  obtain ⟨s, new, old, E, rfl, hjoin, hleaves, hE, hwatch⟩ := h.watched
  obtain ⟨msgs, S', hinbox, hwatched⟩ := hrun.watched h₀ hjoin hleaves h.polled hE
  obtain rfl := Option.some.inj (hS.symm.trans hwatched.buf)
  rw [hinbox, List.drop_left] at hwatch
  obtain ⟨-, C, d, e, hC, hreached, hmirrored⟩ := hwatched.mirrored _ hwatch
  exact ⟨C, hC, hreached, hmirrored.client.serverMode.trans hmirrored.swapped.client, hmirrored.sheet hwatched.present⟩

/-- Its user is logged in. -/
theorem Site.Joined.loggedIn (h : t.Joined trace w) (h₀ : WorkerStart w₀) (hrun : Run Event.Orderly w₀ trace w) :
    t.editor.userId ≠ 0 ∧ ∀ outside, w.proc.loggedIn outside t.editor.userId = true := by
  obtain ⟨s, new, old, E, rfl, ⟨i, msg, a, hev, hfd, hflag, ht, hu⟩, -, -, -⟩ := h.watched
  obtain ⟨hbefore, -, hok, -⟩ := hrun.of_suffix (s := s) (t := old) (List.suffix_append _ _)
  rw [hev] at hok
  have he : s.pre.entry (.message i msg a) = some ⟨t.fd, msg, .copyOwn msg.userId⟩ :=
    World.entry_eq_some.mpr ⟨i, a, rfl, hfd, hflag, .join ht⟩
  obtain ⟨h0, hle⟩ := hbefore.entry_user h₀ hok he
  dsimp only at h0 hle
  rw [← hu]
  have hs : s ∈ new ++ s :: old := by simp
  refine ⟨by omega, fun outside => hrun.flag_stays h₀ ⟨by omega, hle⟩ hs ?_⟩
  rw [Proc.loggedIn, if_pos (hbefore.inTable h₀.clients ⟨by omega, hle⟩)] at hflag ⊢
  exact hflag

/-- Clients that have joined a worker can begin to edit. -/
theorem Run.startsNet (h₀ : WorkerStart w₀) (hrun : Run Event.Orderly w₀ trace w) (hS : w.proc.buf = some S)
    {sites : List (Site R)} (hjoined : ∀ t ∈ sites, t.Joined trace w) (hfds : (sites.map Site.fd).Nodup)
    (husers : (sites.map fun t => t.editor.userId).Nodup) : Net.Start ⟨w, sites⟩ S := by
  have hpolled := hrun.polled h₀.pollList h₀.closed
  exact
    { mode := hrun.frame.1.trans h₀.mode
      buf := hS
      reached := (hrun.attended_of_buf h₀ hS).reached
      polls := hpolled.conns_nodup
      fds := hfds
      users := husers
      polled := fun t ht => by
        obtain ⟨j, hj⟩ := (hjoined t ht).polled
        exact List.reduceOption_mem_iff.mpr (List.mem_of_getElem? (World.connAt_eq.mp hj))
      loggedIn := fun t ht => ((hjoined t ht).loggedIn h₀ hrun).2
      user := fun t ht => ((hjoined t ht).loggedIn h₀ hrun).1
      quiet := fun t ht => ⟨(hjoined t ht).up, (hjoined t ht).got⟩
      inSync := fun t ht => (hjoined t ht).inSync h₀ hrun hS }

/-- Clients that have joined a worker one after another and then edit while only calls cross that commute show what the
    worker shows whenever nothing is under way. -/
theorem joined_clients_converge (h₀ : WorkerStart w₀) (hrun : Run Event.Orderly w₀ trace w) (hS : w.proc.buf = some S)
    {sites : List (Site R)} (hjoined : ∀ t ∈ sites, t.Joined trace w) (hfds : (sites.map Site.fd).Nodup)
    (husers : (sites.map fun t => t.editor.userId).Nodup) {net : Net R}
    (hnet : Net.Runs (fun net act => act.Commutes net) ⟨w, sites⟩ net) (hquiet : net.Quiet) :
    ∃ S', net.world.proc.buf = some S' ∧
      ∀ t ∈ net.sites, ∃ C, t.editor.b = some C ∧ C.sheet (clientId t.editor.userId) = S'.sheet id := by
  obtain ⟨S', d, sheet, hinv⟩ := (hrun.startsNet h₀ hS hjoined hfds husers).runs hnet
  refine ⟨S', hinv.buf, fun t ht => ?_⟩
  obtain ⟨i, hi⟩ := List.mem_iff_getElem?.mp ht
  obtain ⟨hup, hdown⟩ := hquiet t ht
  exact hinv.agree hi hup hdown

end

/-- Anna logs in over the first connection of a worker and asks for the document. -/
def annaJoins : List Event :=
  [.accept 0, .message 0 annaLogin demoAnswers, .message 0 (createMsg .fileRequest 1 1 (-1) none) demoAnswers]

/-- Does Anna join the worker that starts as `w₀`, so that `P` holds of her client? -/
def annaJoinsAs (w₀ : World ListRope) (P : Editor ListRope → Bool) : Bool :=
  (w₀.play (fun w ev => ev.Orderly w) [] annaJoins).any fun x =>
    match x.2 with
    | s :: _ => decide (s.Joins 0 1 ∧ x.1.connAt 0 = some 0) &&
        returns (Editor.watch (⟨1, 1, none⟩ : Editor ListRope) ((x.1.inbox 0).drop (s.pre.inbox 0).length)) fun anna =>
          decide (anna.userId = 1) && P anna
    | [] => false

theorem exists_joined {w₀ : World ListRope} {P : Editor ListRope → Bool} (h : annaJoinsAs w₀ P = true) :
    ∃ (w : World ListRope) (trace : List (Step ListRope)) (t : Site ListRope),
      Run Event.Orderly w₀ trace w ∧ t.Joined trace w ∧ P t.editor = true := by
  obtain ⟨⟨w, trace⟩, hplay, hP⟩ := (Option.any_eq_true _ _).mp h
  have hrun : Run Event.Orderly w₀ trace w := Run.init.play hplay
  match trace, hrun, hP with
  | s :: old, hrun, hP =>
      obtain ⟨htest, hP⟩ := Bool.and_eq_true_iff.mp hP
      obtain ⟨hjoin, hfd⟩ := of_decide_eq_true htest
      obtain ⟨anna, hanna, hP⟩ := exists_of_returns hP
      obtain ⟨hid, hP⟩ := Bool.and_eq_true_iff.mp hP
      have hid : anna.userId = 1 := of_decide_eq_true hid
      -- she has handled all that she was sent
      refine ⟨w, _, ⟨0, anna, [], (w.inbox 0).length⟩, hrun, ⟨?_, ⟨0, hfd⟩, rfl, rfl⟩, hP⟩
      exact ⟨s, [], old, ⟨1, 1, none⟩, rfl, hid ▸ hjoin, by simp, hid.symm, hanna⟩

/-- Anna and Bert, once they have joined. -/
def pairNet (w : World ListRope) (anna bert : Editor ListRope) : Net ListRope :=
  ⟨w, [⟨0, anna, [], (w.inbox 0).length⟩, ⟨1, bert, [], (w.inbox 1).length⟩]⟩

/-- Anna breaks the line, and Bert goes back up. Then both type at the same time. -/
def pairActs : List Act :=
  [.press 0 .newline, .handle 0 demoAnswers, .deliver 1, .press 1 .up, .handle 1 demoAnswers, .deliver 0,
    .press 0 (.char 121), .press 1 (.char 120), .handle 0 demoAnswers, .handle 1 demoAnswers, .deliver 0, .deliver 1]

theorem joined_clients_converge_pair : ∃ (b : Buffer ListRope) (w : World ListRope) (trace : List (Step ListRope))
    (anna bert : Editor ListRope) (net : Net ListRope) (S : Buffer ListRope),
    Run Event.Orderly (demoWorld .worker pairDisk (some b)) trace w ∧
    Net.Runs (fun net act => act.Commutes net) (pairNet w anna bert) net ∧ net.world.proc.buf = some S ∧
    S.texts = ["x".toList, "yab".toList] ∧
    ∀ t ∈ net.sites, ∃ C, t.editor.b = some C ∧ C.sheet (clientId t.editor.userId) = S.sheet id := by
  obtain ⟨b, w, trace, h₀, hrun, hP⟩ := exists_pair (pairEvents.take 6) (P := fun w trace =>
    match trace with
    | s₂ :: s₁ :: _ => decide (s₁.Joins 0 1 ∧ s₂.Leaves 0 1 ∧ s₂.Joins 1 2 ∧ w.connAt 0 = some 0 ∧ w.connAt 1 = some 1 ∧
          w.proc.buf.isSome = true) &&
        returns (Editor.watch (⟨1, 1, none⟩ : Editor ListRope) ((w.inbox 0).drop (s₁.pre.inbox 0).length)) fun anna =>
          returns (Editor.watch (⟨2, 1, none⟩ : Editor ListRope) ((w.inbox 1).drop (s₂.pre.inbox 1).length)) fun bert =>
            decide (anna.userId = 1 ∧ bert.userId = 2) &&
              ((pairNet w anna bert).play (fun net act => act.Apart net) pairActs).any fun (net : Net ListRope) =>
                decide (net.Quiet ∧ net.world.proc.buf.map Buffer.texts = some ["x".toList, "yab".toList])
    | [_] | [] => false) (by decide +kernel)
  match trace, hrun, hP with
  | s₂ :: s₁ :: old, hrun, hP =>
      obtain ⟨htest, hP⟩ := Bool.and_eq_true_iff.mp hP
      obtain ⟨hjoin₁, hleaves₁, hjoin₂, hfd₁, hfd₂, hbuf⟩ := of_decide_eq_true htest
      obtain ⟨S₀, hS₀⟩ := Option.isSome_iff_exists.mp hbuf
      obtain ⟨anna, hanna, hP⟩ := exists_of_returns hP
      obtain ⟨bert, hbert, hP⟩ := exists_of_returns hP
      obtain ⟨hids, hP⟩ := Bool.and_eq_true_iff.mp hP
      obtain ⟨hid₁, hid₂⟩ := of_decide_eq_true hids
      obtain ⟨net, hplay, hP⟩ := (Option.any_eq_true _ _).mp hP
      obtain ⟨hquiet, htexts⟩ := of_decide_eq_true hP
      have hruns := (Net.Runs.init.play hplay).mono fun _ _ => Act.Apart.commutes
      have hjoined : ∀ t ∈ (pairNet w anna bert).sites, t.Joined (s₂ :: s₁ :: old) w := by
        intro t ht
        rcases List.mem_cons.mp ht with rfl | ht
        · exact ⟨⟨s₁, [s₂], old, ⟨1, 1, none⟩, rfl, hid₁ ▸ hjoin₁, by simpa [hid₁] using hleaves₁, hid₁.symm, hanna⟩,
            ⟨0, hfd₁⟩, rfl, rfl⟩
        · obtain rfl := List.mem_singleton.mp ht
          exact ⟨⟨s₂, [], s₁ :: old, ⟨2, 1, none⟩, rfl, hid₂ ▸ hjoin₂, by simp, hid₂.symm, hbert⟩, ⟨1, hfd₂⟩, rfl, rfl⟩
      have husers : ((pairNet w anna bert).sites.map fun t => t.editor.userId).Nodup := by
        show [anna.userId, bert.userId].Nodup
        rw [hid₁, hid₂]
        decide
      obtain ⟨S, hS, hsites⟩ := joined_clients_converge h₀ hrun hS₀ hjoined (show [0, 1].Nodup by decide) husers hruns hquiet
      rw [hS] at htexts
      exact ⟨b, w, _, anna, bert, net, S, hrun, hruns, hS, Option.some.inj htexts, hsites⟩

end CoEditor
