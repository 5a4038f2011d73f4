-- SUMMARY: Which workers the main server forks, one for each document, and whom the signal to shut down reaches.
import CoEditor.Server.Routing
import Mathlib.Data.List.Forall2

/-!
# Workers that are forked

The table of workers is all that the main server knows of its children. It has
one entry for each document, which `get_worker` writes when it forks, and which
says where the signal to shut down is passed on to. A worker that ends leaves its
entry behind, and so does a `fork` that fails.
-/

namespace CoEditor

variable {R : Type} [Rope R]

/-- The document that a worker is forked for in an event, and what `fork` returns. -/
def World.fork (w : World R) : Event → Option (Int × Int)
  | .message i msg a =>
      if (w.connAt i).isSome ∧ w.proc.loggedIn a.outside msg.userId = true ∧ msg.type = MsgType.fileRequest.code then
        match arrayGet w.proc.workers msg.fileId with
        | .ok (port, _) => if port = 0 then some (msg.fileId, a.pid) else none
        | .error _ => none
      else none
  | _ => none

/-- The calls of `fork`, the first one first. -/
def forks (trace : List (Step R)) : List (Int × Int) := trace.reverse.filterMap fun s => s.pre.fork s.event

omit [Rope R] in
theorem forks_cons (s : Step R) (trace : List (Step R)) : forks (s :: trace) = forks trace ++ (s.pre.fork s.event).toList := by
  rw [forks, List.reverse_cons, List.filterMap_append, ← forks]
  cases h : s.pre.fork s.event <;> simp [h]

/-- A worker that has a buffer has that of document `f`. -/
def Child.Holds (child : Child R) (f : Int) : Prop := ∀ b, child.proc.buf = some b → b.id = f

/-- How often process `p` gets a signal that `kill` sends to each of `pids`; `-1` stands for all processes. -/
def signals (pids : List Int) (p : Int) : Nat := pids.countP fun pid => pid = p ∨ pid = -1

/-! ## One step -/

/-- One more element of the list passes. -/
theorem filter_set_cons {α : Type} {p : α → Bool} {l : List α} {i : Nat} {x y : α} (hi : l[i]? = some x) (hx : p x = false)
    (hy : p y = true) : ((l.set i y).filter p).Perm (y :: l.filter p) := by
  obtain ⟨hlt, rfl⟩ := List.getElem?_eq_some_iff.mp hi
  have hl : l = l.take i ++ l[i] :: l.drop (i + 1) := by rw [List.cons_getElem_drop_succ, List.take_append_drop]
  have hfilter : l.filter p = (l.take i).filter p ++ (l.drop (i + 1)).filter p := by
    conv_lhs => rw [hl, List.filter_append, List.filter_cons_of_neg (by simp [hx])]
  rw [List.set_eq_take_append_cons_drop, if_pos hlt, List.filter_append, List.filter_cons_of_pos hy, hfilter]
  exact List.perm_middle

namespace World

variable {a : Answers} {w w' : World R} {fd : Conn} {msg : Message} {ev : Event} {f port : Int}

theorem handleMsg_request (hmode : w.proc.mode = .server) (hflag : w.proc.loggedIn a.outside msg.userId = true)
    (ht : msg.type = MsgType.fileRequest.code) (h : w.handleMsg a fd msg = .ok w') :
    ∃ w₁ port m, getWorker a (w.readsClient msg.userId) msg.fileId = .ok (w₁, port) ∧ w' = w₁.sendMsg fd m := by
  have hcode : MsgType.ofCode msg.type = some .fileRequest := MsgType.ofCode_eq_some.mpr ht
  rw [handleMsg_admitted (.inl hflag), hmode] at h
  simp only [handleServer, hcode] at h
  obtain ⟨⟨w₁, port⟩, hrun, h⟩ := Except.bind_eq_ok.mp h
  exact ⟨w₁, port, _, hrun, (Except.ok.inj h).symm⟩

/-- A worker that has loaded a file has it under the id it was started with. -/
theorem startWorker_child {d : Disk} {p : Proc R} {pid : Int} {child : Child R} (h : startWorker d p f port pid = .ok child) :
    child.pid = pid ∧ child.Holds f := by
  obtain ⟨name, -, h⟩ := Except.bind_eq_ok.mp h
  obtain ⟨buf, hbuf, h⟩ := Except.bind_eq_ok.mp h
  obtain rfl := Except.ok.inj h
  refine ⟨rfl, fun b hb => ?_⟩
  obtain rfl : buf = some b := hb
  unfold loadBuffer at hbuf
  split at hbuf
  · cases hbuf
  · next fp _ =>
      obtain ⟨b', hload, hsome⟩ := Except.map_eq_ok.mp hbuf
      obtain rfl := Option.some.inj hsome
      exact congrArg Prod.fst (bufferFromFile_frame fp.content f workerHeight workerWidth false b' hload)

/-- What a step of the main server does to the workers: some end, or it forks one for a document that has none. -/
theorem step_fork (hmode : w.proc.mode = .server) (hports : 0 < w.proc.hport) (h : w.step ev = .ok w') :
    (w.fork ev = none ∧ w'.proc.workers = w.proc.workers ∧ w'.proc.hport = w.proc.hport ∧ w'.children.Sublist w.children) ∨
    ∃ f pid port pid₀, w.fork ev = some (f, pid) ∧ arrayGet w.proc.workers f = .ok (0, pid₀) ∧ 0 < port ∧
      arraySet w.proc.workers f (port, pid) = .ok w'.proc.workers ∧ w'.proc.hport = port + 1 ∧
      (w'.children = w.children ∨ ∃ child : Child R, w'.children = child :: w.children ∧ child.pid = pid ∧ child.Holds f) := by
  rcases step_cases h with ⟨i, msg, a, fd, rfl, hfd, hmsg⟩ | ⟨hquiet, hidle⟩
  · by_cases hreq : (w.connAt i).isSome ∧ w.proc.loggedIn a.outside msg.userId = true ∧ msg.type = MsgType.fileRequest.code
    · obtain ⟨w₁, port, m, hrun, rfl⟩ := handleMsg_request hmode hreq.2.1 hreq.2.2 hmsg
      rcases getWorker_cases hrun with ⟨pid, hget, hne, rfl⟩ | ⟨pid, lp, answers, rest, workers, hget, hlp, hpp, hset, rfl⟩
      · have hget : arrayGet w.proc.workers msg.fileId = .ok (port, pid) := hget
        refine .inl ⟨?_, rfl, rfl, .refl _⟩
        rw [fork, if_pos hreq, hget]
        exact if_neg hne
      · have hget : arrayGet w.proc.workers msg.fileId = .ok (0, pid) := hget
        have hpos : 0 < port := by
          have h₁ : w.proc.hport ≤ lp := nextFree_le hlp
          have h₂ : lp + 1 ≤ port := nextFree_le hpp
          omega
        refine .inr ⟨msg.fileId, a.pid, port, pid, ?_, hget, hpos, hset, rfl, ?_⟩
        · rw [fork, if_pos hreq, hget]
          exact if_pos rfl
        · dsimp only [sendMsg]
          split
          · split
            · next child hstart => exact .inr ⟨child, rfl, startWorker_child hstart⟩
            · exact .inl rfl
          · exact .inl rfl
    · have hfork : w.fork (.message i msg a) = none := by rw [fork, if_neg hreq]
      rcases handleMsg_routes hmode hmsg with ⟨-, -, hflag, ht, -⟩ | ⟨hworkers, hhport, hchildren, -⟩
      · exact absurd ⟨Option.isSome_of_eq_some hfd, hflag, ht⟩ hreq
      · exact .inl ⟨hfork, hworkers, hhport, hchildren ▸ .refl _⟩
  · refine .inl ⟨?_, hidle.workers, hidle.hport, hidle.children⟩
    unfold fork
    split
    · next i msg a =>
        refine if_neg fun hreq => ?_
        obtain ⟨fd, hfd⟩ := Option.isSome_iff_exists.mp hreq.1
        exact hquiet i msg a fd rfl hfd
    · rfl

end World

/-! ## Runs -/

section
variable {w₀ w : World R} {trace : List (Step R)}

/-- The table of workers and the children as they have come about by the calls of `fork`. -/
structure Forked (trace : List (Step R)) (w : World R) : Prop where
  hport : 0 < w.proc.hport
  once : ((forks trace).map Prod.fst).Nodup
  entry : ∀ f ∈ (forks trace).map Prod.fst, ∀ port pid, arrayGet w.proc.workers f = .ok (port, pid) → port ≠ 0
  signalled : ((w.proc.workers.filter (·.1 ≠ 0)).map Prod.snd).Perm ((forks trace).map Prod.snd)
  children : ∃ docs : List Int, docs.Nodup ∧ docs ⊆ (forks trace).map Prod.fst ∧
    List.Forall₂ (fun child f => (f, child.pid) ∈ forks trace ∧ child.Holds f) w.children docs

/-- What relates two lists one to one relates a part of the one to a part of the other. -/
theorem forall₂_sublist {α β : Type} {P : α → β → Prop} {l l' : List α} {m : List β} (h : List.Forall₂ P l m) (hsub : l'.Sublist l) :
    ∃ m', m'.Sublist m ∧ List.Forall₂ P l' m' := by
  induction hsub generalizing m with
  | slnil => exact ⟨m, .refl m, h⟩
  | cons _ _ ih =>
      cases h with
      | cons _ hrest =>
          obtain ⟨m', hm', hall⟩ := ih hrest
          exact ⟨m', hm'.cons _, hall⟩
  | cons_cons _ _ ih =>
      cases h with
      | cons hhead hrest =>
          obtain ⟨m', hm', hall⟩ := ih hrest
          exact ⟨_, hm'.cons_cons _, .cons hhead hall⟩

omit [Rope R] in
theorem ServerStart.forked (h₀ : ServerStart w₀) : Forked [] w₀ where
  hport := by rw [h₀.hport]; decide
  once := List.nodup_nil
  entry := fun _ hf => absurd hf List.not_mem_nil
  signalled := by
    rw [h₀.workers, List.filter_replicate]
    exact .refl _
  children := ⟨[], List.nodup_nil, List.nil_subset _, h₀.children ▸ .nil⟩

omit [Rope R] in
theorem Forked.fork {s : Step R} {f pid port pid₀ : Int} (h : Forked trace s.pre) (hfork : s.pre.fork s.event = some (f, pid))
    (hget : arrayGet s.pre.proc.workers f = .ok (0, pid₀)) (hpos : 0 < port)
    (hset : arraySet s.pre.proc.workers f (port, pid) = .ok s.post.proc.workers) (hhport : s.post.proc.hport = port + 1)
    (hchildren : s.post.children = s.pre.children ∨
      ∃ child : Child R, s.post.children = child :: s.pre.children ∧ child.pid = pid ∧ child.Holds f) :
    Forked (s :: trace) s.post := by
  have hforks : forks (s :: trace) = forks trace ++ [(f, pid)] := by rw [forks_cons, hfork, Option.toList_some]
  have hnew : f ∉ (forks trace).map Prod.fst := fun hmem => h.entry f hmem 0 pid₀ hget rfl
  have hold : ∀ {child g}, (g, child.pid) ∈ forks trace ∧ Child.Holds (R := R) child g →
      (g, child.pid) ∈ forks trace ++ [(f, pid)] ∧ child.Holds g := fun h => ⟨List.mem_append_left _ h.1, h.2⟩
  have hne : port ≠ 0 := by omega
  refine ⟨by omega, ?_, ?_, ?_, ?_⟩
  · rw [hforks, List.map_append, List.map_singleton]
    refine List.nodup_append.mpr ⟨h.once, List.nodup_singleton f, ?_⟩
    rintro g hg _ hf rfl
    obtain rfl := List.mem_singleton.mp hf
    exact hnew hg
  · intro g hg port' pid' hget'
    rcases arrayGet_arraySet hset hget' with ⟨-, heq⟩ | ⟨hgf, hget'⟩
    · obtain ⟨rfl, -⟩ := Prod.mk.inj heq
      exact hne
    · rw [hforks, List.map_append, List.map_singleton, List.mem_append, List.mem_singleton] at hg
      exact h.entry g (hg.resolve_right hgf) port' pid' hget'
  · obtain ⟨-, -, hworkers⟩ := arraySet_ok hset
    have hperm := filter_set_cons (p := fun e => decide (e.1 ≠ 0)) (y := (port, pid)) (arrayGet_eq_ok.mp hget).2 (by simp) (by simpa)
    rw [hworkers, hforks, List.map_append, List.map_singleton]
    exact ((hperm.map Prod.snd).trans (h.signalled.cons pid)).trans (List.perm_append_singleton pid _).symm
  · obtain ⟨docs, hnodup, hsub, hall⟩ := h.children
    have hall : List.Forall₂ (fun child f => (f, child.pid) ∈ forks (s :: trace) ∧ child.Holds f) s.pre.children docs :=
      hall.imp fun _ _ h => hforks ▸ hold h
    have hsub' : docs ⊆ (forks (s :: trace)).map Prod.fst := by
      rw [hforks, List.map_append]
      exact List.subset_append_of_subset_left _ hsub
    rcases hchildren with hsame | ⟨child, hcons, rfl, hholds⟩
    · exact ⟨docs, hnodup, hsub', hsame ▸ hall⟩
    · have hmem : (f, child.pid) ∈ forks (s :: trace) := by simp [hforks]
      refine ⟨f :: docs, List.nodup_cons.mpr ⟨fun hf => hnew (hsub hf), hnodup⟩, ?_, hcons ▸ .cons ⟨hmem, hholds⟩ hall⟩
      exact List.cons_subset.mpr ⟨List.mem_map_of_mem (f := Prod.fst) hmem, hsub'⟩

theorem Run.forks {ok : World R → Event → Prop} (h₀ : ServerStart w₀) (h : Run ok w₀ trace w) : Forked trace w := by
  induction h with
  | init => exact h₀.forked
  | @step trace w w' ev hrun _ _ hstep ih =>
      rcases World.step_fork (hrun.frame.1.trans h₀.mode) ih.hport hstep with
        ⟨hnone, hworkers, hhport, hchildren⟩ | ⟨f, pid, port, pid₀, hfork, hget, hpos, hset, hhport, hchildren⟩
      · have hforks : CoEditor.forks (⟨w, ev, w'⟩ :: trace) = CoEditor.forks trace := by
          rw [forks_cons]
          simp only [hnone, Option.toList_none, List.append_nil]
        obtain ⟨docs, hnodup, hsub, hall⟩ := ih.children
        obtain ⟨docs', hdocs, hall'⟩ := forall₂_sublist hall hchildren
        exact ⟨hhport ▸ ih.hport, hforks ▸ ih.once, hforks ▸ hworkers ▸ ih.entry, hforks ▸ hworkers ▸ ih.signalled,
          docs', hnodup.sublist hdocs, hforks ▸ List.Subset.trans hdocs.subset hsub, hforks ▸ hall'⟩
      · exact ih.fork (s := ⟨w, ev, w'⟩) hfork hget hpos hset hhport hchildren

/-- Each process gets one signal if it is among `pids`, and one more for each `-1`. -/
theorem signals_eq {pids : List Int} {p : Int} (hp : 0 < p) : signals pids p = pids.count p + pids.count (-1) := by
  induction pids with
  | nil => rfl
  | cons pid pids ih =>
      rw [signals] at ih ⊢
      rw [List.countP_cons, List.count_cons, List.count_cons, ih]
      by_cases hsame : pid = p
      · subst hsame
        have hne : pid ≠ -1 := by omega
        simp [hne]
        omega
      · by_cases hall : pid = -1
        · subst hall
          simp [hsame]
          omega
        · simp [hsame, hall]

/-- In every run of the main server no document gets two workers: `fork` is called at most once for each, and no two children
    hold the same document. Every worker gets the signal to shut down once for each time that `fork` has returned its id, which
    is once if no id comes twice, and once more, as all processes do, for each `fork` that has failed. -/
theorem one_worker (h₀ : ServerStart w₀) (h : AnyRun w₀ trace w) :
    ((forks trace).map Prod.fst).Nodup ∧
    (∃ docs : List Int, docs.Nodup ∧ List.Forall₂ (fun child f => (f, child.pid) ∈ forks trace ∧ child.Holds f) w.children docs) ∧
    ∃ pids, w.handleShutdown = .ok (w.disk, pids) ∧ (∀ child ∈ w.children, child.pid ∈ pids) ∧
      (∀ p, 0 < p → signals pids p = ((forks trace).map Prod.snd).count p + ((forks trace).map Prod.snd).count (-1)) ∧
      ((∀ x ∈ forks trace, 0 < x.2) → ((forks trace).map Prod.snd).Nodup →
        ∀ p, 0 < p → signals pids p = if p ∈ (forks trace).map Prod.snd then 1 else 0) := by
  have hforked := h.forks h₀
  obtain ⟨docs, hnodup, -, hall⟩ := hforked.children
  have hsignals (p : Int) (hp : 0 < p) : signals ((w.proc.workers.filter (·.1 ≠ 0)).map Prod.snd) p =
      ((forks trace).map Prod.snd).count p + ((forks trace).map Prod.snd).count (-1) := by
    rw [signals_eq hp, hforked.signalled.count_eq, hforked.signalled.count_eq]
  refine ⟨hforked.once, ⟨docs, hnodup, hall⟩, _, ?_, fun child hchild => ?_, hsignals, fun hforks hapart p hp => ?_⟩
  · simp only [World.handleShutdown, h.frame.1.trans h₀.mode]
    rfl
  · have hpids : List.Forall₂ (fun child f => child.pid ∈ (forks trace).map Prod.snd ∧ child.Holds f) w.children docs :=
      hall.imp fun _ _ h => ⟨List.mem_map_of_mem (f := Prod.snd) h.1, h.2⟩
    exact hforked.signalled.mem_iff.mpr (((List.forall₂_and_left _ _).mp hpids).1 child hchild)
  · have hnone : (-1 : Int) ∉ (forks trace).map Prod.snd := by
      intro hmem
      obtain ⟨x, hx, hneg⟩ := List.mem_map.mp hmem
      have := hforks x hx
      omega
    rw [hsignals p hp, List.count_eq_zero.mpr hnone, Nat.add_zero, hapart.count]

end

/-- Anna asks for the same document twice, and one worker is forked, which gets one signal. -/
theorem one_worker_anna : ∃ (w : World ListRope) (trace : List (Step ListRope)),
    AnyRun (demoWorld .server demoDisk none) trace w ∧ forks trace = [(1, 77)] ∧ ((forks trace).map Prod.fst).Nodup ∧
    (∃ docs : List Int, docs.Nodup ∧ List.Forall₂ (fun child f => (f, child.pid) ∈ forks trace ∧ child.Holds f) w.children docs) ∧
    ∃ pids, w.handleShutdown = .ok (w.disk, pids) ∧ (∀ child ∈ w.children, child.pid ∈ pids) ∧ signals pids 77 = 1 ∧
      signals pids 78 = 0 := by
  obtain ⟨⟨w, trace⟩, hplay, hP⟩ : ∃ x, (demoWorld .server demoDisk none).play (fun _ _ => True) [] [.accept 0,
      .message 0 annaLogin demoAnswers, .message 0 annaRequest demoAnswers, .message 0 annaRequest demoAnswers] = some x ∧
      decide (forks x.2 = [(1, 77)]) = true :=
    (Option.any_eq_true _ _).mp (by decide +kernel)
  have hrun : AnyRun (demoWorld .server demoDisk none) trace w := Run.init.play hplay
  have hforks : forks trace = [(1, 77)] := of_decide_eq_true hP
  obtain ⟨honce, hdocs, pids, hshut, hchildren, -, hsignals⟩ := one_worker (demoWorld_server demoDisk) hrun
  rw [hforks] at hsignals
  have hsignals := hsignals (by decide) (by decide)
  exact ⟨w, trace, hrun, hforks, honce, hdocs, pids, hshut, hchildren, hsignals 77 (by decide), hsignals 78 (by decide)⟩

end CoEditor
