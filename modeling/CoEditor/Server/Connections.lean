-- SUMMARY: Accepted connections are in the poll list or closed, unless the table was full or a read reported their end.
import CoEditor.Server.Members

/-!
# The connection table

`server_listen` puts a connection into the first free slot and forgets it if
there is none. It closes a connection on a hang-up and in `handle_msg`, but not
when `recv` reports its end.
-/

namespace CoEditor

variable {R : Type}

namespace World

/-- The connection is closed, and its slot is free for another one. -/
def Released (w : World R) (fd : Conn) : Prop := fd ∈ w.closed ∧ ∀ i, w.connAt i ≠ some fd

/-- The connection is open and in exactly one slot, or closed and in none. -/
def Tabled (w : World R) (fd : Conn) : Prop := (∃! i, w.connAt i = some fd) ∧ fd ∉ w.closed ∨ w.Released fd

end World

/-- The step reads the end of a connection. -/
def Step.Ends (s : Step R) (fd : Conn) : Prop := ∃ i, s.event = .eof i ∧ s.pre.connAt i = some fd

/-- What should hold after the steps of a trace: accepted connections are in the table or closed, and those
    whose end was read are closed. -/
structure Tidy (trace : List (Step R)) (w : World R) : Prop where
  tabled : ∀ fd ∈ w.accepted, w.Tabled fd
  ended : ∀ s ∈ trace, ∀ fd, s.Ends fd → w.Released fd

/-- There is a free slot for a new connection, and no connection comes to its end without a hang-up. -/
def Event.KeepsTable (w : World R) : Event → Prop
  | .accept _ => none ∈ w.proc.pollList
  | .eof i => w.connAt i = none
  | _ => True

/-- Every accepted connection is in a slot or closed. -/
def World.Kept (w : World R) : Prop := ∀ fd ∈ w.accepted, (∃ i, w.connAt i = some fd) ∨ fd ∈ w.closed

namespace World

variable {w w' : World R} {fd : Conn}

theorem connAt_set {k i : Nat} {x : Option Conn} (hpoll : w'.proc.pollList = w.proc.pollList.set k x) (hne : i ≠ k) :
    w'.connAt i = w.connAt i := by
  rw [connAt, connAt, hpoll, List.getElem?_set_ne (Ne.symm hne)]

namespace Kept

theorem of_eq (h : w.Kept) (hpoll : w'.proc.pollList = w.proc.pollList) (haccepted : w'.accepted = w.accepted)
    (hclosed : w'.closed = w.closed) : w'.Kept := by
  intro c hc
  rw [hclosed]
  rcases h c (haccepted ▸ hc) with ⟨i, hi⟩ | hi
  · exact .inl ⟨i, by rw [connAt, hpoll]; exact hi⟩
  · exact .inr hi

/-- The only slot that is emptied is that of the connection that is closed. -/
theorem drop (h : w.Kept) {k : Nat} (hk : w.connAt k = some fd)
    (hpoll : w'.proc.pollList = w.proc.pollList.set k none) (haccepted : w'.accepted = w.accepted)
    (hclosed : w'.closed = fd :: w.closed) : w'.Kept := by
  intro c hc
  rw [hclosed]
  rcases h c (haccepted ▸ hc) with ⟨i, hi⟩ | hi
  · by_cases hik : i = k
    · obtain rfl := Option.some.inj (hk.symm.trans (hik ▸ hi))
      exact .inr (List.mem_cons_self ..)
    · exact .inl ⟨i, (connAt_set hpoll hik).trans hi⟩
  · exact .inr (List.mem_cons_of_mem _ hi)

/-- The slot that is filled was free. -/
theorem accept (h : w.Kept) (hfree : none ∈ w.proc.pollList) : (w.accept fd).Kept := by
  intro c hc
  have hlt := List.idxOf_lt_length_of_mem hfree
  rcases List.mem_cons.mp hc with rfl | hc
  · exact .inl ⟨w.proc.pollList.idxOf none, by rw [connAt_eq]; simp [World.accept, hlt]⟩
  · rcases h c hc with ⟨i, hi⟩ | hi
    · refine .inl ⟨i, ?_⟩
      have hne : i ≠ w.proc.pollList.idxOf none := by
        rintro rfl
        rw [connAt_eq, List.getElem?_eq_getElem hlt, List.getElem_idxOf] at hi
        cases hi
      exact (connAt_set (w := w) rfl hne).trans hi
    · exact .inr hi

variable [Rope R]

theorem step (h : w.Kept) {ev : Event} (hok : ev.KeepsTable w) (hstep : w.step ev = .ok w') : w'.Kept := by
  rcases step_conns hstep with ⟨fd, rfl, rfl⟩ | ⟨hpoll, haccepted, hclosed⟩ | ⟨k, fd, hk, hpoll, haccepted, hclosed⟩
  · exact h.accept hok
  · exact h.of_eq hpoll haccepted hclosed
  · exact h.drop hk hpoll haccepted hclosed

end Kept

/-- The poll list holds nothing that is closed, and nothing twice. -/
theorem Kept.tabled (h : w.Kept) (hpolled : w.Polled) (hfd : fd ∈ w.accepted) : w.Tabled fd := by
  by_cases hclosed : fd ∈ w.closed
  · exact .inr ⟨hclosed, fun i hi => hpolled.notClosed i fd hi hclosed⟩
  · obtain ⟨i, hi⟩ := (h fd hfd).resolve_right hclosed
    exact .inl ⟨⟨i, hi, fun j hj => hpolled.once j i fd hj hi⟩, hclosed⟩

end World

variable [Rope R] {w₀ w : World R} {trace : List (Step R)}

/-- A process at the start of its main loop. -/
structure World.Fresh (w : World R) : Prop where
  pollList : w.proc.pollList = List.replicate maxClients none
  accepted : w.accepted = []
  closed : w.closed = []

omit [Rope R] in
theorem ServerStart.fresh (h : ServerStart w) : w.Fresh := ⟨h.pollList, h.accepted, h.closed⟩

theorem WorkerStart.fresh (h : WorkerStart w) : w.Fresh := ⟨h.pollList, h.accepted, h.closed⟩

theorem Run.kept (h : Run (fun w ev => ev.KeepsTable w) w₀ trace w) (h₀ : w₀.Fresh) : w.Kept := by
  induction h with
  | init =>
      intro fd hfd
      rw [h₀.accepted] at hfd
      cases hfd
  | step _ _ hok hev ih => exact ih.step hok hev

theorem Run.tidy (h : Run (fun w ev => ev.KeepsTable w) w₀ trace w) (h₀ : w₀.Fresh) : Tidy trace w := by
  refine ⟨fun fd hfd => (h.kept h₀).tabled (h.polled h₀.pollList h₀.closed) hfd, ?_⟩
  rintro s hs fd ⟨i, hev, hfd⟩
  obtain ⟨l, t, rfl⟩ := List.append_of_mem hs
  obtain ⟨-, -, hok, -⟩ := h.of_suffix (List.suffix_append l (s :: t))
  rw [hev] at hok
  rw [show s.pre.connAt i = none from hok] at hfd
  cases hfd

omit [Rope R] in
/-- A connection that finds no slot is lost. -/
theorem World.Polled.not_tabled_accept {fd : Conn} (h : w.Polled) (hnew : fd ∉ w.accepted)
    (hfull : none ∉ w.proc.pollList) : ¬ (w.accept fd).Tabled fd := by
  have hpoll : (w.accept fd).proc.pollList = w.proc.pollList := by
    simp only [World.accept]
    rw [List.idxOf_eq_length hfull, List.set_eq_of_length_le (Nat.le_refl _)]
  have hnone : ∀ i, (w.accept fd).connAt i ≠ some fd := by
    intro i hi
    rw [World.connAt, hpoll] at hi
    exact hnew (h.accepted i fd hi)
  rintro (⟨⟨i, hi, -⟩, -⟩ | ⟨hclosed, -⟩)
  · exact hnone i hi
  · exact hnew (h.closed fd hclosed)

/-- A step that leaves the table tidy meets the condition. -/
theorem Tidy.keepsTable {w' : World R} {ev : Event} (h : Tidy (⟨w, ev, w'⟩ :: trace) w') (hpolled : w.Polled)
    (hpossible : ev.Possible w) (hstep : w.step ev = .ok w') : ev.KeepsTable w := by
  cases ev with
  | accept fd =>
      obtain rfl := Except.ok.inj hstep
      by_contra hfull
      exact hpolled.not_tabled_accept hpossible hfull (h.tabled fd (List.mem_cons_self ..))
  | eof i =>
      obtain rfl := Except.ok.inj hstep
      by_contra hconn
      obtain ⟨fd, hfd⟩ := Option.ne_none_iff_exists'.mp hconn
      exact (h.ended _ (List.mem_cons_self ..) fd ⟨i, rfl, hfd⟩).2 i hfd
  | hangup i => exact trivial
  | message i msg a => exact trivial
  | files d => exact trivial
  | gone pid => exact trivial

/-- The table is tidy all through a run exactly if a slot was free for every new connection and no read
    reported the end of a connection. -/
theorem connections_tidy (h₀ : ServerStart w₀ ∨ WorkerStart w₀) (h : AnyRun w₀ trace w) :
    (∀ s t, s :: t <:+ trace → Tidy (s :: t) s.post) ↔ ∀ s ∈ trace, s.event.KeepsTable s.pre := by
  have h₀ : w₀.Fresh := h₀.elim ServerStart.fresh WorkerStart.fresh
  constructor
  · intro htidy s hs
    obtain ⟨l, t, rfl⟩ := List.append_of_mem hs
    have hsuffix := List.suffix_append l (s :: t)
    obtain ⟨hrun, hpossible, -, hstep⟩ := h.of_suffix hsuffix
    exact (htidy s t hsuffix).keepsTable (hrun.polled h₀.pollList h₀.closed) hpossible hstep
  · intro hall s t hs
    obtain ⟨hrun, hpossible, hok, hstep⟩ := (h.of_forall hall).of_suffix hs
    exact (Run.step hrun hpossible hok hstep).tidy h₀

/-- A client connects and hangs up. -/
theorem connections_tidy_demo : ∃ (w : World ListRope) (trace : List (Step ListRope)),
    AnyRun (demoWorld .server demoDisk none) trace w ∧ w.closed = [0] ∧
    ((∀ s t, s :: t <:+ trace → Tidy (s :: t) s.post) ↔ ∀ s ∈ trace, s.event.KeepsTable s.pre) := by
  have h₁ : AnyRun (demoWorld .server demoDisk none) (⟨_, .accept 0, _⟩ :: []) _ :=
    .step .init (by show 0 ∉ []; decide) trivial rfl
  have h₂ : AnyRun (demoWorld .server demoDisk none) (⟨_, .hangup 0, _⟩ :: _) _ := .step h₁ trivial trivial rfl
  exact ⟨_, _, h₂, rfl, connections_tidy (.inl (demoWorld_server demoDisk)) h₂⟩

/-- The sixth client is neither in the table nor closed, and the first one, whose end was read, is still in
    the table. -/
theorem connection_lost : ∃ (w : World ListRope) (trace : List (Step ListRope)),
    ServerStart (demoWorld .server demoDisk none) ∧ AnyRun (demoWorld .server demoDisk none) trace w ∧
    5 ∈ w.accepted ∧ ¬ w.Tabled 5 ∧ (∃ s ∈ trace, s.Ends 0) ∧ ¬ w.Released 0 := by
  have h₁ : AnyRun (demoWorld .server demoDisk none) (⟨_, .accept 0, _⟩ :: []) _ :=
    .step .init (by show 0 ∉ []; decide) trivial rfl
  have h₂ : AnyRun (demoWorld .server demoDisk none) (⟨_, .accept 1, _⟩ :: _) _ :=
    .step h₁ (by show 1 ∉ [0]; decide) trivial rfl
  have h₃ : AnyRun (demoWorld .server demoDisk none) (⟨_, .accept 2, _⟩ :: _) _ :=
    .step h₂ (by show 2 ∉ [1, 0]; decide) trivial rfl
  have h₄ : AnyRun (demoWorld .server demoDisk none) (⟨_, .accept 3, _⟩ :: _) _ :=
    .step h₃ (by show 3 ∉ [2, 1, 0]; decide) trivial rfl
  have h₅ : AnyRun (demoWorld .server demoDisk none) (⟨_, .accept 4, _⟩ :: _) _ :=
    .step h₄ (by show 4 ∉ [3, 2, 1, 0]; decide) trivial rfl
  have h₆ : AnyRun (demoWorld .server demoDisk none) (⟨_, .accept 5, _⟩ :: _) _ :=
    .step h₅ (by show 5 ∉ [4, 3, 2, 1, 0]; decide) trivial rfl
  have h₇ : AnyRun (demoWorld .server demoDisk none) (⟨_, .eof 0, _⟩ :: _) _ := .step h₆ trivial trivial rfl
  have hpolled := h₅.polled rfl rfl
  refine ⟨_, _, demoWorld_server demoDisk, h₇, List.mem_cons_self .., ?_, ⟨_, List.mem_cons_self .., 0, rfl, rfl⟩, ?_⟩
  · exact hpolled.not_tabled_accept (by show 5 ∉ [4, 3, 2, 1, 0]; decide) (by decide)
  · exact fun hreleased => hreleased.2 0 rfl

end CoEditor
