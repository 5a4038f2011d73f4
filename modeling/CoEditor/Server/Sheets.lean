-- SUMMARY: What the users of a worker see is what comes of their calls on plain texts and places, in the order of the log.
import Mathlib.Logic.Function.Basic
import CoEditor.Server.Log
import CoEditor.Session.Crossing

/-!
# Sheets of workers

As long as nobody joins twice, nobody is taken for a user outside the table
and only ASCII characters are typed, the linked lines, counters and marks of a
worker's buffer come to no more than a list of texts and a place for each user.
-/

namespace CoEditor

variable {R : Type} [Rope R]

/-- The sheet after a call of a user: a new cursor is at the start, and one that is freed is gone. -/
def Sheet.perform (s : Sheet) : Op → Sheet
  | .copyOwn v => { s with curs := Function.update s.curs v (some ⟨0, 0⟩) }
  | .free v => { s with curs := Function.update s.curs v none }
  | op => s.apply op

/-- The user is in the table and has no cursor yet when he joins, and a character that is typed is an ASCII one. -/
structure Event.Orderly (w : World R) (ev : Event) : Prop where
  joinsOnce : JoinsOnce w ev
  inTable : ∀ e, w.entry ev = some e → w.proc.InTable e.msg.userId
  ascii : ∀ e, w.entry ev = some e → e.op.TypesAscii

theorem Op.By.inj {u v : Int} {op : Op} (h : op.By u) (h' : op.By v) : u = v := by
  cases op with
  | new => exact h.elim
  | copyOwn | free | move | insert | insertLine | del => exact Eq.trans (Eq.symm h) h'

/-- A call of a user leaves the cursors of the others where they are found. -/
theorem Reached.find_other {ok : Buffer R → Op → Prop} {b b' : Buffer R} {op : Op} {v i : Int} {res : Bres} (hb : Reached ok b)
    (hby : op.By v) (hv : v ≠ 0) (hlegal : op.Legal (HasCurs b)) (hrun : op.run b = .ok (b', res)) (hi : i ≠ v) :
    bcursorFind b' i = bcursorFind b i := by
  have hedit : op.EditsAt v → bcursorFind b' i = bcursorFind b i := fun hop => hb.find_edit hop hrun i
  cases op with
  | new => exact hby.elim
  | copyOwn u =>
      obtain rfl : u = v := hby
      rw [hb.find_join hv hlegal hrun, if_neg hi]
  | free u =>
      obtain rfl : u = v := hby
      rw [hb.find_leave hv hrun, if_neg hi]
  | move | insert | insertLine | del => exact hedit hby

omit [Rope R] in
theorem World.entry_calls {w : World R} {ev : Event} {e : Entry} (h : w.entry ev = some e) : w.Calls ev e.op := by
  obtain ⟨i, a, hev, hfd, hflag, hcalls⟩ := entry_eq_some.mp h
  exact ⟨i, e.msg, a, e.fd, hev, hfd, hflag, hcalls⟩

omit [Rope R] in
/-- No call of an event gives a user a second cursor. -/
theorem joinsOnce_iff {w : World R} {ev : Event} :
    JoinsOnce w ev ↔ ∀ e ∈ w.entry ev, ∀ b ∈ w.proc.buf, e.op.Legal (HasCurs b) := by
  constructor
  · intro h e he b hb
    have hcalls := World.entry_calls he
    cases hop : e.op with
    | new id lid pos =>
        obtain ⟨-, msg, -, -, -, -, -, hmsg⟩ := hcalls
        rw [hop] at hmsg
        exact hmsg.by.elim
    | copyOwn v => exact h v b (hop ▸ hcalls) hb
    | free | move | insert | insertLine | del => trivial
  · rintro h u b ⟨i, msg, a, fd, hev, hfd, hflag, hcalls⟩ hb
    exact h ⟨fd, msg, .copyOwn u⟩ (World.entry_eq_some.mpr ⟨i, a, hev, hfd, hflag, hcalls⟩) b hb

instance (w : World R) (ev : Event) : Decidable (JoinsOnce w ev) := decidable_of_iff _ joinsOnce_iff.symm

instance (w : World R) (ev : Event) : Decidable (ev.Orderly w) :=
  decidable_of_iff (JoinsOnce w ev ∧ (∀ e ∈ w.entry ev, w.proc.InTable e.msg.userId) ∧ ∀ e ∈ w.entry ev, e.op.TypesAscii)
    ⟨fun h => ⟨h.1, h.2.1, h.2.2⟩, fun h => ⟨h.joinsOnce, h.inTable, h.ascii⟩⟩

/-- The buffer of a worker whose users are all in the table. -/
structure Attended (S : Buffer R) : Prop where
  hosted : Hosted S
  reached : Reached (fun b op => op.KeepsRange b) S
  users : ∀ i, i ≠ 0 → HasCurs S i → 0 < i ∧ i ≤ maxClients

namespace Attended

variable {S S' : Buffer R} {op : Op} {v : Int} {res : Bres}

theorem serverMode (h : Attended S) : S.serverMode = true := by
  obtain ⟨-, d, hd, hhome⟩ := h.hosted.exact
  rw [hd.sound.holds.serverMode, hhome.serverMode]

theorem own (h : Attended S) : S.place 0 = some ⟨0, 0⟩ := by
  obtain ⟨-, d, hd, hhome⟩ := h.hosted.exact
  rw [hd.sound.holds.place, hhome.own]

/-- There are fewer users than slots for cursors. -/
theorem room (h : Attended S) (op : Op) : op.FindsRoom S := by
  obtain ⟨d, hd, -⟩ := h.reached.inRange
  have hroom : S.peerList.length < maxCursorNum := by
    refine Nat.lt_of_le_of_lt (hd.holds.peers_le ((List.range' 1 5).map Nat.cast) fun i h0 hne => ?_) (by decide)
    obtain ⟨hpos, hle⟩ := h.users i h0 ((hd.hasCurs i).mpr hne)
    have hle : i ≤ 5 := hle
    exact List.mem_map.mpr ⟨i.toNat, List.mem_range'_1.mpr (by omega), by omega⟩
  cases op with
  | new | copyOwn => exact hroom
  | free | move | insert | insertLine | del => trivial

theorem keepsRange (hby : op.By v) (hascii : op.TypesAscii) : op.KeepsRange S := by
  cases op with
  | new => exact hby.elim
  | insert => exact .inl hascii
  | copyOwn | free | move | insertLine | del => trivial

/-- A call of a user, on the buffer and on its sheet. -/
theorem step (h : Attended S) (hby : op.By v) (hv : 0 < v ∧ v ≤ maxClients) (hlegal : op.Legal (HasCurs S))
    (hascii : op.TypesAscii) (hrun : op.run S = .ok (S', res)) :
    Attended S' ∧ S'.sheet id = (S.sheet id).perform op := by
  have hv0 : v ≠ 0 := by omega
  obtain ⟨d, hd, hrange⟩ := h.reached.inRange
  have hfresh : op.Fresh fun id => d.curs id ≠ none := ((Op.Legal.congr hd.hasCurs).mp hlegal).fresh
  obtain ⟨d', hd', heffect⟩ := hd.holds.run op hfresh hrun
  have hothers : ∀ i, i ≠ v → HasCurs S' i → HasCurs S i := by
    intro i hi hcur
    rwa [HasCurs, h.reached.find_other hby hv0 hlegal hrun hi] at hcur
  refine ⟨⟨h.hosted.step hby hv0 hlegal hrun, h.reached.step hlegal (keepsRange hby hascii) hrun, fun i h0 hi => ?_⟩, ?_⟩
  · by_cases hiv : i = v
    · exact hiv ▸ hv
    · exact h.users i h0 (hothers i hiv hi)
  · rw [hd'.sheet, hd.holds.sheet]
    have hedit : op.EditsAt v → d'.sheet id = (d.sheet id).apply op := by
      intro hop
      obtain rfl := heffect.eq_apply hop
      have hshows : d.Shows id (d.sheet id) := ⟨hd.holds.wf, hrange, d.names_worker, rfl⟩
      have happly := (hshows.apply hop hv0 hascii).sheet
      rwa [op.under_id] at happly
    cases op with
    | new => exact hby.elim
    | copyOwn u =>
        obtain rfl : u = v := hby
        obtain rfl := hd.holds.join_update hfresh (h.room _) hrun (.inr ⟨_, rfl⟩)
        cases heffect with
        | copyOwn hx =>
            obtain rfl := Option.some.inj (hx.symm.trans ((hd.holds.place 0).symm.trans h.own))
            ext1
            · rfl
            · rfl
            · funext i
              simp only [Doc.sheet, Doc.put, Sheet.perform, Function.update_apply, id_eq]
              grind
    | free u =>
        obtain rfl : u = v := hby
        cases heffect with
        | freeOwn => exact absurd rfl hv0
        | free =>
            ext1
            · rfl
            · rfl
            · funext i
              simp only [Doc.sheet, Doc.drop, Sheet.perform, Function.update_apply, id_eq]
              grind
    | move | insert | insertLine | del => exact hedit hby

end Attended

section
variable {w₀ w : World R} {trace : List (Step R)} {ev : Event} {e : Entry}

omit [Rope R] in
theorem World.entry_by (h : w.entry ev = some e) : e.op.By e.msg.userId := by
  obtain ⟨-, -, -, -, -, hcalls⟩ := entry_eq_some.mp h
  exact hcalls.by

/-- The user of an orderly call has a place in the table. -/
theorem Run.entry_user (h₀ : WorkerStart w₀) (h : Run Event.Orderly w₀ trace w) (hev : ev.Orderly w) (he : w.entry ev = some e) :
    0 < e.msg.userId ∧ e.msg.userId ≤ maxClients := by
  obtain ⟨v, hby, hv⟩ := h.calls_user h₀.clients (World.entry_calls he)
  obtain rfl := Op.By.inj hby (World.entry_by he)
  obtain ⟨h0, hlt⟩ := hev.inTable e he
  rw [h.frame.2, h₀.clients, List.length_replicate] at hlt
  have hlt : e.msg.userId.toNat < 6 := hlt
  have hle : e.msg.userId ≤ 5 := by omega
  exact ⟨by omega, hle⟩

theorem WorkerStart.attended (h₀ : WorkerStart w₀) {b₀ : Buffer R} (hb₀ : w₀.proc.buf = some b₀) : Attended b₀ := by
  obtain ⟨name, fileId, hload⟩ := h₀.buf
  rw [hb₀] at hload
  refine ⟨Run.hosted h₀ (fun _ _ h => h) .init b₀ hb₀, ?_, fun i h0 hi => ?_⟩
  · unfold loadBuffer at hload
    split at hload
    · cases hload
    · obtain ⟨b', hrun, hb'⟩ := Except.map_eq_ok.mp hload
      obtain rfl := Option.some.inj hb'
      exact .load (by decide) hrun
  · obtain ⟨ref, href⟩ := hi
    cases href.symm.trans (loadBuffer_find hload h0)

theorem Run.attended (h₀ : WorkerStart w₀) (h : Run Event.Orderly w₀ trace w) {b₀ : Buffer R} (hb₀ : w₀.proc.buf = some b₀) :
    ∃ b, w.proc.buf = some b ∧ Attended b ∧ b.sheet id = ((log trace).map Entry.op).foldl Sheet.perform (b₀.sheet id) := by
  induction h with
  | init => exact ⟨b₀, hb₀, h₀.attended hb₀, rfl⟩
  | @step trace w w' ev hrun _ hev hstep ih =>
      obtain ⟨b, hb, hattended, hsheet⟩ := ih
      rw [log_cons]
      rcases World.step_entry (hrun.frame.1.trans h₀.mode) hstep with
        ⟨e, b₁, b', res, -, he, hb₁, hcall, hb', -⟩ | ⟨he, hsame, -⟩
      · obtain rfl := Option.some.inj (hb.symm.trans hb₁)
        have hlegal := joinsOnce_iff.mp hev.joinsOnce e he b hb
        obtain ⟨hattended', hsheet'⟩ := hattended.step (World.entry_by he) (hrun.entry_user h₀ hev he) hlegal (hev.ascii e he) hcall
        refine ⟨b', hb', hattended', ?_⟩
        rw [he, Option.toList_some, List.map_append, List.foldl_append, ← hsheet]
        exact hsheet'
      · exact ⟨b, hsame.trans hb, hattended, by rwa [he, Option.toList_none, List.append_nil]⟩

/-- After every orderly run the users of a worker see what comes of their calls on plain texts and places, made in the
    order of the log on what the worker has loaded. -/
theorem worker_sheet (h₀ : WorkerStart w₀) (h : Run Event.Orderly w₀ trace w) {b₀ : Buffer R} (hb₀ : w₀.proc.buf = some b₀) :
    ∃ b, w.proc.buf = some b ∧ b.sheet id = ((log trace).map Entry.op).foldl Sheet.perform (b₀.sheet id) := by
  obtain ⟨b, hb, -, hsheet⟩ := h.attended h₀ hb₀
  exact ⟨b, hb, hsheet⟩

end

/-- A directory with two accounts and one document. -/
def pairDisk : Disk :=
  (Disk.ofTexts (bytes "anna:secret\nbert:secret") (bytes "1:doc")).set (bytes "doc") (some (.closed (bytes "ab")))

/-- Bert's password is right, too. -/
def bertLogin : Message := createMsg .login (-1) (-1) (-1) (some (createLoginPayload (bytes "bert") (bytes "secret")))

theorem pairWorld_worker {b : Buffer ListRope} (h : bufferFromFile (bytes "ab") 1 workerHeight workerWidth false = .ok b) :
    WorkerStart (demoWorld .worker pairDisk (some b)) := by
  refine ⟨rfl, rfl, rfl, ⟨some (bytes "doc"), 1, ?_⟩, rfl, rfl, rfl⟩
  have hget : (some (bytes "doc")).bind pairDisk.get = some (.closed (bytes "ab")) := by
    rw [Option.bind_some, pairDisk, Disk.get_set_self]
  simp only [loadBuffer, demoWorld, hget, Inode.closed]
  rw [h]
  rfl

/-- Anna and Bert log in and join, and Bert types. -/
def pairEvents : List Event :=
  [.accept 0, .message 0 annaLogin demoAnswers, .accept 1, .message 1 bertLogin demoAnswers,
    .message 0 (createMsg .fileRequest 1 1 (-1) none) demoAnswers, .message 1 (createMsg .fileRequest 2 1 (-1) none) demoAnswers,
    .message 1 (createMsg .insert 2 1 0 (some (bytes "x"))) demoAnswers]

theorem exists_play (ok : World ListRope → Event → Prop) [∀ w, DecidablePred (ok w)] (evs : List Event)
    {P : World ListRope → List (Step ListRope) → Bool}
    (h : returns (bufferFromFile (R := ListRope) (bytes "ab") 1 workerHeight workerWidth false) (fun b =>
      ((demoWorld .worker pairDisk (some b)).play ok [] evs).any fun x => P x.1 x.2) = true) :
    ∃ (b : Buffer ListRope) (w : World ListRope) (trace : List (Step ListRope)),
      WorkerStart (demoWorld .worker pairDisk (some b)) ∧ Run ok (demoWorld .worker pairDisk (some b)) trace w ∧
      P w trace = true := by
  obtain ⟨b, hb, htest⟩ := exists_of_returns h
  obtain ⟨⟨w, trace⟩, hplay, hP⟩ := (Option.any_eq_true _ _).mp htest
  exact ⟨b, w, trace, pairWorld_worker hb, Run.init.play hplay, hP⟩

/-- An orderly run with Anna and Bert. -/
theorem exists_pair (evs : List Event) {P : World ListRope → List (Step ListRope) → Bool}
    (h : returns (bufferFromFile (R := ListRope) (bytes "ab") 1 workerHeight workerWidth false) (fun b =>
      ((demoWorld .worker pairDisk (some b)).play (fun w ev => ev.Orderly w) [] evs).any fun x => P x.1 x.2) = true) :
    ∃ (b : Buffer ListRope) (w : World ListRope) (trace : List (Step ListRope)),
      WorkerStart (demoWorld .worker pairDisk (some b)) ∧ Run Event.Orderly (demoWorld .worker pairDisk (some b)) trace w ∧
      P w trace = true :=
  exists_play (fun w ev => ev.Orderly w) evs h

theorem worker_sheet_pair : ∃ (b₀ b : Buffer ListRope) (w : World ListRope) (trace : List (Step ListRope)),
    Run Event.Orderly (demoWorld .worker pairDisk (some b₀)) trace w ∧
    (log trace).map Entry.op = [.copyOwn 1, .copyOwn 2, .insert 2 (ch 'x')] ∧ w.proc.buf = some b ∧ b.texts = ["xab".toList] ∧
    b.sheet id = ((log trace).map Entry.op).foldl Sheet.perform (b₀.sheet id) := by
  obtain ⟨b₀, w, trace, h₀, hrun, hP⟩ := exists_pair pairEvents (P := fun w trace =>
    decide ((log trace).map Entry.op = [.copyOwn 1, .copyOwn 2, .insert 2 (ch 'x')] ∧
      w.proc.buf.map Buffer.texts = some ["xab".toList])) (by decide +kernel)
  obtain ⟨hlog, htexts⟩ := of_decide_eq_true hP
  obtain ⟨b, hb, hsheet⟩ := worker_sheet h₀ hrun rfl
  rw [hb] at htexts
  exact ⟨b₀, b, w, trace, hrun, hlog, hb, Option.some.inj htexts, hsheet⟩

end CoEditor
