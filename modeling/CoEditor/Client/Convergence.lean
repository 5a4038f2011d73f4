-- SUMMARY: With no message under way the clients see what the worker has, if calls crossed only where their order does not matter.
import CoEditor.Client.Network

/-!
# Convergence

Nothing orders the calls of two clients that cross on the way, and no call is
changed to fit those it missed. A client is in step with the worker as long as
the calls that cross commute: both would come to the same sheet with the calls
that are under way. A client that has typed a byte which begins no character is
stuck: the worker does not survive its message, so it is never at rest again.
-/

namespace CoEditor

variable {R : Type} [Rope R]

/-! ## The invariant -/

/-- The connections of the clients and their users stay the same. -/
def Site.member (s : Site R) : Conn × Int := (s.fd, s.editor.userId)

/-- The calls `down` are on the way to client `s`. -/
structure Site.Hears (w : World R) (s : Site R) (down : List Op) : Prop where
  calls : Calls (s.down w) down
  got : s.got ≤ (w.inbox s.fd).length

/-- Client `s` is in step with a worker that shows `t`. -/
def Site.Follows (w : World R) (t : Sheet) (s : Site R) : Prop :=
  ∃ C e t' up down, s.editor.b = some C ∧ Holds C e ∧ Calls s.up up ∧ s.Hears w down ∧ e.Follows s.editor.userId t t' up down

/-- The worker will never handle all messages of client `s`. -/
def Site.Stuck (w : World R) (s : Site R) : Prop :=
  ∃ ups up bad rest down, s.up = ups ++ bad :: rest ∧ Calls ups up ∧
    (∀ op ∈ up, op.EditsAt s.editor.userId ∧ op.TypesAscii) ∧ bad.Dead s.editor.userId ∧ s.Hears w down

/-- The worker shows `t`, and every client is in step with it or stuck. -/
structure Net.Inv (members : List (Conn × Int)) (net : Net R) (S : Buffer R) (d : Doc R) (t : Sheet) : Prop where
  sites : net.sites.map Site.member = members
  mode : net.world.proc.mode = .worker
  buf : net.world.proc.buf = some S
  holds : Holds S d
  worker : d.Shows id t
  polls : net.world.proc.pollList.reduceOption.Nodup
  polled : ∀ c ∈ members.map Prod.fst, c ∈ net.world.proc.pollList.reduceOption
  loggedIn : ∀ u ∈ members.map Prod.snd, ∀ outside, net.world.proc.loggedIn outside u = true
  follows : ∀ (i : Nat) (s : Site R), net.sites[i]? = some s → s.Follows net.world t ∨ s.Stuck net.world

/-! ## What a client does -/

section

variable {w w' : World R} {s : Site R} {t : Sheet} {msg : Message} {up : List Message} {op : Op} {u v : Int}

/-- A byte that begins no character is lost on the way. -/
theorem Editor.handleInput_dead {e e' : Editor R} {c : UInt8} (hc : 128 ≤ c.toNat)
    (h : e.handleInput (.char c) = .ok (e', msg, false)) : msg.Dead e.userId := by
  have h0 : c ≠ 0 := by
    rintro rfl
    exact absurd hc (by decide)
  unfold handleInput at h
  split at h
  · cases h
  · obtain ⟨-, rfl, -⟩ := act_ok h
    refine ⟨rfl, rfl, ?_⟩
    show sentPayload (some (hstr c)) = none
    have hnone : Utf8.decode [c] = none := by
      cases hdec : Utf8.decode [c] with
      | none => rfl
      | some cs => exact absurd (Utf8.encode_decode hdec) (Utf8.encode_ne_singleton hc cs)
    rw [hstr, if_neg h0, sentPayload, hnone]
    rfl

namespace Site

variable {down : List Op}

omit [Rope R] in
/-- Nothing is sent to the client. -/
theorem Hears.keep (h : s.Hears w down) (hinbox : w'.inbox s.fd = w.inbox s.fd) : s.Hears w' down where
  calls := by rw [Site.down, hinbox]; exact h.calls
  got := by rw [hinbox]; exact h.got

omit [Rope R] in
/-- A message is sent to the client. -/
theorem Hears.send (h : s.Hears w down) (hinbox : w'.inbox s.fd = w.inbox s.fd ++ [msg]) (hcarries : msg.Carries op) :
    s.Hears w' (down ++ [op]) where
  calls := by
    rw [Site.down, hinbox, List.drop_append_of_le_length h.got]
    exact List.rel_append h.calls (.cons hcarries .nil)
  got := by
    rw [hinbox, List.length_append]
    exact Nat.le_add_right_of_le h.got

omit [Rope R] in
/-- The client receives a message. -/
theorem Hears.receive (h : s.Hears w down) {rest : List Message} (hhead : s.down w = msg :: rest) (editor : Editor R)
    (up : List Message) : ∃ op down', down = op :: down' ∧ msg.Carries op ∧
      Site.Hears w { s with editor, up, got := s.got + 1 } down' := by
  have hcalls := h.calls
  rw [hhead] at hcalls
  cases hcalls with
  | @cons _ op _ down' hcarries hrest =>
      have hlt : s.got < (w.inbox s.fd).length := by
        rw [← Nat.sub_pos_iff_lt, ← List.length_drop]
        exact List.length_pos_iff.mpr fun hnil => by
          rw [Site.down, hnil] at hhead
          cases hhead
      have htail : (w.inbox s.fd).drop (s.got + 1) = rest := by
        rw [← List.tail_drop]
        exact congrArg List.tail hhead
      rw [← htail] at hrest
      exact ⟨op, down', rfl, hcarries, hrest, hlt⟩

/-! ## A client in step -/

/-- The client presses a key. -/
theorem Follows.press (h : s.Follows w t) {key : Key} (hkey : key.Ascii) {editor : Editor R}
    (hinput : s.editor.handleInput key = .ok (editor, msg, false))
    (hcomm : ∀ C op, s.editor.b = some C → key.op s.editor.userId = some op →
      Commutes Sheet.apply op (C.sheet (clientId s.editor.userId)) ((s.down w).filterMap Message.call)) :
    Site.Follows w t { s with editor, up := s.up ++ [msg] } := by
  obtain ⟨C, C', op, own, res, hC, hop, hown, hasks, hsend, hrun, rfl⟩ := Editor.handleInput_ok hinput
  obtain ⟨C₀, e, t', ups, down, hC₀, hholds, hups, hdown, hfollows⟩ := h
  obtain rfl := Option.some.inj (hC₀.symm.trans hC)
  obtain ⟨hedits, rfl⟩ := Key.op_under hop hown
  have hcomm' := hcomm C₀ op hC hop
  rw [hdown.calls.filterMap, hholds.sheet, hfollows.client.sheet] at hcomm'
  have hpress := hfollows.press hedits (key.op_typesAscii hop hkey) hcomm'
  refine ⟨C', _, _, ups ++ [op], down, rfl, (hholds.setVer _).edit (hedits.under _) hrun, ?_, ⟨hdown.calls, hdown.got⟩, hpress⟩
  exact List.rel_append hups (.cons ⟨(hsend hkey).received, hasks⟩ .nil)

/-- The worker handles the first message of the client. -/
theorem Follows.arrive (h : s.Follows w t) (hup : s.up = msg :: up) :
    ∃ op, msg.Carries op ∧ op.EditsAt s.editor.userId ∧ op.TypesAscii ∧
      ∀ w' : World R, w'.inbox s.fd = w.inbox s.fd → Site.Follows w' (t.apply op) { s with up } := by
  obtain ⟨C, e, t', ups, down, hC, hholds, hups, hdown, hfollows⟩ := h
  rw [hup] at hups
  cases hups with
  | @cons _ op _ ups hcarries hups =>
      obtain ⟨hedits, hascii⟩ := hfollows.own op (List.mem_cons_self ..)
      refine ⟨op, hcarries, hedits, hascii, fun w' hinbox => ?_⟩
      obtain ⟨hcalls, hgot⟩ := hdown.keep hinbox
      exact ⟨C, e, t', ups, down, hC, hholds, hups, ⟨hcalls, hgot⟩, hfollows.arrive⟩

/-- The worker handles a message of another user, and sends it on. -/
theorem Follows.other (h : s.Follows w t) (hv : v ≠ 0) (hvs : v ≠ s.editor.userId) (hop : op.EditsAt v)
    (hascii : op.TypesAscii) (hcarries : msg.Carries op) (hinbox : w'.inbox s.fd = w.inbox s.fd ++ [msg])
    (hcomm : Commutes Sheet.apply op t (s.up.filterMap Message.call)) : s.Follows w' (t.apply op) := by
  obtain ⟨C, e, t', ups, down, hC, hholds, hups, hdown, hfollows⟩ := h
  rw [hups.filterMap] at hcomm
  exact ⟨C, e, t', ups, down ++ [op], hC, hholds, hups, hdown.send hinbox hcarries, hfollows.other hv hvs hop hascii hcomm⟩

/-- The client receives a message. -/
theorem Follows.deliver (h : s.Follows w t) {rest : List Message} (hhead : s.down w = msg :: rest)
    {editor : Editor R} {out : List Message} (hmsg : s.editor.handleMsg msg.received = .ok (editor, out)) :
    editor.userId = s.editor.userId ∧ Site.Follows w t { s with editor, up := s.up ++ out, got := s.got + 1 } := by
  obtain ⟨C, e, t', ups, down, hC, hholds, hups, hdown, hfollows⟩ := h
  obtain ⟨op, down, rfl, hcarries, hdown⟩ := hdown.receive hhead editor (s.up ++ out)
  obtain ⟨-, v, -, -, hedits⟩ := hfollows.others op (List.mem_cons_self ..)
  rw [hcarries.1] at hmsg
  obtain ⟨rfl, C₀, C', res, hC₀, hrun, rfl⟩ := Editor.handleMsg_edit hcarries.2 hmsg
  obtain rfl := Option.some.inj (hC.symm.trans hC₀)
  refine ⟨rfl, C', _, _, ups, down, rfl, hholds.edit hedits hrun, ?_, hdown, hfollows.deliver⟩
  rw [List.append_nil]
  exact hups

/-! ## A client that is stuck -/

/-- Whoever types a byte that begins no character is stuck. -/
theorem Follows.stuck (h : s.Follows w t) {c : UInt8} (hc : 128 ≤ c.toNat) {editor : Editor R}
    (hinput : s.editor.handleInput (.char c) = .ok (editor, msg, false)) (huser : editor.userId = s.editor.userId) :
    Site.Stuck w { s with editor, up := s.up ++ [msg] } := by
  obtain ⟨C, e, t', ups, down, -, -, hups, hdown, hfollows⟩ := h
  refine ⟨s.up, ups, msg, [], down, rfl, hups, fun op hop => ?_, ?_, hdown.calls, hdown.got⟩
  · rw [huser]
    exact hfollows.own op hop
  · rw [huser]
    exact Editor.handleInput_dead hc hinput

omit [Rope R] in
theorem Stuck.press (h : s.Stuck w) {editor : Editor R} (huser : editor.userId = s.editor.userId) (msg : Message) :
    Site.Stuck w { s with editor, up := s.up ++ [msg] } := by
  obtain ⟨ups, up, bad, rest, down, hup, hups, hown, hbad, hdown⟩ := h
  refine ⟨ups, up, bad, rest ++ [msg], down, ?_, hups, ?_, ?_, hdown.calls, hdown.got⟩
  · show s.up ++ [msg] = _
    rw [hup, List.append_assoc, List.cons_append]
  · rwa [huser]
  · rwa [huser]

omit [Rope R] in
/-- The first message of the client cannot be handled, or it is as if the client were in step. -/
theorem Stuck.arrive (h : s.Stuck w) (hup : s.up = msg :: up) : msg.Dead s.editor.userId ∨
    ∃ op, msg.Carries op ∧ op.EditsAt s.editor.userId ∧ op.TypesAscii ∧
      ∀ w' : World R, w'.inbox s.fd = w.inbox s.fd → Site.Stuck w' { s with up } := by
  obtain ⟨ups, ops, bad, rest, down, hup', hups, hown, hbad, hdown⟩ := h
  rw [hup] at hup'
  cases hups with
  | nil =>
      obtain ⟨rfl, -⟩ := List.cons.inj hup'
      exact .inl hbad
  | @cons _ op ups ops hcarries hups =>
      obtain ⟨rfl, rfl⟩ := List.cons.inj hup'
      obtain ⟨hedits, hascii⟩ := hown op (List.mem_cons_self ..)
      refine .inr ⟨op, hcarries, hedits, hascii, fun w' hinbox => ?_⟩
      obtain ⟨hcalls, hgot⟩ := hdown.keep hinbox
      exact ⟨ups, ops, bad, rest, down, rfl, hups, fun op' hop' => hown op' (List.mem_cons_of_mem _ hop'), hbad, hcalls, hgot⟩

omit [Rope R] in
theorem Stuck.other (h : s.Stuck w) (hcarries : msg.Carries op) (hinbox : w'.inbox s.fd = w.inbox s.fd ++ [msg]) :
    s.Stuck w' := by
  obtain ⟨ups, up, bad, rest, down, hup, hups, hown, hbad, hdown⟩ := h
  exact ⟨ups, up, bad, rest, down ++ [op], hup, hups, hown, hbad, hdown.send hinbox hcarries⟩

theorem Stuck.deliver (h : s.Stuck w) {rest : List Message} (hhead : s.down w = msg :: rest) {editor : Editor R}
    {out : List Message} (hmsg : s.editor.handleMsg msg.received = .ok (editor, out)) :
    editor.userId = s.editor.userId ∧ Site.Stuck w { s with editor, up := s.up ++ out, got := s.got + 1 } := by
  obtain ⟨ups, up, bad, rest', down, hup, hups, hown, hbad, hdown⟩ := h
  obtain ⟨op, down, rfl, hcarries, hdown⟩ := hdown.receive hhead editor (s.up ++ out)
  rw [hcarries.1] at hmsg
  obtain ⟨rfl, C, C', res, -, -, rfl⟩ := Editor.handleMsg_edit hcarries.2 hmsg
  refine ⟨rfl, ups, up, bad, rest', down, ?_, hups, hown, hbad, hdown⟩
  rw [List.append_nil]
  exact hup

end Site

end

namespace Net

variable {net net' : Net R} {S : Buffer R} {d : Doc R} {t : Sheet} {members : List (Conn × Int)}

theorem Start.inv (h : net.Start S) : ∃ d t, net.Inv (net.sites.map Site.member) S d t := by
  obtain ⟨d, hsound, hd⟩ := h.reached.inRange
  have hS := hsound.holds
  refine ⟨d, d.sheet id, rfl, h.mode, h.buf, hS, ⟨hS.wf, hd, d.names_worker, rfl⟩, h.polls, fun c hc => ?_, fun u hu => ?_,
    fun i s hs => .inl ?_⟩
  · obtain ⟨x, hx, rfl⟩ := List.mem_map.mp hc
    obtain ⟨s, hs, rfl⟩ := List.mem_map.mp hx
    exact h.polled s hs
  · obtain ⟨x, hx, rfl⟩ := List.mem_map.mp hu
    obtain ⟨s, hs, rfl⟩ := List.mem_map.mp hx
    exact h.loggedIn s hs
  · have hmem := List.mem_of_getElem? hs
    obtain ⟨C, hC, hsync⟩ := h.inSync s hmem
    obtain ⟨hup, hgot⟩ := h.quiet s hmem
    obtain ⟨e, hsound', he⟩ := hsync.reached.inRange
    have hC' := hsound'.holds
    have hdown : s.down net.world = [] := by rw [Site.down, hgot, List.drop_length]
    refine ⟨C, e, d.sheet id, [], [], hC, hC', by rw [hup]; exact .nil, ⟨by rw [hdown]; exact .nil, Nat.le_of_eq hgot⟩, ?_⟩
    exact
      { user := h.user s hmem
        client := ⟨hC'.wf, he, Doc.names_client (by rw [← hC'.serverMode, hsync.client]) _, by
          rw [← hC'.sheet, hsync.sheet, hS.sheet]⟩
        own := by simp
        others := by simp
        inStep := rfl }

omit [Rope R] in
/-- Who is a client stays the same when one acts. -/
theorem map_member_set {sites : List (Site R)} {i : Nat} {s t : Site R} (hs : sites[i]? = some s) (ht : t.member = s.member) :
    (sites.set i t).map Site.member = sites.map Site.member := by
  obtain ⟨hlt, hget⟩ := List.getElem?_eq_some_iff.mp hs
  rw [List.map_set, ht, ← hget, ← List.getElem_map Site.member (h := by rwa [List.length_map]), List.set_getElem_self]

/-- The other clients stay in step when one acts. -/
theorem Inv.set (h : net.Inv members S d t) {i : Nat} {s s' : Site R} (hs : net.sites[i]? = some s) (hmem : s'.member = s.member)
    (hfollows : s'.Follows net.world t ∨ s'.Stuck net.world) : Net.Inv members { net with sites := net.sites.set i s' } S d t :=
  { h with
    sites := (map_member_set hs hmem).trans h.sites
    follows := by
      intro j r hr
      rw [List.getElem?_set] at hr
      split at hr
      · split at hr
        · obtain rfl := Option.some.inj hr
          exact hfollows
        · cases hr
      · exact h.follows j r hr }

theorem Inv.member (h : net.Inv members S d t) {i : Nat} {s : Site R} (hs : net.sites[i]? = some s) :
    members[i]? = some (s.fd, s.editor.userId) := by rw [← h.sites, List.getElem?_map, hs]; rfl

theorem Inv.user_mem (h : net.Inv members S d t) {i : Nat} {s : Site R} (hs : net.sites[i]? = some s) :
    s.editor.userId ∈ members.map Prod.snd := List.mem_map_of_mem (List.mem_of_getElem? (h.member hs))

/-- Two clients have different connections and different users. -/
theorem Inv.apart (h : net.Inv members S d t) (hfds : (members.map Prod.fst).Nodup) (husers : (members.map Prod.snd).Nodup)
    {i j : Nat} {s r : Site R} (hs : net.sites[i]? = some s) (hr : net.sites[j]? = some r) (hij : j ≠ i) :
    r.fd ≠ s.fd ∧ r.editor.userId ≠ s.editor.userId := by
  have hmem := h.member hs
  have hmem' := h.member hr
  have hlt : j < members.length := (List.getElem?_eq_some_iff.mp hmem').1
  constructor
  · intro he
    refine hij ((List.getElem?_inj (by rwa [List.length_map]) hfds).mp ?_)
    rw [List.getElem?_map, List.getElem?_map, hmem, hmem', Option.map_some, Option.map_some, he]
  · intro he
    refine hij ((List.getElem?_inj (by rwa [List.length_map]) husers).mp ?_)
    rw [List.getElem?_map, List.getElem?_map, hmem, hmem', Option.map_some, Option.map_some, he]

/-- A client presses a key. -/
theorem Inv.press (h : net.Inv members S d t) {i : Nat} {key : Key} (hok : (Act.press i key).Commutes net)
    (hstep : net.step (.press i key) = some net') : Net.Inv members net' S d t := by
  obtain ⟨s, hs, hrun⟩ := Option.bind_eq_some_iff.mp hstep
  split at hrun
  · next editor msg hinput =>
      obtain rfl := Option.some.inj hrun
      obtain ⟨hnul, hcomm⟩ := hok
      have huser : editor.userId = s.editor.userId := by
        obtain ⟨-, -, -, -, -, -, -, -, -, -, -, rfl⟩ := Editor.handleInput_ok hinput
        rfl
      refine h.set hs (by rw [Site.member, huser]; rfl) ?_
      rcases h.follows i s hs with hfollows | hstuck
      · by_cases hkey : key.Ascii
        · exact .inl (hfollows.press hkey hinput fun C op hC hop => hcomm s hs C hC op hop)
        · cases key with
          | char c =>
              have hc : 128 ≤ c.toNat := Nat.le_of_not_lt fun hlt => hkey ⟨fun h0 => hnul (congrArg Key.char h0), hlt⟩
              exact .inr (hfollows.stuck hc hinput huser)
          | _ => exact absurd trivial hkey
      · exact .inr (hstuck.press huser msg)
  · cases hrun

/-- A client receives a message. -/
theorem Inv.deliver (h : net.Inv members S d t) {i : Nat} (hstep : net.step (.deliver i) = some net') :
    Net.Inv members net' S d t := by
  obtain ⟨s, hs, hrun⟩ := Option.bind_eq_some_iff.mp hstep
  split at hrun
  · cases hrun
  · next msg rest hdown =>
      split at hrun
      · next editor out hmsg =>
          obtain rfl := Option.some.inj hrun
          rcases h.follows i s hs with hfollows | hstuck
          · obtain ⟨huser, hfollows⟩ := hfollows.deliver hdown hmsg
            exact h.set hs (by rw [Site.member, huser]; rfl) (.inl hfollows)
          · obtain ⟨huser, hstuck⟩ := hstuck.deliver hdown hmsg
            exact h.set hs (by rw [Site.member, huser]; rfl) (.inr hstuck)
      · cases hrun

/-- The worker handles a message. -/
theorem Inv.handle (h : net.Inv members S d t) (h0 : 0 ∉ members.map Prod.snd) (hfds : (members.map Prod.fst).Nodup)
    (husers : (members.map Prod.snd).Nodup) {i : Nat} {a : Answers} (hok : (Act.handle i a).Commutes net)
    (hstep : net.step (.handle i a) = some net') : ∃ S' d' t', Net.Inv members net' S' d' t' := by
  obtain ⟨s, hs, hrun⟩ := Option.bind_eq_some_iff.mp hstep
  split at hrun
  · cases hrun
  · next msg up hup =>
      split at hrun
      · next world hmsg =>
          obtain rfl := Option.some.inj hrun
          have hflag := h.loggedIn _ (h.user_mem hs) a.outside
          have harrive : msg.Dead s.editor.userId ∨ ∃ op, msg.Carries op ∧ op.EditsAt s.editor.userId ∧ op.TypesAscii ∧
              ∀ w' : World R, w'.inbox s.fd = net.world.inbox s.fd →
                Site.Follows w' (t.apply op) { s with up } ∨ Site.Stuck w' { s with up } := by
            rcases h.follows i s hs with hfollows | hstuck
            · obtain ⟨op, hcarries, hedits, hascii, hrest⟩ := hfollows.arrive hup
              exact .inr ⟨op, hcarries, hedits, hascii, fun w' hinbox => .inl (hrest w' hinbox)⟩
            · rcases hstuck.arrive hup with hdead | ⟨op, hcarries, hedits, hascii, hrest⟩
              · exact .inl hdead
              · exact .inr ⟨op, hcarries, hedits, hascii, fun w' hinbox => .inr (hrest w' hinbox)⟩
          obtain hdead | ⟨op, hcarries, hedits, hascii, harrive⟩ := harrive
          · exact absurd hmsg (World.handleMsg_dead h.mode hflag hdead)
          · rw [hcarries.1] at hmsg
            have huser : msg.userId = s.editor.userId := hcarries.2.editsAt.inj hedits
            rw [← huser] at hflag
            obtain ⟨S₀, S', res, hS₀, hrun', rfl⟩ := World.handleMsg_edit h.mode hflag hcarries.2 hmsg
            obtain rfl := Option.some.inj (h.buf.symm.trans hS₀)
            have hne : s.editor.userId ≠ 0 := fun hzero => h0 (hzero ▸ h.user_mem hs)
            have hsent : ∀ {j : Nat} {r : Site R}, net.sites[j]? = some r →
                (((net.world.readsClient msg.userId).setBuf S').sendMsgEveryone s.fd msg).inbox r.fd =
                  net.world.inbox r.fd ++ if r.fd = s.fd then [] else [msg] :=
              fun hr => World.inbox_sendMsgEveryone _ h.polls s.fd _ msg
                (h.polled _ (List.mem_map_of_mem (List.mem_of_getElem? (h.member hr))))
            have hworker := h.worker.apply hedits hne hascii
            rw [op.under_id] at hworker
            refine ⟨S', d.apply op, t.apply op, ?_⟩
            exact
              { sites := (map_member_set (t := { s with up }) hs rfl).trans h.sites
                mode := h.mode
                buf := rfl
                holds := h.holds.edit hedits hrun'
                worker := hworker
                polls := h.polls
                polled := h.polled
                loggedIn := fun u hu outside => by
                  rw [← h.loggedIn u hu outside]
                  exact Proc.loggedIn_congr rfl outside u
                follows := by
                  intro j r hr
                  rw [List.getElem?_set] at hr
                  by_cases hij : i = j
                  · rw [if_pos hij] at hr
                    split at hr
                    · obtain rfl := Option.some.inj hr
                      exact harrive _ (by rw [hsent hs, if_pos rfl, List.append_nil])
                    · cases hr
                  · rw [if_neg hij] at hr
                    obtain ⟨hfd, hneq⟩ := h.apart hfds husers hs hr (Ne.symm hij)
                    have hinbox := hsent hr
                    rw [if_neg hfd] at hinbox
                    have hcomm := hok s hs op (by rw [hup]; exact hcarries.2.call) S h.buf r
                      (List.mem_eraseIdx_iff_getElem?.mpr ⟨j, Ne.symm hij, hr⟩)
                    rw [h.holds.sheet, h.worker.sheet] at hcomm
                    rcases h.follows j r hr with hfollows | hstuck
                    · exact .inl (hfollows.other hne hneq.symm hedits hascii hcarries hinbox hcomm)
                    · exact .inr (hstuck.other hcarries hinbox) }
      · cases hrun

/-- An act that commutes with what is under way. -/
theorem Inv.step (h : net.Inv members S d t) (h0 : 0 ∉ members.map Prod.snd) (hfds : (members.map Prod.fst).Nodup)
    (husers : (members.map Prod.snd).Nodup) {act : Act} (hok : act.Commutes net) (hstep : net.step act = some net') :
    ∃ S' d' t', Net.Inv members net' S' d' t' := by
  cases act with
  | press i key => exact ⟨S, d, t, h.press hok hstep⟩
  | handle i a => exact h.handle h0 hfds husers hok hstep
  | deliver i => exact ⟨S, d, t, h.deliver hstep⟩

/-- A run of such acts. -/
theorem Start.runs {net₀ : Net R} {S₀ : Buffer R} (h₀ : net₀.Start S₀) (h : Runs (fun net act => act.Commutes net) net₀ net) :
    ∃ S d t, net.Inv (net₀.sites.map Site.member) S d t := by
  have h0 : 0 ∉ (net₀.sites.map Site.member).map Prod.snd := by
    rw [List.map_map]
    intro hmem
    obtain ⟨s, hs, hzero⟩ := List.mem_map.mp hmem
    exact h₀.user s hs hzero
  induction h with
  | init =>
      obtain ⟨d, t, hinv⟩ := h₀.inv
      exact ⟨S₀, d, t, hinv⟩
  | step _ hok hstep ih =>
      obtain ⟨S, d, t, hinv⟩ := ih
      refine hinv.step h0 ?_ ?_ hok hstep
      · rw [List.map_map]
        exact h₀.fds
      · rw [List.map_map]
        exact h₀.users

/-- A client without messages under way shows what the worker shows. -/
theorem Inv.agree (h : net.Inv members S d t) {i : Nat} {s : Site R} (hs : net.sites[i]? = some s) (hup : s.up = [])
    (hdown : s.down net.world = []) : ∃ C, s.editor.b = some C ∧ C.sheet (clientId s.editor.userId) = S.sheet id := by
  rcases h.follows i s hs with ⟨C, e, t', ups, down, hC, hholds, hups, hheard, hfollows⟩ | ⟨ups, up, bad, rest, -, hup', -⟩
  · have hcalls := hheard.calls
    rw [hup] at hups
    rw [hdown] at hcalls
    cases hups
    cases hcalls
    exact ⟨C, hC, by rw [hholds.sheet, hfollows.client.sheet, hfollows.inStep.quiet, h.holds.sheet, h.worker.sheet]⟩
  · rw [hup] at hup'
    cases ups <;> cases hup'

end Net

/-- With nothing under way all clients show what the worker shows, if all calls that crossed commute. -/
theorem crossing_calls_converge {net₀ net : Net R} {S₀ : Buffer R} (h₀ : net₀.Start S₀)
    (h : Net.Runs (fun net act => act.Commutes net) net₀ net) (hquiet : net.Quiet) :
    ∃ S, net.world.proc.buf = some S ∧ ∀ s ∈ net.sites, ∃ C, s.editor.b = some C ∧ C.texts = S.texts ∧
      ∀ v, v ≠ 0 → C.place (clientId s.editor.userId v) = S.place v := by
  obtain ⟨S, d, t, hinv⟩ := h₀.runs h
  refine ⟨S, hinv.buf, fun s hs => ?_⟩
  obtain ⟨i, hi⟩ := List.mem_iff_getElem?.mp hs
  obtain ⟨hup, hdown⟩ := hquiet s hs
  obtain ⟨C, hC, hsheet⟩ := hinv.agree hi hup hdown
  refine ⟨C, hC, congrArg Sheet.texts hsheet, fun v hv => ?_⟩
  have hcurs := congrFun (congrArg Sheet.curs hsheet) v
  simpa only [Buffer.sheet, if_neg hv, id_eq] using hcurs

/-- With nothing under way all clients have the texts of the worker, if only calls crossed that are apart. -/
theorem clients_converge {net₀ net : Net R} {S₀ : Buffer R} (h₀ : net₀.Start S₀)
    (h : Net.Runs (fun net act => act.Apart net) net₀ net) (hquiet : net.Quiet) :
    ∃ S, net.world.proc.buf = some S ∧ ∀ s ∈ net.sites, ∃ C, s.editor.b = some C ∧ C.texts = S.texts := by
  obtain ⟨S, d, t, hinv⟩ := h₀.runs (h.mono fun _ _ => Act.Apart.commutes)
  refine ⟨S, hinv.buf, fun s hs => ?_⟩
  obtain ⟨i, hi⟩ := List.mem_iff_getElem?.mp hs
  obtain ⟨hup, hdown⟩ := hquiet s hs
  obtain ⟨C, hC, hsheet⟩ := hinv.agree hi hup hdown
  exact ⟨C, hC, congrArg Sheet.texts hsheet⟩

/-! ## Two clients -/

instance (ok : Op → Sheet → List Op → Prop) [∀ op s ops, Decidable (ok op s ops)] (net : Net R) :
    DecidablePred (Act.Crosses ok net)
  | .press .. => inferInstanceAs (Decidable (_ ∧ _))
  | .handle i _ => inferInstanceAs (Decidable (∀ s ∈ net.sites[i]?, _))
  | .deliver _ => .isTrue trivial

instance (net : Net R) (act : Act) : Decidable (act.Apart net) := inferInstanceAs (Decidable (act.Crosses Op.ApartFrom net))

instance (net : Net R) : Decidable net.Quiet := inferInstanceAs (Decidable (∀ s ∈ net.sites, _))

/-- Do the acts, if they meet `ok` and can be done. -/
def Net.play (ok : Net R → Act → Prop) [∀ net, DecidablePred (ok net)] (net : Net R) : List Act → Option (Net R)
  | [] => some net
  | act :: acts => if ok net act then (net.step act).bind fun net => net.play ok acts else none

theorem Net.Runs.play {ok : Net R → Act → Prop} [∀ net, DecidablePred (ok net)] {acts : List Act} :
    ∀ {net₀ net net' : Net R}, Net.Runs ok net₀ net → net.play ok acts = some net' → Net.Runs ok net₀ net' := by
  induction acts with
  | nil =>
      intro net₀ net net' h hplay
      cases hplay
      exact h
  | cons act acts ih =>
      intro net₀ net net' h hplay
      rw [Net.play] at hplay
      split at hplay
      · next hok =>
          obtain ⟨net₁, hstep, hplay⟩ := Option.bind_eq_some_iff.mp hplay
          exact ih (h.step hok hstep) hplay
      · cases hplay

/-- The buffers `S` and `C` have the same texts and the same cursors, `C` under the ids of client `u`. -/
def SameText (u : Int) (S C : Buffer R) : Prop :=
  C.width = S.width ∧ C.texts = S.texts ∧ u ∈ S.peerList.map Prod.fst ∧
    (∀ v ∈ S.peerList.map Prod.fst, C.place (clientId u v) = S.place v) ∧
    ∀ v ∈ C.peerList.map Prod.fst, v ∈ S.peerList.map Prod.fst

instance (u : Int) (S C : Buffer R) : Decidable (SameText u S C) := inferInstanceAs (Decidable (_ ∧ _))

theorem Holds.sheet_eq {S C : Buffer R} {d e : Doc R} {u : Int} (hS : Holds S d) (hC : Holds C e) (h : SameText u S C) :
    C.sheet (clientId u) = S.sheet id := by
  obtain ⟨hwidth, htexts, hu, hplaces, hpeers⟩ := h
  ext1
  · exact hwidth
  · exact htexts
  · funext v
    simp only [Buffer.sheet, id_eq]
    split
    · rfl
    · next hv =>
        by_cases hmem : v ∈ S.peerList.map Prod.fst
        · exact hplaces v hmem
        · have hvu : v ≠ u := fun h => hmem (h ▸ hu)
          have hnone : S.place v = none := by
            rw [hS.place]
            exact not_not.mp fun hcur => hmem (hS.mem_peerIds.mpr ⟨hv, hcur⟩)
          have hnone' : C.place v = none := by
            rw [hC.place]
            exact not_not.mp fun hcur => hmem (hpeers v (hC.mem_peerIds.mpr ⟨hv, hcur⟩))
          rw [clientId_ne hvu, hnone, hnone']

/-- A worker and two clients, with their connections. -/
def demoNet (S C₁ C₂ : Buffer ListRope) : Net ListRope where
  world :=
    { proc := { demoProc .worker (some S) with pollList := [some 0, some 1], clients := [false, true, true] }
      disk := demoDisk
      accepted := [0, 1]
      closed := []
      sent := []
      children := [] }
  sites := [⟨0, ⟨1, 1, some C₁⟩, [], 0⟩, ⟨1, ⟨2, 1, some C₂⟩, [], 0⟩]

/-- Clients 1 and 2 join a document. -/
def demoBuffers (data : Bytes) : Option (Buffer ListRope × Buffer ListRope × Buffer ListRope) := do
  let S₀ ← (bufferFromFile data 1 3 6 false).toOption
  let s ← (bufferSerialize S₀).toOption
  let C ← (bufferDeserialize s true).toOption
  let S₁ ← replay S₀ [.copyOwn 1]
  let s ← (bufferSerialize S₁).toOption
  let C₂ ← (bufferDeserialize s true).toOption
  let S ← replay S₁ [.copyOwn 2]
  let C₁ ← replay C [.new 2 0 0]
  pure (S, C₁, C₂)

theorem demoBuffers_reached {data : Bytes} {S C₁ C₂ : Buffer ListRope} (h : demoBuffers data = some (S, C₁, C₂)) :
    ∀ b ∈ [S, C₁, C₂], Reached (fun b op => op.KeepsRange b) b := by
  have hcopy : ∀ u, ∀ op ∈ [Op.copyOwn u], ∀ b : Buffer ListRope, op.KeepsRange b := by
    intro u op hop b
    obtain rfl := List.mem_singleton.mp hop
    trivial
  have hnew : ∀ op ∈ [Op.new 2 0 0], ∀ b : Buffer ListRope, op.KeepsRange b := by
    intro op hop b
    obtain rfl := List.mem_singleton.mp hop
    exact fun t _ => ⟨Int.le_refl 0, Int.natCast_nonneg _⟩
  obtain ⟨S₀, hS₀, h⟩ := Option.bind_eq_some_iff.mp h
  obtain ⟨s, hs, h⟩ := Option.bind_eq_some_iff.mp h
  obtain ⟨C, hC, h⟩ := Option.bind_eq_some_iff.mp h
  obtain ⟨S₁, hS₁, h⟩ := Option.bind_eq_some_iff.mp h
  obtain ⟨s', hs', h⟩ := Option.bind_eq_some_iff.mp h
  obtain ⟨C₂', hC₂, h⟩ := Option.bind_eq_some_iff.mp h
  obtain ⟨S', hS, h⟩ := Option.bind_eq_some_iff.mp h
  obtain ⟨C₁', hC₁, h⟩ := Option.bind_eq_some_iff.mp h
  cases h
  have hload : Reached (fun b op => op.KeepsRange b) S₀ := .load (by decide) (Except.toOption_eq_some.mp hS₀)
  have hfirst := hload.replay_of (hcopy 1) hS₁
  have hsnapshot := hload.reload (Except.toOption_eq_some.mp hs) (Except.toOption_eq_some.mp hC)
  have hsnapshot' := hfirst.reload (Except.toOption_eq_some.mp hs') (Except.toOption_eq_some.mp hC₂)
  simp only [List.forall_mem_cons, List.not_mem_nil, IsEmpty.forall_iff, implies_true, and_true]
  exact ⟨hfirst.replay_of (hcopy 2) hS, hsnapshot.replay_of hnew hC₁, hsnapshot'⟩

/-- The worker and the clients are at rest. -/
theorem exists_demoNet (data : Bytes) {P : Net ListRope → Bool} (h : ((demoBuffers data).any fun (S, C₁, C₂) =>
      decide (C₁.serverMode = false ∧ C₂.serverMode = false ∧ SameText 1 S C₁ ∧ SameText 2 S C₂) && P (demoNet S C₁ C₂)) = true) :
    ∃ (net : Net ListRope) (S : Buffer ListRope), net.Start S ∧ P net = true := by
  obtain ⟨⟨S, C₁, C₂⟩, hbuffers, htest⟩ := (Option.any_eq_true _ _).mp h
  obtain ⟨hsame, hP⟩ := (Bool.and_eq_true _ _).mp htest
  obtain ⟨hclient₁, hclient₂, hsame₁, hsame₂⟩ := of_decide_eq_true hsame
  have hreached := demoBuffers_reached hbuffers
  have hS := hreached S (by simp)
  have hsync : ∀ {u C}, C ∈ [S, C₁, C₂] → C.serverMode = false → SameText u S C → InSync u S C := by
    intro u C hmem hclient hsame
    obtain ⟨d, hd, -⟩ := hS.inRange
    obtain ⟨e, he, -⟩ := (hreached C hmem).inRange
    exact ⟨hreached C hmem, hclient, hd.holds.sheet_eq he.holds hsame⟩
  have hsites : ∀ {Q : Site ListRope → Prop}, Q ⟨0, ⟨1, 1, some C₁⟩, [], 0⟩ → Q ⟨1, ⟨2, 1, some C₂⟩, [], 0⟩ →
      ∀ s ∈ (demoNet S C₁ C₂).sites, Q s := by
    intro Q h₁ h₂ s hs
    rcases List.mem_cons.mp hs with rfl | hs
    · exact h₁
    · obtain rfl := List.mem_singleton.mp hs
      exact h₂
  refine ⟨demoNet S C₁ C₂, S, ?_, hP⟩
  exact
    { mode := rfl
      buf := rfl
      reached := hS
      polls := by show [0, 1].Nodup; decide
      fds := by show [0, 1].Nodup; decide
      users := by show [(1 : Int), 2].Nodup; decide
      polled := hsites (by show 0 ∈ [0, 1]; decide) (by show 1 ∈ [0, 1]; decide)
      loggedIn := hsites (fun _ => rfl) (fun _ => rfl)
      user := hsites (show (1 : Int) ≠ 0 by decide) (show (2 : Int) ≠ 0 by decide)
      quiet := hsites ⟨rfl, rfl⟩ ⟨rfl, rfl⟩
      inSync := hsites ⟨C₁, rfl, hsync (by simp) hclient₁ hsame₁⟩ ⟨C₂, rfl, hsync (by simp) hclient₂ hsame₂⟩ }

/-- Client 2 goes to the second line. Then client 1 types a character while client 2 breaks its line. -/
theorem crossing_calls_converge_ab : ∃ (net₀ net : Net ListRope) (S₀ S : Buffer ListRope), net₀.Start S₀ ∧
    Net.Runs (fun net act => act.Commutes net) net₀ net ∧ net.Quiet ∧ S.texts = ["xab".toList, [], "c".toList] ∧
    net.world.proc.buf = some S ∧ ∀ s ∈ net.sites, ∃ C, s.editor.b = some C ∧ C.texts = S.texts ∧
      ∀ v, v ≠ 0 → C.place (clientId s.editor.userId v) = S.place v := by
  obtain ⟨net₀, S₀, hstart, hP⟩ := exists_demoNet (bytes "ab\nc") (P := fun net =>
    (net.play (fun net act => act.Apart net) [.press 1 .down, .handle 1 demoAnswers, .deliver 0, .press 0 (.char 120),
      .press 1 .newline, .handle 0 demoAnswers, .handle 1 demoAnswers, .deliver 0, .deliver 1]).any fun (net : Net ListRope) =>
        decide (net.Quiet ∧ net.world.proc.buf.map Buffer.texts = some ["xab".toList, [], "c".toList])) (by decide +kernel)
  obtain ⟨net, hplay, htest⟩ := (Option.any_eq_true _ _).mp hP
  obtain ⟨hquiet, htexts⟩ := of_decide_eq_true htest
  have hruns := (Net.Runs.init.play hplay).mono fun _ _ => Act.Apart.commutes
  obtain ⟨S, hS, hsites⟩ := crossing_calls_converge hstart hruns hquiet
  rw [hS] at htexts
  exact ⟨net₀, net, S₀, S, hstart, hruns, hquiet, Option.some.inj htexts, hS, hsites⟩

/-- Two clients type at the same place at the same time: the client whose character arrives first sees them in the other
    order. -/
theorem crossing_calls_part : ∃ (net₀ net : Net ListRope) (S₀ S : Buffer ListRope), net₀.Start S₀ ∧
    Net.Runs (fun _ _ => True) net₀ net ∧ net.Quiet ∧ net.world.proc.buf = some S ∧ S.texts = ["yxab".toList, "c".toList] ∧
    ∃ s ∈ net.sites, ∃ C, s.editor.b = some C ∧ C.texts = ["xyab".toList, "c".toList] := by
  obtain ⟨net₀, S₀, hstart, hP⟩ := exists_demoNet (bytes "ab\nc") (P := fun net =>
    (net.play (fun _ _ => True) [.press 0 (.char 120), .press 1 (.char 121), .handle 0 demoAnswers, .handle 1 demoAnswers,
      .deliver 0, .deliver 1]).any fun (net : Net ListRope) =>
        decide (net.Quiet ∧ net.world.proc.buf.map Buffer.texts = some ["yxab".toList, "c".toList] ∧
          ∃ s ∈ net.sites, s.editor.b.map Buffer.texts = some ["xyab".toList, "c".toList])) (by decide +kernel)
  obtain ⟨net, hplay, htest⟩ := (Option.any_eq_true _ _).mp hP
  obtain ⟨hquiet, htexts, s, hs, htexts'⟩ := of_decide_eq_true htest
  obtain ⟨S, hS, htexts⟩ := Option.map_eq_some_iff.mp htexts
  obtain ⟨C, hC, htexts'⟩ := Option.map_eq_some_iff.mp htexts'
  exact ⟨net₀, net, S₀, S, hstart, Net.Runs.init.play hplay, hquiet, hS, htexts, s, hs, C, hC, htexts'⟩

end CoEditor
