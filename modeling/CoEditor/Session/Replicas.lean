-- SUMMARY: A worker and a client make the same calls in the same order, each under its own ids, and their buffers agree.
import CoEditor.Session.Snapshots
import CoEditor.Session.Swap

/-!
# Replicas

Client `u` starts with a snapshot that the worker takes just before it gives
the user a cursor. From then on both make the same calls.
-/

namespace CoEditor

variable {R : Type} [Rope R]

namespace Op

/-- What client `u` does when the worker makes a call; `first` is the id of the client's first line. -/
def atClient (u first : Int) : Op → Op
  | .new id lid pos => .new (clientId u id) lid pos
  | .copyOwn v => .new (clientId u v) first 0
  | .free v => .free (clientId u v)
  | .move v dir => .move (clientId u v) dir
  | .insert v chr => .insert (clientId u v) chr
  | .insertLine v => .insertLine (clientId u v)
  | .del v => .del (clientId u v)

/-- Only ASCII characters are typed. -/
def TypesAscii : Op → Prop
  | .insert _ chr => chr ≠ 0 ∧ chr.toNat < 128
  | _ => True

/-- Nobody joins while all slots are taken. -/
def FindsRoom (b : Buffer R) : Op → Prop
  | .new .. | .copyOwn _ => b.peerList.length < maxCursorNum
  | _ => True

/-- User `u` types only while he has a cursor. -/
def TypesPresent (u : Int) (b : Buffer R) : Op → Prop
  | .insert v _ => v = u → HasCurs b u
  | _ => True

instance (u : Int) : DecidablePred (By u)
  | .new .. => .isFalse id
  | .copyOwn _ | .free _ | .move .. | .insert .. | .insertLine _ | .del _ => inferInstanceAs (Decidable (_ = u))

instance : DecidablePred TypesAscii
  | .insert .. => inferInstanceAs (Decidable (_ ∧ _))
  | .new .. | .copyOwn _ | .free _ | .move .. | .insertLine _ | .del _ => .isTrue trivial

instance (b : Buffer R) : DecidablePred (FindsRoom b)
  | .new .. | .copyOwn _ => inferInstanceAs (Decidable (_ < _))
  | .free _ | .move .. | .insert .. | .insertLine _ | .del _ => .isTrue trivial

instance (u : Int) (b : Buffer R) : DecidablePred (TypesPresent u b)
  | .insert .. => inferInstanceAs (Decidable (_ = u → HasCurs b u))
  | .new .. | .copyOwn _ | .free _ | .move .. | .insertLine _ | .del _ => .isTrue trivial

end Op

/-- The buffer `S` of a worker when user `u` is about to join. -/
structure Joinable (u : Int) (S : Buffer R) : Prop where
  reached : Reached (fun b op => op.KeepsRange b) S
  serverMode : S.serverMode = true
  own : S.place 0 = some ⟨0, 0⟩
  peers : ∀ x ∈ S.peerList, 0 < x.1 ∧ x.1 < maxCursorNum ∧ x.1 ≠ u
  user : u ≠ 0

/-- The buffer of a worker and that of client `u`, after calls for users that all meet `ok`. -/
inductive Replicas (ok : Buffer R → Op → Prop) (u : Int) : Buffer R → Buffer R → Prop where
  | start {S S' C : Buffer R} {s : Bytes} {res : Bres} : Joinable u S → bufferSerialize S = .ok s →
      bufferDeserialize s true = .ok C → Op.run S (.copyOwn u) = .ok (S', res) → Replicas ok u S' C
  | step {S S' C C' : Buffer R} {op : Op} {v : Int} {f : Line R} {res res' : Bres} : Replicas ok u S C → op.By v → v ≠ 0 →
      op.Legal (HasCurs S) → op.FindsRoom S → op.TypesAscii → ok S op → C.line C.first = .ok f →
      op.run S = .ok (S', res) → (op.atClient u f.id).run C = .ok (C', res') → Replicas ok u S' C'

/-- Make calls for users at a worker and at client `u`, if they meet `ok` and return. -/
def both (ok : Buffer R → Op → Prop) [∀ S, DecidablePred (ok S)] (u : Int) (S C : Buffer R) :
    List (Int × Op) → Option (Buffer R × Buffer R)
  | [] => some (S, C)
  | (v, op) :: ops =>
      if op.By v ∧ v ≠ 0 ∧ op.Legal (HasCurs S) ∧ op.FindsRoom S ∧ op.TypesAscii ∧ ok S op then
        match C.line C.first with
        | .error _ => none
        | .ok f =>
            match op.run S, (op.atClient u f.id).run C with
            | .ok (S, _), .ok (C, _) => both ok u S C ops
            | _, _ => none
      else none

theorem Replicas.both {ok : Buffer R → Op → Prop} [∀ S, DecidablePred (ok S)] {u : Int} {ops : List (Int × Op)} :
    ∀ {S C S' C' : Buffer R}, Replicas ok u S C → CoEditor.both ok u S C ops = some (S', C') → Replicas ok u S' C' := by
  induction ops with
  | nil =>
      intro S C S' C' h hrun
      cases hrun
      exact h
  | cons x ops ih =>
      obtain ⟨v, op⟩ := x
      intro S C S' C' h hrun
      rw [CoEditor.both] at hrun
      split at hrun
      · next hcond =>
          obtain ⟨hby, hv, hlegal, hroom, hascii, hok⟩ := hcond
          split at hrun
          · cases hrun
          · next f hf =>
              split at hrun
              · next hS hC => exact ih (h.step hby hv hlegal hroom hascii hok hf hS hC) hrun
              · cases hrun
      · cases hrun

/-- The buffers hold the same lines, and the cursors of the users are at the same places. -/
structure Agree (u : Int) (S C : Buffer R) : Prop where
  content : C.content = S.content
  texts : C.texts = S.texts
  last : C.idOf C.last = S.idOf S.last
  numLines : C.numLines = S.numLines
  lineIdCnt : C.lineIdCnt = S.lineIdCnt
  others : ∀ v, v ≠ 0 → v ≠ u → C.place v = S.place v
  own : HasCurs S u → C.place 0 = S.place u

/-! ## Slots -/

variable {b b' S C : Buffer R} {d e : Doc R} {u : Int}

omit [Rope R] in
theorem Rep.peerIds {p : Page R} (h : Rep b p) : b.peerList.map Prod.fst = p.peers.filterMap (Option.map PageCursor.id) := by
  rw [Buffer.peerList, h.peers, List.filterMap_map, List.map_filterMap]
  refine List.filterMap_congr fun o ho => ?_
  cases o with
  | none => rfl
  | some c =>
      obtain ⟨i, hi⟩ := List.getElem?_of_mem ho
      obtain ⟨r, hr⟩ := Page.exists_row (h.curs_lt (.peer i) c (Page.curs_peer.mpr hi))
      simp [Page.cursor_of_row hr, Buffer.curs?]

/-- When all slots are taken there are `MAX_CURSOR_NUM` peers. -/
theorem Rep.full_peers {p : Page R} (h : Rep b p) (hp : p.Good) (hfull : p.Full) : b.peerList.length = maxCursorNum := by
  have hlen := congrArg List.length h.peerIds
  rw [List.length_map] at hlen
  rw [hlen, ← hp.slots, List.filterMap_length_eq_length]
  intro o ho
  have hsome := List.findIdx?_eq_none_iff.mp hfull o ho
  cases o with
  | none => cases hsome
  | some c => rfl

namespace Holds

/-- The ids of the peers are those of the cursors other than the own one. -/
theorem mem_peerIds (h : Holds b d) {i : Int} : i ∈ b.peerList.map Prod.fst ↔ i ≠ 0 ∧ d.curs i ≠ none := by
  obtain ⟨p, hrep, hgood, rfl⟩ := h
  rw [hrep.peerIds, List.mem_filterMap, Option.ne_none_iff_exists']
  constructor
  · rintro ⟨o, ho, hid⟩
    obtain ⟨c, rfl, rfl⟩ := Option.map_eq_some_iff.mp hid
    obtain ⟨k, hk⟩ := List.getElem?_of_mem ho
    have hc := Page.curs_peer.mpr hk
    exact ⟨fun h0 => (nomatch (hgood.own_iff hc).mpr h0), _, Page.doc_curs hgood.distinct hc⟩
  · rintro ⟨h0, x, hx⟩
    obtain ⟨ref, c, hc, rfl, rfl⟩ := Page.curs_of_doc hx
    cases ref with
    | own => exact absurd ((hgood.own_iff hc).mp rfl) h0
    | peer k => exact ⟨some c, List.mem_of_getElem? (Page.curs_peer.mp hc), rfl⟩

theorem peerIds_nodup (h : Holds b d) : (b.peerList.map Prod.fst).Nodup := by
  obtain ⟨p, hrep, hgood, rfl⟩ := h
  rw [hrep.peerIds, List.Nodup, List.pairwise_filterMap, List.pairwise_iff_getElem]
  intro i j hi hj hij a ha a' ha' heq
  obtain ⟨c, hc, rfl⟩ := Option.map_eq_some_iff.mp ha
  obtain ⟨c', hc', rfl⟩ := Option.map_eq_some_iff.mp ha'
  have hci := Page.curs_peer.mpr ((List.getElem?_eq_getElem hi).trans (congrArg some hc))
  have hcj := Page.curs_peer.mpr ((List.getElem?_eq_getElem hj).trans (congrArg some hc'))
  have href := hgood.distinct _ _ c c' hci hcj heq
  exact absurd (CursRef.peer.inj href) (Nat.ne_of_lt hij)

/-- A buffer whose peers are all peers of another one has no more of them. -/
theorem peers_le (h : Holds b d) (ids : List Int) (hsub : ∀ i, i ≠ 0 → d.curs i ≠ none → i ∈ ids) :
    b.peerList.length ≤ ids.length := by
  have hle := (List.subperm_of_subset h.peerIds_nodup fun i hi => by
    obtain ⟨h0, hne⟩ := h.mem_peerIds.mp hi
    exact hsub i h0 hne).length_le
  rwa [List.length_map] at hle

/-- Whoever finds room gets a cursor. -/
theorem join_update (h : Holds b d) {op : Op} (hfresh : op.Fresh fun id => d.curs id ≠ none) (hroom : op.FindsRoom b)
    {res : Bres} (hrun : op.run b = .ok (b', res)) (hop : (∃ id lid pos, op = .new id lid pos) ∨ ∃ id, op = .copyOwn id) :
    res = .update := by
  obtain ⟨p, hrep, hgood, rfl⟩ := h
  obtain ⟨q, -, hq⟩ := hrep.run_ok hgood hrun
  obtain ⟨id, lid, pos, rfl⟩ | ⟨id, rfl⟩ := hop
  · obtain ⟨-, ⟨-, hfull, -⟩ | ⟨hres, -⟩⟩ := hgood.bcursorNew (fun h0 => not_not.mp (hfresh h0)) hq
    · exact absurd (hrep.full_peers hgood hfull) (Nat.ne_of_lt hroom)
    · exact hres
  · obtain ⟨-, ⟨-, hfull, -⟩ | ⟨hres, -⟩⟩ := hgood.bcursorCopyOwn (fun h0 => not_not.mp (hfresh h0)) hq
    · exact absurd (hrep.full_peers hgood hfull) (Nat.ne_of_lt hroom)
    · exact hres

end Holds

/-! ## Steps -/

/-- The line that a client puts new cursors in. -/
theorem Holds.hasLine_first (h : Holds b d) {f : Line R} (hf : b.line b.first = .ok f) : d.HasLine f.id 0 := by
  obtain ⟨p, hrep, -, rfl⟩ := h
  obtain ⟨r, hr, hfirst⟩ := hrep.first_row
  rw [hfirst] at hf
  obtain rfl := Except.ok.inj ((hrep.line hr).symm.trans hf)
  exact ⟨Nat.zero_le _, by rw [Page.doc_getElem?, hr]; rfl⟩

/-- The two effects of one call for a user. -/
theorem Doc.Swapped.effect (h : Swapped u d e) (hwd : d.Wf) (hd : d.InRange) (hwe : e.Wf) (he : e.InRange) {op : Op} {v : Int}
    (hby : op.By v) (hv : v ≠ 0) (hascii : op.TypesAscii) (hpresent : ∀ chr, op = .insert u chr → d.curs u ≠ none)
    {first : Int} (hfirst : e.HasLine first 0) {res res' : Bres} {d' e' : Doc R} (hjoin : op = .copyOwn v → res = .update ∧ res' = .update)
    (heffect : op.Effect d res d') (heffect' : (op.atClient u first).Effect e res' e') : Swapped u d' e' := by
  have hnone : ∀ {w}, w ≠ 0 → w ≠ u → d.curs w = none → e.curs (clientId u w) = none := by
    intro w hw hwu hcurs
    rw [clientId_ne hwu, h.curs w hw hwu, hcurs]
  cases op with
  | new => exact hby.elim
  | copyOwn i =>
      obtain rfl : i = v := hby
      obtain ⟨rfl, rfl⟩ := hjoin rfl
      cases heffect with
      | copyOwn hown =>
          obtain rfl := Option.some.inj (hown.symm.trans h.home.own)
          cases heffect' with
          | new hline =>
              obtain rfl := hwe.hasLine_inj hfirst hline
              exact h.put hv (Int.le_refl 0)
  | free i =>
      obtain rfl : i = v := hby
      cases heffect with
      | freeOwn => exact absurd rfl hv
      | free =>
          have hleave := h.leave hv
          simp only [Op.atClient] at heffect'
          generalize hid : clientId u i = j at heffect'
          cases heffect' with
          | freeOwn =>
              have hiu : i = u := by
                by_contra hne
                exact hv (by rw [clientId_ne hne] at hid; exact hid)
              rwa [if_pos hiu] at hleave
          | free h0 =>
              have hiu : i ≠ u := by
                rintro rfl
                exact h0 (hid.symm.trans (clientId_self i))
              rw [← hid, clientId_ne hiu]
              rwa [if_neg hiu] at hleave
  | move i dir =>
      obtain rfl : i = v := hby
      cases heffect
      cases heffect'
      exact h.move hv dir
  | insert i chr =>
      obtain rfl : i = v := hby
      cases heffect with
      | insert hcur =>
          obtain ⟨x, hx⟩ := Option.ne_none_iff_exists'.mp hcur
          cases heffect' with
          | insert => exact h.insert hd hwd hv hx hascii.1 hascii.2
          | insertNone hcur' => cases hcur'.symm.trans (h.cursor hv hx)
      | insertNone hcur =>
          have hiu : i ≠ u := by
            rintro rfl
            exact hpresent chr rfl hcur
          cases heffect' with
          | insert hcur' => exact absurd (hnone hv hiu hcur) hcur'
          | insertNone => exact h
  | insertLine i =>
      obtain rfl : i = v := hby
      cases heffect with
      | insertLine hcur =>
          obtain ⟨x, hx⟩ := Option.ne_none_iff_exists'.mp hcur
          cases heffect'
          exact h.insertLine hd hwd he hwe hv hx
  | del i =>
      obtain rfl : i = v := hby
      cases heffect with
      | del hcur =>
          cases heffect'
          exact h.del hd hwd he hv hcur

/-- Two buffers that hold swapped documents, with all cursors in range. -/
structure Mirrored (u : Int) (S C : Buffer R) (d e : Doc R) : Prop where
  worker : Holds S d
  client : Holds C e
  inRange : d.InRange
  inRange' : e.InRange
  swapped : d.Swapped u e

namespace Mirrored

/-- Who finds room at the worker finds it at the client. -/
theorem peers_le (h : Mirrored u S C d e) : C.peerList.length ≤ S.peerList.length := by
  have hle := h.client.peers_le (S.peerList.map Prod.fst) fun i h0 hne => by
    have hiu : i ≠ u := by
      rintro rfl
      exact hne h.swapped.spare
    exact h.worker.mem_peerIds.mpr ⟨h0, by rwa [← h.swapped.curs i h0 hiu]⟩
  rwa [List.length_map] at hle

/-- A call for a user, made by both. -/
theorem step (h : Mirrored u S C d e) {op : Op} {v : Int} (hby : op.By v) (hv : v ≠ 0) (hlegal : op.Legal (HasCurs S))
    (hroom : op.FindsRoom S) (hascii : op.TypesAscii) (hpresent : op.TypesPresent u S) {f : Line R}
    (hf : C.line C.first = .ok f) {S' C' : Buffer R} {res res' : Bres} (hrun : op.run S = .ok (S', res))
    (hrun' : (op.atClient u f.id).run C = .ok (C', res')) : ∃ d' e', Mirrored u S' C' d' e' := by
  have hfresh : op.Fresh fun id => d.curs id ≠ none := ((Op.Legal.congr h.worker.hasCurs).mp hlegal).fresh
  have hfresh' : (op.atClient u f.id).Fresh fun id => e.curs id ≠ none := by
    cases op with
    | new => exact hby.elim
    | copyOwn i =>
        intro h0 hne
        have hiu : i ≠ u := by
          rintro rfl
          exact h0 (clientId_self i)
        obtain rfl : i = v := hby
        rw [clientId_ne hiu, h.swapped.curs i hv hiu] at hne
        exact hfresh hv hne
    | free | move | insert | insertLine | del => trivial
  have hkeeps : op.KeepsRange S := by
    cases op with
    | new => exact hby.elim
    | insert => exact .inl hascii
    | copyOwn | free | move | insertLine | del => trivial
  have hkeeps' : (op.atClient u f.id).KeepsRange C := by
    cases op with
    | new => exact hby.elim
    | copyOwn => exact fun t _ => ⟨Int.le_refl 0, Int.natCast_nonneg _⟩
    | insert => exact .inl hascii
    | free | move | insertLine | del => trivial
  obtain ⟨d', hd', heffect⟩ := h.worker.run op hfresh hrun
  obtain ⟨e', he', heffect'⟩ := h.client.run _ hfresh' hrun'
  refine ⟨d', e', hd', he', h.worker.effect_inRange h.inRange hkeeps heffect,
    h.client.effect_inRange h.inRange' hkeeps' heffect',
    h.swapped.effect h.worker.wf h.inRange h.client.wf h.inRange' hby hv hascii
      (fun chr hop => (h.worker.hasCurs u).mp (by subst hop; exact hpresent rfl)) (h.client.hasLine_first hf) ?_ heffect heffect'⟩
  rintro rfl
  have hroom' : (Op.atClient u f.id (.copyOwn v)).FindsRoom C := Nat.lt_of_le_of_lt h.peers_le hroom
  exact ⟨h.worker.join_update hfresh hroom hrun (.inr ⟨_, rfl⟩), h.client.join_update hfresh' hroom' hrun' (.inl ⟨_, _, _, rfl⟩)⟩

/-- What the two buffers show. -/
theorem agree (h : Mirrored u S C d e) : Agree u S C := by
  have hcontent : C.content = S.content := by rw [h.client.content, h.worker.content, h.swapped.content]
  have hlast : ∀ {b : Buffer R} {f : Doc R}, Holds b f → b.idOf b.last = f.content[f.last]?.map Prod.fst := by
    rintro b _ ⟨p, hrep, -, rfl⟩
    rw [hrep.last, hrep.idOf, Doc.content, List.getElem?_map, Page.doc_getElem?, Page.idAt, Option.map_map, Option.map_map]
    rfl
  exact
    { content := hcontent
      texts := by rw [h.client.texts, h.worker.texts, Doc.texts_eq, Doc.texts_eq, h.swapped.content, h.swapped.last]
      last := by rw [hlast h.client, hlast h.worker, h.swapped.content, h.swapped.last]
      numLines := by rw [h.client.numLines, h.worker.numLines, h.swapped.numLines]
      lineIdCnt := by rw [h.client.lineIdCnt, h.worker.lineIdCnt, h.swapped.lineIdCnt]
      others := fun v hv hvu => by rw [h.client.place, h.worker.place, h.swapped.curs v hv hvu]
      own := fun hu => by rw [h.client.place, h.worker.place, h.swapped.own ((h.worker.hasCurs u).mp hu)] }

end Mirrored

/-! ## The start -/

/-- The client reads the snapshot, and the worker gives the user a cursor. -/
theorem Joinable.mirrored (h : Joinable u S) {s : Bytes} {S' : Buffer R} {res : Bres} (hs : bufferSerialize S = .ok s)
    (hC : bufferDeserialize s true = .ok C) (hrun : Op.run S (.copyOwn u) = .ok (S', res)) : ∃ d e, Mirrored u S' C d e := by
  obtain ⟨d, hsound, hd⟩ := h.reached.inRange
  have hS := hsound.holds
  have hown : d.curs 0 = some ⟨0, 0⟩ := by rw [← hS.place, h.own]
  have hpeers : ∀ i, i ≠ 0 → d.curs i ≠ none → 0 < i ∧ i < maxCursorNum ∧ i ≠ u := by
    intro i h0 hne
    obtain ⟨x, hx, rfl⟩ := List.mem_map.mp (hS.mem_peerIds.mpr ⟨h0, hne⟩)
    exact h.peers x hx
  have hnone : d.curs u = none := by
    by_contra hne
    exact (hpeers u h.user hne).2.2 rfl
  have hroom : S.peerList.length < maxCursorNum := by
    refine Nat.lt_of_le_of_lt (hS.peers_le ((List.range' 1 19).map Nat.cast) fun i h0 hne => ?_) (by decide)
    obtain ⟨hpos, hlt, -⟩ := hpeers i h0 hne
    have hlt : i < 20 := hlt
    exact List.mem_map.mpr ⟨i.toNat, List.mem_range'_1.mpr (by omega), by omega⟩
  have hfresh : (Op.copyOwn u).Fresh fun id => d.curs id ≠ none := fun _ hne => hne hnone
  obtain ⟨d', hd', heffect⟩ := hS.run (.copyOwn u) hfresh hrun
  obtain rfl := hS.join_update hfresh hroom hrun (.inr ⟨_, rfl⟩)
  cases heffect with
  | copyOwn hx =>
      obtain rfl := Option.some.inj (hx.symm.trans hown)
      have hhome : d.Home := ⟨by rw [← hS.serverMode, h.serverMode], hown, fun i x hx => (hd i x hx).1⟩
      refine ⟨_, _, hd', (hsound.reload hs hC).holds, hd.put u (Int.le_refl 0) (Int.natCast_nonneg _), hd.restore true, ?_⟩
      exact
        { user := h.user
          home := hhome.put h.user (Int.le_refl 0)
          client := rfl
          content := d.restore_content true
          counts := rfl
          curs := by
            intro v hv hvu
            simp only [Doc.put, if_neg hvu, Doc.restore]
            split
            · rfl
            · next hout =>
                by_contra hne
                obtain ⟨hpos, hlt, -⟩ := hpeers v hv (Ne.symm hne)
                exact hout ⟨by omega, hlt⟩
          own := fun _ => by simp [Doc.put, Doc.restore, hown]
          spare := by
            simp only [Doc.restore, hnone, ite_self] }

/-- Worker and client after the same calls. -/
theorem Replicas.mirrored (h : Replicas (fun S op => op.TypesPresent u S) u S C) : ∃ d e, Mirrored u S C d e := by
  induction h with
  | start hjoin hs hC hrun => exact hjoin.mirrored hs hC hrun
  | step _ hby hv hlegal hroom hascii hpresent hf hrun hrun' ih =>
      obtain ⟨d, e, hde⟩ := ih
      exact hde.step hby hv hlegal hroom hascii hpresent hf hrun hrun'

/-- Worker and client agree after the same calls, if the client's user types only while he has a cursor. -/
theorem replicas_agree (h : Replicas (fun S op => op.TypesPresent u S) u S C) : Agree u S C := by
  obtain ⟨d, e, hde⟩ := h.mirrored
  exact hde.agree

/-- Client 1 joins a document with one line. -/
theorem exists_start {P : Buffer ListRope → Buffer ListRope → Bool}
    (h : returns (bufferFromFile (R := ListRope) (bytes "ab") 1 3 6 false) (fun S =>
      decide (S.serverMode = true ∧ S.place 0 = some ⟨0, 0⟩ ∧ S.peerList = []) && returns (bufferSerialize S) fun s =>
        returns (bufferDeserialize s true) fun C => returns (Op.run S (.copyOwn 1)) fun x => P x.1 C) = true) :
    ∃ S C : Buffer ListRope, (∀ ok, Replicas ok 1 S C) ∧ P S C = true := by
  obtain ⟨S, hS, h⟩ := exists_of_returns h
  obtain ⟨hjoin, h⟩ := (Bool.and_eq_true _ _).mp h
  obtain ⟨hmode, hown, hpeers⟩ := of_decide_eq_true hjoin
  obtain ⟨s, hs, h⟩ := exists_of_returns h
  obtain ⟨C, hC, h⟩ := exists_of_returns h
  obtain ⟨⟨S', res⟩, hrun, hP⟩ := exists_of_returns h
  exact ⟨S', C, fun ok => .start ⟨.load (by decide) hS, hmode, hown, by simp [hpeers], by decide⟩ hs hC hrun, hP⟩

/-- User 1 types a character and breaks the line behind it. -/
theorem replicas_agree_ab : ∃ S C : Buffer ListRope, Replicas (fun S op => op.TypesPresent 1 S) 1 S C ∧
    S.texts = ["x".toList, "ab".toList] ∧ S.place 1 = some ⟨1, 0⟩ ∧ Agree 1 S C := by
  obtain ⟨S, C, hstart, htest⟩ := exists_start (P := fun S C =>
    (both (fun S op => op.TypesPresent 1 S) 1 S C [(1, .insert 1 120), (1, .insertLine 1)]).any fun (S, _) =>
      decide (S.texts = ["x".toList, "ab".toList] ∧ S.place 1 = some ⟨1, 0⟩)) (by decide +kernel)
  obtain ⟨⟨S', C'⟩, hboth, hP⟩ := (Option.any_eq_true _ _).mp htest
  obtain ⟨htexts, hplace⟩ := of_decide_eq_true hP
  have hreplicas := (hstart _).both hboth
  exact ⟨S', C', hreplicas, htexts, hplace, replicas_agree hreplicas⟩

/-- User 1 leaves and types on: at the worker he has no cursor any more, at the client he has. -/
theorem replicas_part : ∃ S C : Buffer ListRope, Replicas (fun _ _ => True) 1 S C ∧ S.texts = ["ab".toList] ∧
    C.texts = ["xab".toList] ∧ ¬ Agree 1 S C := by
  obtain ⟨S, C, hstart, htest⟩ := exists_start (P := fun S C =>
    (both (fun _ _ => True) 1 S C [(1, .free 1), (1, .insert 1 120)]).any fun (S, C) =>
      decide (S.texts = ["ab".toList] ∧ C.texts = ["xab".toList])) (by decide +kernel)
  obtain ⟨⟨S', C'⟩, hboth, hP⟩ := (Option.any_eq_true _ _).mp htest
  obtain ⟨htexts, htexts'⟩ := of_decide_eq_true hP
  refine ⟨S', C', (hstart _).both hboth, htexts, htexts', fun hagree => ?_⟩
  have hsame := hagree.texts
  rw [htexts, htexts'] at hsame
  exact absurd hsame (by decide)

end CoEditor
