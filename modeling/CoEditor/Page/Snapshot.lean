-- SUMMARY: What buffer_serialize writes about a page, and that each of its values is found again.
import CoEditor.Buffer.Snapshot
import CoEditor.Page.Sim
import CoEditor.Parson.RoundTrip

/-!
# Snapshots of pages

`entries p` lists the paths and values of a snapshot of `p`, in the order they
are written. No path leads through another one, so each value is found under
its path, and nothing is found beside them.
-/

namespace CoEditor

open Decimal

variable {R : Type} [Rope R]

namespace Page

/-! ## Entries -/

/-- The id of row `k`, which there is. -/
def lineId (p : Page R) (k : Nat) : Int := (p.idAt k).getD 0

def attrEntries (p : Page R) : List (JsonPath × Json) :=
  [([bytes "id"], .num p.id), ([bytes "ver"], .num p.ver), ([bytes "num_lines"], .num p.numLines),
    ([bytes "line_id_cnt"], .num p.lineIdCnt), ([bytes "height"], .num p.height),
    ([bytes "width"], .num p.width), ([bytes "first"], .num (p.lineId 0)),
    ([bytes "last"], .num (p.lineId p.last)), ([bytes "top"], .num (p.lineId p.top)),
    ([bytes "bottom"], .num (p.lineId p.bottom))]

def nextEntries (p : Page R) (k : Nat) : List (JsonPath × Json) :=
  if k + 1 < p.rows.length then [(linePath (p.lineId k) "next", .num (p.lineId (k + 1)))] else []

def prevEntries (p : Page R) (k : Nat) : List (JsonPath × Json) :=
  if k = 0 then [] else [(linePath (p.lineId k) "prev", .num (p.lineId (k - 1)))]

def rowEntries (p : Page R) (k : Nat) : List (JsonPath × Json) :=
  p.nextEntries k ++ p.prevEntries k ++ [(linePath (p.lineId k) "str", .str (Rope.writeCstr (p.strAt k)))]

def ownEntries (p : Page R) : List (JsonPath × Json) :=
  [(ownPath "id", .num p.own.id), (ownPath "own_line", .num (p.lineId p.own.row)), (ownPath "pos", .num p.own.pos)]

def peerEntries (p : Page R) : Option PageCursor → List (JsonPath × Json)
  | none => []
  | some c => [(peerFieldPath c.id "own_line", .num (p.lineId c.row)), (peerFieldPath c.id "pos", .num c.pos)]

def lineEntries (p : Page R) : List (JsonPath × Json) := (List.range p.rows.length).flatMap p.rowEntries

def entries (p : Page R) : List (JsonPath × Json) :=
  p.attrEntries ++ p.lineEntries ++ p.ownEntries ++ p.peers.flatMap p.peerEntries

/-- The object of a snapshot. -/
def snapshot (p : Page R) : JsonObject := build p.entries []

omit [Rope R] in
theorem lineId_of_row {p : Page R} {k : Nat} {r : Row R} (hr : p.rows[k]? = some r) : p.lineId k = r.id := by
  simp [lineId, idAt, hr]

end Page

/-! ## Writing -/

theorem build_append (A B : List (JsonPath × Json)) (o : JsonObject) : build (A ++ B) o = build B (build A o) := by
  simp [build]

/-- The text of a rope is valid UTF-8. -/
theorem dotsetString_writeCstr (o : JsonObject) (path : JsonPath) (r : R) :
    jsonObjectDotsetString o path (Rope.writeCstr r) = build [(path, .str (Rope.writeCstr r))] o := by
  simp [jsonObjectDotsetString, jsonValueInitString, Utf8.decode_encode, build]

namespace Rep

variable {b : Buffer R} {p : Page R}

theorem serializeLines (h : Rep b p) (hfits : p.Fits) :
    ∀ (d k fuel : Nat) (o : JsonObject), k + d = p.rows.length → d ≤ fuel →
      CoEditor.serializeLines b fuel o p.ptrs[k]? = .ok (build ((List.range' k d).flatMap p.rowEntries) o) := by
  intro d
  induction d with
  | zero =>
      intro k fuel o hk _
      have hend : p.ptrs[k]? = none := by simp; omega
      rw [hend]
      cases fuel <;> rfl
  | succ d ih =>
      intro k fuel o hk hfuel
      obtain ⟨n, rfl⟩ : ∃ n, fuel = n + 1 := ⟨fuel - 1, by omega⟩
      obtain ⟨r, hr⟩ := Page.exists_row (p := p) (i := k) (by omega)
      have hsp : Buffer.writeSp r.str = .ok (Rope.writeCstr r.str) := by
        have hfit := hfits k
        rw [Page.strAt_of_row hr] at hfit
        simp only [Buffer.writeSp, if_pos hfit]
      have hnext : ∀ o, serializeLink b o (linePath r.id "next") p.ptrs[k + 1]? = .ok (build (p.nextEntries k) o) := by
        intro o
        by_cases hlt : k + 1 < p.rows.length
        · obtain ⟨s, hs⟩ := Page.exists_row hlt
          simp only [Page.ptrs_of_row hs, serializeLink, h.line hs, Page.nextEntries, if_pos hlt,
            Page.lineId_of_row hs, Page.lineId_of_row hr]
          rfl
        · have hnone : p.ptrs[k + 1]? = none := by simp; omega
          simp only [hnone, serializeLink, Page.nextEntries, if_neg hlt]
          rfl
      have hprev : ∀ o, serializeLink b o (linePath r.id "prev") (prevAt p.ptrs k) =
          .ok (build (p.prevEntries k) o) := by
        intro o
        cases k with
        | zero => rfl
        | succ j =>
            obtain ⟨s, hs⟩ := Page.exists_row (p := p) (i := j) (by omega)
            simp only [prevAt_succ, Page.ptrs_of_row hs, serializeLink, h.line hs, Page.prevEntries,
              Page.lineId_of_row hr, Nat.add_sub_cancel, Page.lineId_of_row hs]
            rfl
      rw [Page.ptrs_of_row hr]
      simp only [CoEditor.serializeLines, h.line hr, Page.lineOf, hsp, hnext, hprev, Except.ok_bind_eq]
      rw [ih (k + 1) n _ (by omega) (by omega), dotsetString_writeCstr, List.range'_succ, List.flatMap_cons,
        build_append, Page.rowEntries, build_append, build_append, Page.lineId_of_row hr, Page.strAt_of_row hr]

omit [Rope R] in
theorem serializePeer (h : Rep b p) (o : JsonObject) (i : Nat) :
    CoEditor.serializePeer b o i = .ok (build (p.peerEntries p.peers[i]?.join) o) := by
  simp only [CoEditor.serializePeer, h.peers, List.getElem?_map]
  cases hi : p.peers[i]?.join with
  | none =>
      cases ho : p.peers[i]? with
      | none => rfl
      | some x =>
          rw [ho] at hi
          obtain rfl : x = none := hi
          rfl
  | some c =>
      obtain ⟨r, hr⟩ := Page.exists_row (h.curs_lt (.peer i) c (Page.curs_peer_join.mp hi))
      have ho : p.peers[i]? = some (some c) := by
        cases ho : p.peers[i]? with
        | none => rw [ho] at hi; cases hi
        | some x => rw [ho] at hi; rw [show x = some c from hi]
      simp only [ho, Option.map_some, Option.join_some, Option.bind_some, Page.cursor_of_row hr, h.line hr,
        Page.lineOf, Page.peerEntries, Page.lineId_of_row hr]
      rfl

omit [Rope R] in
/-- The peer cursors are written in the order of their slots. -/
theorem serializePeers (h : Rep b p) (hslots : p.peers.length = maxCursorNum) (o : JsonObject) :
    (List.range maxCursorNum).foldlM (CoEditor.serializePeer b) o = .ok (build (p.peers.flatMap p.peerEntries) o) := by
  have hloop : ∀ n, n ≤ p.peers.length → (List.range n).foldlM (CoEditor.serializePeer b) o =
      .ok (build ((p.peers.take n).flatMap p.peerEntries) o) := by
    intro n
    induction n with
    | zero => exact fun _ => rfl
    | succ n ih =>
        intro hn
        obtain ⟨x, hx⟩ : ∃ x, p.peers[n]? = some x := ⟨_, List.getElem?_eq_getElem hn⟩
        rw [List.range_succ, List.foldlM_append, ih (by omega), Except.ok_bind_eq, List.foldlM_cons,
          h.serializePeer, hx, List.take_add_one, hx, List.flatMap_append, build_append]
        simp
  rw [← hslots, hloop _ (Nat.le_refl _), List.take_length]

/-- A line that does not fit the scratch pad stops the loop. -/
theorem serializeLines_fits (h : Rep b p) :
    ∀ (d k fuel : Nat) (o o' : JsonObject), k + d = p.rows.length →
      CoEditor.serializeLines b fuel o p.ptrs[k]? = .ok o' →
        ∀ i, k ≤ i → i < p.rows.length → (Rope.writeCstr (p.strAt i)).length + 1 ≤ spSize := by
  intro d
  induction d with
  | zero =>
      intro k fuel o o' hk _ i hi hlt
      omega
  | succ d ih =>
      intro k fuel o o' hk hrun i hi hlt
      obtain ⟨r, hr⟩ := Page.exists_row (p := p) (i := k) (by omega)
      rw [Page.ptrs_of_row hr] at hrun
      cases fuel with
      | zero => cases hrun
      | succ n =>
          simp only [CoEditor.serializeLines, h.line hr, Page.lineOf, Except.ok_bind_eq] at hrun
          obtain ⟨s, hs, hrun⟩ := Except.bind_eq_ok.mp hrun
          obtain ⟨o₁, -, hrun⟩ := Except.bind_eq_ok.mp hrun
          obtain ⟨o₂, -, hrun⟩ := Except.bind_eq_ok.mp hrun
          by_cases hik : i = k
          · subst hik
            rw [Page.strAt_of_row hr]
            simp only [Buffer.writeSp] at hs
            split at hs
            · assumption
            · cases hs
          · exact ih (k + 1) n _ o' (by omega) hrun i (by omega) hlt

/-- What can be serialized fits the scratch pad. -/
theorem fits (h : Rep b p) {s : Bytes} (hrun : CoEditor.bufferSerialize b = .ok s) : p.Fits := by
  intro k
  by_cases hk : k < p.rows.length
  · simp only [CoEditor.bufferSerialize] at hrun
    obtain ⟨_, -, hrun⟩ := Except.bind_eq_ok.mp hrun
    obtain ⟨_, -, hrun⟩ := Except.bind_eq_ok.mp hrun
    obtain ⟨_, -, hrun⟩ := Except.bind_eq_ok.mp hrun
    obtain ⟨_, -, hrun⟩ := Except.bind_eq_ok.mp hrun
    obtain ⟨_, hlines, -⟩ := Except.bind_eq_ok.mp hrun
    rw [← h.first] at hlines
    exact h.serializeLines_fits p.rows.length 0 _ _ _ (Nat.zero_add _) hlines k (Nat.zero_le k) hk
  · have hnone : p.rows[k]? = none := List.getElem?_eq_none (Nat.not_lt.mp hk)
    simp [Page.strAt, hnone, spSize]

/-- A snapshot of a buffer is the text of the object of its page. -/
theorem bufferSerialize (h : Rep b p) (hslots : p.peers.length = maxCursorNum) (hfits : p.Fits) :
    CoEditor.bufferSerialize b = .ok (jsonSerialize (.obj p.snapshot)) := by
  obtain ⟨f, hf, hfirst⟩ := h.first_row
  obtain ⟨l, hl⟩ := Page.exists_row h.last_lt
  obtain ⟨t, ht⟩ := Page.exists_row h.top_lt
  obtain ⟨e, he⟩ := Page.exists_row h.bottom_lt
  obtain ⟨r, hr, hown⟩ := h.own_ok
  have hlines := h.serializeLines hfits p.rows.length 0 b.heap.cells.length
  rw [Page.ptrs_of_row hf] at hlines
  simp only [CoEditor.bufferSerialize, hfirst, hown, h.line hf, h.line hr, h.last, h.top, h.bottom, h.lineAt hl,
    h.lineAt ht, h.lineAt he, Except.ok_bind_eq, hlines _ (Nat.zero_add _) h.loose.chained.length_le,
    h.serializePeers hslots, Page.lineOf, h.id, h.ver, h.numLines, h.lineIdCnt, h.height, h.width]
  simp only [Page.snapshot, Page.entries, build_append, Page.lineEntries, Page.attrEntries, Page.ownEntries,
    Page.lineId_of_row hf, Page.lineId_of_row hl, Page.lineId_of_row ht, Page.lineId_of_row he,
    Page.lineId_of_row hr, List.range_eq_range']
  rfl

end Rep

/-! ## The paths lie apart -/

theorem Apart.of_head {k j : Bytes} (h : k ≠ j) (p q : JsonPath) : Apart (k :: p) (j :: q) :=
  Apart.cons_iff.mpr fun e => absurd e h

/-- The paths `lines.<id>.<name>` of different lines, or of different names, lie apart. -/
theorem apart_fields {k i j a c : Bytes} (h : i = j → a ≠ c) : Apart [k, i, a] [k, j, c] := by
  rw [Apart.cons_iff, Apart.cons_iff]
  exact fun _ e => Apart.of_head (h e) [] []

/-- Paths to different names in one object lie apart. -/
theorem apart_names (q : JsonPath) (ns : List Bytes) (h : ns.Nodup) {A : List (JsonPath × Json)}
    (hA : A.map Prod.fst = ns.map fun n => q ++ [n]) : A.Pairwise fun a a' => Apart a.1 a'.1 := by
  rw [← List.pairwise_map (R := Apart), hA, List.pairwise_map]
  clear hA
  refine h.imp fun hne => ?_
  induction q with
  | nil => exact Apart.of_head hne [] []
  | cons k q ih => exact Apart.cons_iff.mpr fun _ => ih

namespace Page

variable {p : Page R}

omit [Rope R] in
theorem attrEntries_path {a : JsonPath × Json} (ha : a ∈ p.attrEntries) :
    ∃ k, a.1 = [k] ∧ k ≠ bytes "lines" ∧ k ≠ bytes "own_cursor" ∧ k ≠ bytes "peer_curss" := by
  simp only [attrEntries, List.mem_cons, List.not_mem_nil, or_false] at ha
  rcases ha with rfl | rfl | rfl | rfl | rfl | rfl | rfl | rfl | rfl | rfl <;> exact ⟨_, rfl, by decide⟩

theorem rowEntries_path {k : Nat} {a : JsonPath × Json} (ha : a ∈ p.rowEntries k) :
    ∃ name, a.1 = [bytes "lines", digits (p.lineId k), name] := by
  simp only [rowEntries, nextEntries, prevEntries, List.mem_append, List.mem_singleton] at ha
  rcases ha with (ha | ha) | rfl
  · split at ha
    · obtain rfl := List.mem_singleton.mp ha
      exact ⟨_, rfl⟩
    · cases ha
  · split at ha
    · cases ha
    · obtain rfl := List.mem_singleton.mp ha
      exact ⟨_, rfl⟩
  · exact ⟨_, rfl⟩

theorem lineEntries_path {a : JsonPath × Json} (ha : a ∈ p.lineEntries) :
    ∃ k name, k < p.rows.length ∧ a.1 = [bytes "lines", digits (p.lineId k), name] := by
  obtain ⟨k, hk, ha⟩ := List.mem_flatMap.mp ha
  obtain ⟨name, hname⟩ := rowEntries_path ha
  exact ⟨k, name, List.mem_range.mp hk, hname⟩

omit [Rope R] in
theorem ownEntries_path {a : JsonPath × Json} (ha : a ∈ p.ownEntries) : ∃ name, a.1 = [bytes "own_cursor", name] := by
  simp only [ownEntries, List.mem_cons, List.not_mem_nil, or_false] at ha
  rcases ha with rfl | rfl | rfl <;> exact ⟨_, rfl⟩

omit [Rope R] in
theorem peersEntries_path {a : JsonPath × Json} (ha : a ∈ p.peers.flatMap p.peerEntries) :
    ∃ c name, some c ∈ p.peers ∧ a ∈ p.peerEntries (some c) ∧ a.1 = [bytes "peer_curss", digits c.id, name] := by
  obtain ⟨o, ho, ha⟩ := List.mem_flatMap.mp ha
  cases o with
  | none => cases ha
  | some c =>
      refine ⟨c, ?_⟩
      have ha' := ha
      simp only [peerEntries, List.mem_cons, List.not_mem_nil, or_false] at ha'
      rcases ha' with rfl | rfl <;> exact ⟨_, ho, ha, rfl⟩

/-- Line ids are distinct. -/
def IdsNodup (p : Page R) : Prop := (p.rows.map Row.id).Nodup

omit [Rope R] in
theorem lineId_inj (hn : p.IdsNodup) {i j : Nat} (hi : i < p.rows.length) (hj : j < p.rows.length)
    (h : p.lineId i = p.lineId j) : i = j := by
  obtain ⟨r, hr⟩ := exists_row hi
  obtain ⟨s, hs⟩ := exists_row hj
  rw [lineId_of_row hr, lineId_of_row hs] at h
  refine (List.getElem?_inj (by simpa using hi) hn).mp ?_
  rw [List.getElem?_map, List.getElem?_map, hr, hs, Option.map_some, Option.map_some, h]

theorem rowEntries_pairwise (k : Nat) : (p.rowEntries k).Pairwise fun a a' => Apart a.1 a'.1 := by
  have hns : Apart (linePath (p.lineId k) "next") (linePath (p.lineId k) "str") := apart_fields fun _ => by decide
  have hnp : Apart (linePath (p.lineId k) "next") (linePath (p.lineId k) "prev") := apart_fields fun _ => by decide
  have hps : Apart (linePath (p.lineId k) "prev") (linePath (p.lineId k) "str") := apart_fields fun _ => by decide
  unfold rowEntries nextEntries prevEntries
  split <;> split <;> simp [hns, hnp, hps]

theorem lineEntries_pairwise (hn : p.IdsNodup) : p.lineEntries.Pairwise fun a a' => Apart a.1 a'.1 := by
  rw [lineEntries, List.flatMap, List.pairwise_flatten]
  refine ⟨fun l hl => ?_, ?_⟩
  · obtain ⟨k, -, rfl⟩ := List.mem_map.mp hl
    exact rowEntries_pairwise k
  · rw [List.pairwise_map, List.pairwise_iff_getElem]
    intro i j hi hj hij a ha a' ha'
    rw [List.length_range] at hi hj
    rw [List.getElem_range] at ha ha'
    obtain ⟨name, hname⟩ := rowEntries_path ha
    obtain ⟨name', hname'⟩ := rowEntries_path ha'
    rw [hname, hname']
    refine apart_fields fun e => ?_
    have := lineId_inj hn hi hj (digits_injective e)
    omega

omit [Rope R] in
theorem peersEntries_pairwise (hD : p.Distinct) :
    (p.peers.flatMap p.peerEntries).Pairwise fun a a' => Apart a.1 a'.1 := by
  rw [List.flatMap, List.pairwise_flatten]
  refine ⟨fun l hl => ?_, ?_⟩
  · obtain ⟨o, -, rfl⟩ := List.mem_map.mp hl
    cases o with
    | none => exact List.Pairwise.nil
    | some c =>
        have h : Apart (peerFieldPath c.id "own_line") (peerFieldPath c.id "pos") := apart_fields fun _ => by decide
        simp [peerEntries, h]
  · rw [List.pairwise_map, List.pairwise_iff_getElem]
    intro i j hi hj hij a ha a' ha'
    have hpeer : ∀ {n : Nat} (hn : n < p.peers.length) {a : JsonPath × Json}, a ∈ p.peerEntries p.peers[n] →
        ∃ c name, p.curs (.peer n) = .ok c ∧ a.1 = [bytes "peer_curss", digits c.id, name] := by
      intro n hn a ha
      cases ho : p.peers[n] with
      | none => rw [ho] at ha; cases ha
      | some c =>
          rw [ho] at ha
          have hc : p.curs (.peer n) = .ok c := curs_peer.mpr (by rw [List.getElem?_eq_getElem hn, ho])
          simp only [peerEntries, List.mem_cons, List.not_mem_nil, or_false] at ha
          rcases ha with rfl | rfl <;> exact ⟨c, _, hc, rfl⟩
    obtain ⟨c, name, hc, hname⟩ := hpeer hi ha
    obtain ⟨c', name', hc', hname'⟩ := hpeer hj ha'
    rw [hname, hname']
    refine apart_fields fun e => ?_
    have := hD _ _ _ _ hc hc' (digits_injective e)
    cases this
    omega

theorem entries_pairwise (hn : p.IdsNodup) (hD : p.Distinct) :
    p.entries.Pairwise fun a a' => Apart a.1 a'.1 := by
  have hattr : p.attrEntries.Pairwise fun a a' => Apart a.1 a'.1 :=
    apart_names [] (["id", "ver", "num_lines", "line_id_cnt", "height", "width", "first", "last", "top",
      "bottom"].map bytes) (by decide) rfl
  have hown : p.ownEntries.Pairwise fun a a' => Apart a.1 a'.1 :=
    apart_names [bytes "own_cursor"] (["id", "own_line", "pos"].map bytes) (by decide) rfl
  refine List.pairwise_append.mpr ⟨List.pairwise_append.mpr ⟨List.pairwise_append.mpr
    ⟨hattr, lineEntries_pairwise hn, ?_⟩, hown, ?_⟩, peersEntries_pairwise hD, ?_⟩
  · intro a ha a' ha'
    obtain ⟨k, hk, hne, -⟩ := attrEntries_path ha
    obtain ⟨i, name, -, hname⟩ := lineEntries_path ha'
    rw [hk, hname]
    exact Apart.of_head hne _ _
  · intro a ha a' ha'
    obtain ⟨name', hname'⟩ := ownEntries_path ha'
    rcases List.mem_append.mp ha with ha | ha
    · obtain ⟨k, hk, -, hne, -⟩ := attrEntries_path ha
      rw [hk, hname']
      exact Apart.of_head hne _ _
    · obtain ⟨i, name, -, hname⟩ := lineEntries_path ha
      rw [hname, hname']
      exact Apart.of_head (by decide) _ _
  · intro a ha a' ha'
    obtain ⟨c, name', -, -, hname'⟩ := peersEntries_path ha'
    rw [hname']
    rcases List.mem_append.mp ha with ha | ha
    · rcases List.mem_append.mp ha with ha | ha
      · obtain ⟨k, hk, -, -, hne⟩ := attrEntries_path ha
        rw [hk]
        exact Apart.of_head hne _ _
      · obtain ⟨i, name, -, hname⟩ := lineEntries_path ha
        rw [hname]
        exact Apart.of_head (by decide) _ _
    · obtain ⟨name, hname⟩ := ownEntries_path ha
      rw [hname]
      exact Apart.of_head (by decide) _ _

/-- Every value of a snapshot is found under its path, and nothing else is found. -/
theorem snapshot_built (hn : p.IdsNodup) (hD : p.Distinct) : Built p.entries p.snapshot := by
  refine built_build (fun a ha => ?_) (entries_pairwise hn hD)
  simp only [entries, List.mem_append] at ha
  rcases ha with ((ha | ha) | ha) | ha
  · obtain ⟨k, hk, -⟩ := attrEntries_path ha
    simp [hk]
  · obtain ⟨i, name, -, hname⟩ := lineEntries_path ha
    simp [hname]
  · obtain ⟨name, hname⟩ := ownEntries_path ha
    simp [hname]
  · obtain ⟨c, name, -, -, hname⟩ := peersEntries_path ha
    simp [hname]

end Page

/-! ## The text of a snapshot -/

theorem zero_notMem_writeCstr (r : R) : (0 : UInt8) ∉ Rope.writeCstr r := by
  rw [Rope.writeCstr_eq, Utf8.zero_mem_encode]
  exact Rope.noNul r

/-- A value that can be printed and read back, under a path of at most three names without `NUL`. -/
def Plain (a : JsonPath × Json) : Prop :=
  (∀ k ∈ a.1, (0 : UInt8) ∉ k) ∧ a.2.Ok ∧ a.2.depth + a.1.length ≤ 3

theorem plain_num {path : JsonPath} {n : Int} (hpath : ∀ k ∈ path, (0 : UInt8) ∉ k) (hlen : path.length ≤ 3) :
    Plain (path, .num n) := ⟨hpath, trivial, by simpa [Json.depth] using hlen⟩

/-- Names written out in the source contain no `NUL`. -/
theorem zero_notMem_field {k name : Bytes} {id : Int} (hk : (0 : UInt8) ∉ k) (hname : (0 : UInt8) ∉ name) :
    ∀ j ∈ [k, digits id, name], (0 : UInt8) ∉ j := by
  intro j hj
  simp only [List.mem_cons, List.not_mem_nil, or_false] at hj
  rcases hj with rfl | rfl | rfl
  · exact hk
  · exact zero_notMem_digits id
  · exact hname

theorem Page.entries_plain (p : Page R) {a : JsonPath × Json} (ha : a ∈ p.entries) : Plain a := by
  simp only [entries, List.mem_append] at ha
  rcases ha with ((ha | ha) | ha) | ha
  · simp only [attrEntries, List.mem_cons, List.not_mem_nil, or_false] at ha
    rcases ha with rfl | rfl | rfl | rfl | rfl | rfl | rfl | rfl | rfl | rfl <;>
      exact plain_num (by decide) (by decide)
  · obtain ⟨k, -, ha⟩ := List.mem_flatMap.mp ha
    simp only [rowEntries, nextEntries, prevEntries, List.mem_append, List.mem_singleton] at ha
    rcases ha with (ha | ha) | rfl
    · split at ha
      · obtain rfl := List.mem_singleton.mp ha
        exact plain_num (zero_notMem_field (by decide) (by decide)) (Nat.le_refl 3)
      · cases ha
    · split at ha
      · cases ha
      · obtain rfl := List.mem_singleton.mp ha
        exact plain_num (zero_notMem_field (by decide) (by decide)) (Nat.le_refl 3)
    · refine ⟨zero_notMem_field (by decide) (by decide), ?_, by simp [Json.depth, linePath]⟩
      simpa only [Json.Ok] using zero_notMem_writeCstr (p.strAt k)
  · simp only [ownEntries, List.mem_cons, List.not_mem_nil, or_false] at ha
    rcases ha with rfl | rfl | rfl <;> exact plain_num (by decide) (by decide)
  · obtain ⟨o, -, ha⟩ := List.mem_flatMap.mp ha
    cases o with
    | none => cases ha
    | some c =>
        simp only [peerEntries, List.mem_cons, List.not_mem_nil, or_false] at ha
        rcases ha with rfl | rfl <;>
          exact plain_num (zero_notMem_field (by decide) (by decide)) (Nat.le_refl 3)

/-- A snapshot is read back as the object it was printed from. -/
theorem Page.parse_snapshot (p : Page R) : jsonParseString (jsonSerialize (.obj p.snapshot)) = some (.obj p.snapshot) := by
  have h := jsonParseString_build (A := p.entries)
    (fun a ha => ⟨(p.entries_plain ha).1, (p.entries_plain ha).2.1⟩)
    (fun a ha => Nat.le_trans (p.entries_plain ha).2.2 (by decide)) []
  rwa [List.append_nil] at h

end CoEditor
