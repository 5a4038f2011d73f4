-- SUMMARY: Reading a snapshot gives back the page it was taken of, in fresh memory.
import CoEditor.Page.Snapshot
import CoEditor.Session.Window

/-!
# Restoring pages

`p.restore u` is the page that a snapshot of `p` is read into. It has the rows,
the marks and the own cursor of `p`; the peer cursors come in the order of
their ids, and only those with ids below the number of slots come at all.
-/

namespace CoEditor

open Decimal

variable {R : Type} [Rope R]

namespace Page

/-- Row `r` as it is read back at position `i`: the lines are allocated one after the other. -/
def restoreRow (i : Nat) (r : Row R) : Row R := ⟨i, r.id, Rope.insert Rope.new 0 (Rope.writeCstr r.str), .same⟩

def restoreRows (p : Page R) : List (Row R) := p.rows.mapIdx restoreRow

/-- The slots after the cursors `l` were put into them. -/
def slots (l : List PageCursor) : List (Option PageCursor) :=
  l.map some ++ List.replicate (maxCursorNum - l.length) none

/-- The peer cursor with id `i`. -/
def peerOf (p : Page R) (i : Nat) : Option PageCursor :=
  if i = 0 then none else (p.doc.curs i).map fun x => ⟨i, x.row, x.pos⟩

/-- The peer cursors with ids below `n`. -/
def peersBelow (p : Page R) (n : Nat) : List PageCursor := (List.range n).filterMap p.peerOf

/-- The page before its flags are set, when the peer cursors `l` have been read. -/
def unflagged (p : Page R) (l : List PageCursor) : Page R :=
  { p with serverMode := false, rows := p.restoreRows, peers := slots l }

def restore (p : Page R) (u : Bool) : Page R :=
  { (p.unflagged (p.peersBelow maxCursorNum)).binit with serverMode := !u }

/-! ## What is found in a snapshot -/

/-- The readers find in `o` what `p` says. -/
structure Reads (o : JsonObject) (p : Page R) : Prop where
  attrs : ∀ k n, ([k], Json.num n) ∈ p.attrEntries → jsonObjectGetNumber o k = n
  own : ∀ path n, (path, Json.num n) ∈ p.ownEntries → jsonObjectDotgetNumber o path = n
  str : ∀ k < p.rows.length, jsonObjectDotgetString o (linePath (p.lineId k) "str") = some (Rope.writeCstr (p.strAt k))
  next : ∀ k, k + 1 < p.rows.length → jsonObjectDothasValue o (linePath (p.lineId k) "next") = true ∧
    jsonObjectDotgetNumber o (linePath (p.lineId k) "next") = p.lineId (k + 1)
  stop : ∀ k, k + 1 = p.rows.length → jsonObjectDothasValue o (linePath (p.lineId k) "next") = false
  peer : ∀ i c, p.curs (.peer i) = .ok c → jsonObjectDothasValue o (peerPath c.id) = true ∧
    jsonObjectDotgetNumber o (peerFieldPath c.id "own_line") = p.lineId c.row ∧
      jsonObjectDotgetNumber o (peerFieldPath c.id "pos") = c.pos
  noPeer : ∀ id, (∀ i c, p.curs (.peer i) = .ok c → c.id ≠ id) → jsonObjectDothasValue o (peerPath id) = false
  count : p.rows.length ≤ lineCount o

theorem mem_rowEntries {p : Page R} {k : Nat} (hk : k < p.rows.length) {a : JsonPath × Json} (ha : a ∈ p.rowEntries k) :
    a ∈ p.entries := by
  have hline : a ∈ p.lineEntries := List.mem_flatMap.mpr ⟨k, List.mem_range.mpr hk, ha⟩
  simp [entries, hline]

theorem mem_peerEntries {p : Page R} {i : Nat} {c : PageCursor} (hc : p.curs (.peer i) = .ok c) {a : JsonPath × Json}
    (ha : a ∈ p.peerEntries (some c)) : a ∈ p.entries := by
  have hmem : a ∈ p.peers.flatMap p.peerEntries :=
    List.mem_flatMap.mpr ⟨some c, List.mem_of_getElem? (curs_peer.mp hc), ha⟩
  simp [entries, hmem]

theorem dotgetNumber_of_get {o : JsonObject} {path : JsonPath} {n : Int}
    (h : jsonObjectDotgetValue o path = some (.num n)) : jsonObjectDotgetNumber o path = n := by
  rw [jsonObjectDotgetNumber, h]
  rfl

/-- A snapshot holds an object for every line id. -/
theorem length_le_lineCount {p : Page R} {o : JsonObject} (hb : Built p.entries o) (hn : p.IdsNodup) :
    p.rows.length ≤ lineCount o := by
  have hkeys : ((List.range p.rows.length).map fun k => digits (p.lineId k)).Nodup := by
    rw [List.nodup_map_iff_inj_on List.nodup_range]
    intro i hi j hj e
    exact lineId_inj hn (List.mem_range.mp hi) (List.mem_range.mp hj) (digits_injective e)
  have hsub : ((List.range p.rows.length).map fun k => digits (p.lineId k)) ⊆
      (jsonValueGetObject (jsonObjectGetValue o (bytes "lines"))).map Prod.fst := by
    intro key hkey
    obtain ⟨k, hk, rfl⟩ := List.mem_map.mp hkey
    obtain ⟨ms, hms⟩ := hb.inner [bytes "lines", digits (p.lineId k)] (by simp)
      ⟨(linePath (p.lineId k) "str", .str (Rope.writeCstr (p.strAt k))),
        mem_rowEntries (List.mem_range.mp hk) (by simp [rowEntries]), by simp [linePath], by simp [linePath]⟩
    exact List.mem_map_of_mem (mem_of_getValue hms)
  simpa [lineCount] using List.Nodup.length_le_of_subset hkeys hsub

theorem snapshot_reads {p : Page R} (hn : p.IdsNodup) (hD : p.Distinct) : Reads p.snapshot p := by
  have hb := snapshot_built hn hD
  refine
    { attrs := fun k n ha => ?_
      own := fun path n ha => dotgetNumber_of_get (hb.get (path, .num n) (by simp [entries, ha]))
      str := fun k hk => ?_
      next := fun k hk => ?_
      stop := fun k hk => ?_
      peer := fun i c hc => ⟨?_, ?_, ?_⟩
      noPeer := fun id hid => ?_
      count := length_le_lineCount hb hn }
  · have hget := hb.get ([k], .num n) (by simp [entries, ha])
    rw [jsonObjectGetNumber, show jsonObjectGetValue p.snapshot k = _ from hget]
    rfl
  · rw [jsonObjectDotgetString, hb.get (linePath (p.lineId k) "str", .str (Rope.writeCstr (p.strAt k)))
      (mem_rowEntries hk (by simp [rowEntries]))]
    rfl
  · have hget := hb.get (linePath (p.lineId k) "next", .num (p.lineId (k + 1)))
      (mem_rowEntries (k := k) (by omega) (by simp [rowEntries, nextEntries, hk]))
    refine ⟨?_, dotgetNumber_of_get hget⟩
    rw [jsonObjectDothasValue, hget]
    rfl
  · rw [jsonObjectDothasValue, hb.none, Option.isSome_none]
    intro a ha
    simp only [entries, List.mem_append] at ha
    rcases ha with ((ha | ha) | ha) | ha
    · obtain ⟨j, hj, hne, -⟩ := attrEntries_path ha
      rw [hj]
      exact Apart.of_head hne _ _
    · obtain ⟨j, hj, ha⟩ := List.mem_flatMap.mp ha
      have hj := List.mem_range.mp hj
      by_cases hjk : j = k
      · subst hjk
        have hlast : ¬ j + 1 < p.rows.length := by omega
        simp only [rowEntries, nextEntries, if_neg hlast, prevEntries, List.nil_append, List.mem_append,
          List.mem_singleton] at ha
        rcases ha with ha | rfl
        · split at ha
          · cases ha
          · obtain rfl := List.mem_singleton.mp ha
            exact apart_fields fun _ => by decide
        · exact apart_fields fun _ => by decide
      · obtain ⟨name, hname⟩ := rowEntries_path ha
        rw [hname]
        exact apart_fields fun e => absurd (lineId_inj hn hj (by omega) (digits_injective e)) hjk
    · obtain ⟨name, hname⟩ := ownEntries_path ha
      rw [hname]
      exact Apart.of_head (by decide) _ _
    · obtain ⟨c, name, -, -, hname⟩ := peersEntries_path ha
      rw [hname]
      exact Apart.of_head (by decide) _ _
  · obtain ⟨ms, hms⟩ := hb.inner (peerPath c.id) (by simp [peerPath])
      ⟨(peerFieldPath c.id "pos", .num c.pos), mem_peerEntries hc (by simp [peerEntries]),
        by simp [peerPath, peerFieldPath], by simp [peerPath, peerFieldPath]⟩
    rw [jsonObjectDothasValue, hms]
    rfl
  · exact dotgetNumber_of_get (hb.get (peerFieldPath c.id "own_line", .num (p.lineId c.row))
      (mem_peerEntries hc (by simp [peerEntries])))
  · exact dotgetNumber_of_get (hb.get (peerFieldPath c.id "pos", .num c.pos)
      (mem_peerEntries hc (by simp [peerEntries])))
  · rw [jsonObjectDothasValue, hb.none, Option.isSome_none]
    intro a ha
    simp only [entries, List.mem_append] at ha
    rcases ha with ((ha | ha) | ha) | ha
    · obtain ⟨j, hj, -, -, hne⟩ := attrEntries_path ha
      rw [hj]
      exact Apart.of_head hne _ _
    · obtain ⟨j, name, -, hname⟩ := lineEntries_path ha
      rw [hname]
      exact Apart.of_head (by decide) _ _
    · obtain ⟨name, hname⟩ := ownEntries_path ha
      rw [hname]
      exact Apart.of_head (by decide) _ _
    · obtain ⟨c, name, hc, -, hname⟩ := peersEntries_path ha
      obtain ⟨i, hi⟩ := List.getElem?_of_mem hc
      rw [hname, peerPath, Apart.cons_iff]
      exact fun _ => Apart.of_head (fun e => hid i c (curs_peer.mpr hi) (digits_injective e)) _ _

end Page

/-! ## Reading the chain -/

/-- One more line is read. -/
theorem Chained.readLine {b : Buffer R} {rows : List (Row R)} (hc : Chained b.heap rows)
    (hlen : b.heap.cells.length = rows.length) {o : JsonObject} {id : Int} {s : Bytes}
    (hs : jsonObjectDotgetString o (linePath id "str") = some s) :
    ∃ heap, CoEditor.readLine o b id (prevAt (rows.map Row.ptr) rows.length) = .ok ({ b with heap }, rows.length) ∧
      Chained heap (rows ++ [⟨rows.length, id, Rope.insert Rope.new 0 s, .same⟩]) ∧
        heap.cells.length = rows.length + 1 := by
  obtain ⟨heap, hnew, hchain, hl⟩ := hc.lineNew id .same
  rw [hlen] at hnew hchain hl
  have hrow : (rows ++ [(⟨rows.length, id, Rope.new, .same⟩ : Row R)])[rows.length]? =
      some ⟨rows.length, id, Rope.new, .same⟩ := by simp
  obtain ⟨l, hget, -, hstr⟩ := hchain.cell _ _ hrow
  have hset : Chained (heap.set rows.length { l with str := Rope.insert l.str 0 s }) _ :=
    hchain.set hrow hget rfl rfl rfl
  rw [List.set_append_right _ _ (Nat.le_refl _), Nat.sub_self, List.set_cons_zero, hstr] at hset
  refine ⟨heap.set rows.length { l with str := Rope.insert l.str 0 s }, ?_, ?_, by simpa [Heap.set] using hl⟩
  · rw [CoEditor.readLine, hnew, Except.ok_bind_eq]
    simp only [hs, Buffer.modifyLine, Buffer.line, hget, Except.ok_bind_eq, Except.pure_eq_ok]
  · rw [hstr]
    exact hset

namespace Page

variable {p : Page R}

theorem restoreRows_take_succ {k : Nat} (hk : k < p.rows.length) :
    p.restoreRows.take (k + 1) = p.restoreRows.take k ++
      [⟨k, p.lineId k, Rope.insert Rope.new 0 (Rope.writeCstr (p.strAt k)), .same⟩] := by
  obtain ⟨r, hr⟩ := exists_row hk
  rw [List.take_add_one, restoreRows, List.getElem?_mapIdx, hr, lineId_of_row hr, strAt_of_row hr]
  rfl

theorem restoreRows_length (p : Page R) : p.restoreRows.length = p.rows.length := by simp [restoreRows]

/-- The chain up to row `k` is read, and row `k` comes next. -/
theorem Reads.readLine {o : JsonObject} (ho : Reads o p) {b : Buffer R} {k : Nat} (hk : k < p.rows.length)
    (hc : Chained b.heap (p.restoreRows.take k)) (hlen : b.heap.cells.length = k) (prev : Option Ptr)
    (hprev : prev = if k = 0 then none else some (k - 1)) :
    ∃ heap, CoEditor.readLine o b (p.lineId k) prev = .ok ({ b with heap }, k) ∧
      Chained heap (p.restoreRows.take (k + 1)) ∧ heap.cells.length = k + 1 := by
  have hrows : (p.restoreRows.take k).length = k := by
    rw [List.length_take, restoreRows_length]
    omega
  have hat : prev = prevAt ((p.restoreRows.take k).map Row.ptr) (p.restoreRows.take k).length := by
    rw [hprev, hrows]
    cases k with
    | zero => rfl
    | succ j =>
        obtain ⟨r, hr⟩ := exists_row (p := p) (i := j) (by omega)
        simp [restoreRows, hr, restoreRow]
  obtain ⟨heap, hrun, hchain, hl⟩ := hc.readLine (by rw [hlen, hrows]) (ho.str k hk)
  rw [hrows] at hrun hchain hl
  rw [hat, hrows]
  exact ⟨heap, hrun, by rw [restoreRows_take_succ hk]; exact hchain, hl⟩

theorem Reads.readLines {o : JsonObject} (ho : Reads o p) :
    ∀ (d k fuel : Nat) (b : Buffer R), k + 1 + d = p.rows.length → d ≤ fuel →
      Chained b.heap (p.restoreRows.take (k + 1)) → b.heap.cells.length = k + 1 →
        ∃ heap, CoEditor.readLines o b k (p.lineId k) fuel = .ok ({ b with heap }, p.rows.length - 1) ∧
          Chained heap p.restoreRows := by
  intro d
  induction d with
  | zero =>
      intro k fuel b hk _ hc _
      have htake : p.restoreRows.take (k + 1) = p.restoreRows :=
        List.take_of_length_le (by rw [restoreRows_length]; omega)
      refine ⟨b.heap, ?_, htake ▸ hc⟩
      have hstop := ho.stop k (by omega)
      rw [show p.rows.length - 1 = k by omega]
      cases fuel <;> simp [CoEditor.readLines, hstop]
  | succ d ih =>
      intro k fuel b hk hfuel hc hlen
      obtain ⟨n, rfl⟩ : ∃ n, fuel = n + 1 := ⟨fuel - 1, by omega⟩
      obtain ⟨hhas, hnext⟩ := ho.next k (by omega)
      obtain ⟨heap, hrun, hchain, hl⟩ := ho.readLine (k := k + 1) (by omega) hc hlen (some k) (by simp)
      obtain ⟨heap', hrun', hchain'⟩ := ih (k + 1) n { b with heap } (by omega) (by omega) hchain hl
      refine ⟨heap', ?_, hchain'⟩
      simp only [CoEditor.readLines, hhas, if_true, hnext, hrun, Except.ok_bind_eq]
      exact hrun'

/-- The whole chain is read. -/
theorem Reads.readChain {o : JsonObject} (ho : Reads o p) (hlen : 2 ≤ p.rows.length) {b : Buffer R}
    (hb : b.heap = .empty) :
    ∃ heap, CoEditor.readChain o b = .ok ({ b with heap, first := 0 }, p.rows.length - 1) ∧
      Chained heap p.restoreRows := by
  have hfirst : jsonObjectGetNumber o (bytes "first") = p.lineId 0 := ho.attrs _ _ (by simp [attrEntries])
  obtain ⟨-, hnext⟩ := ho.next 0 (by omega)
  obtain ⟨heap₀, hrun₀, hchain₀, hl₀⟩ := ho.readLine (b := b) (k := 0) (by omega)
    (by rw [List.take_zero, hb]; exact .nil) (by rw [hb]; rfl) none rfl
  obtain ⟨heap₁, hrun₁, hchain₁, hl₁⟩ := ho.readLine (b := { b with heap := heap₀, first := 0 }) (k := 1) (by omega)
    hchain₀ hl₀ (some 0) rfl
  have hcount := ho.count
  obtain ⟨heap, hrun, hchain⟩ := ho.readLines (p.rows.length - 2) 1 (lineCount o)
    { b with heap := heap₁, first := 0 } (by omega) (by omega) hchain₁ hl₁
  refine ⟨heap, ?_, hchain⟩
  simp only [CoEditor.readChain, hfirst, hrun₀, hnext, hrun₁, Except.ok_bind_eq]
  exact hrun

end Page

/-! ## Reading the marks -/

namespace Page

variable {p : Page R}

omit [Rope R] in
theorem blineFindFrom_lineId (hn : p.IdsNodup) {j : Nat} :
    ∀ {k : Nat}, j ≤ k → k < p.rows.length → p.blineFindFrom (p.lineId j) k = some j := by
  have hid : ∀ i, i < p.rows.length → p.idAt i = some (p.lineId i) := by
    intro i hi
    obtain ⟨r, hr⟩ := exists_row hi
    rw [lineId_of_row hr, idAt, hr, Option.map_some]
  intro k
  induction k with
  | zero =>
      intro hj hk
      obtain rfl : j = 0 := by omega
      rw [blineFindFrom, if_pos (hid 0 hk)]
  | succ k ih =>
      intro hj hk
      simp only [blineFindFrom, hid (k + 1) hk, Option.some.injEq]
      by_cases he : p.lineId (k + 1) = p.lineId j
      · rw [if_pos he, lineId_inj hn hk (by omega) he]
      · have hne : j ≠ k + 1 := fun e => he (by rw [e])
        rw [if_neg he]
        exact ih (by omega) (by omega)

theorem restoreRows_getElem? (p : Page R) (i : Nat) :
    p.restoreRows[i]? = p.rows[i]?.map (restoreRow i) := by simp [restoreRows]

theorem restoreRows_ptr {i : Nat} (hi : i < p.rows.length) : (p.restoreRows.map Row.ptr)[i]? = some i := by
  obtain ⟨r, hr⟩ := exists_row hi
  simp [restoreRows_getElem?, hr, restoreRow]

theorem restoreRows_ids (p : Page R) : p.restoreRows.map Row.id = p.rows.map Row.id := by
  apply List.ext_getElem?
  intro i
  simp only [List.getElem?_map, restoreRows_getElem?, Option.map_map]
  rfl

theorem unflagged_lineId (p : Page R) (l : List PageCursor) (k : Nat) : (p.unflagged l).lineId k = p.lineId k := by
  simp only [lineId, idAt, unflagged, restoreRows_getElem?, Option.map_map]
  rfl

/-- A line is found by its id if it is not below `last`. -/
theorem find_line {b : Buffer R} (hn : p.IdsNodup) (hc : Chained b.heap p.restoreRows) (hfirst : b.first = 0)
    {m j : Nat} (hlast : b.last = some m) (hm : m < p.rows.length) (hj : j ≤ m) :
    CoEditor.blineFind b (p.lineId j) = .ok (some j) := by
  have hlen : ({ p.unflagged [] with last := m } : Page R).rows.length = p.rows.length := p.restoreRows_length
  have hn' : ({ p.unflagged [] with last := m } : Page R).IdsNodup := by
    rw [IdsNodup, show ({ p.unflagged [] with last := m } : Page R).rows = p.restoreRows from rfl, restoreRows_ids]
    exact hn
  have hfind := Chained.blineFind (p := { p.unflagged [] with last := m }) hc
    (by rw [hfirst]; exact restoreRows_ptr (by omega)) (by rw [hlast]; exact (restoreRows_ptr hm).symm)
    (by rw [hlen]; exact hm) (p.lineId j)
  have hid : ({ p.unflagged [] with last := m } : Page R).lineId j = p.lineId j := p.unflagged_lineId [] j
  rw [hfind, blineFind, ← hid, blineFindFrom_lineId hn' hj (by rw [hlen]; exact hm), Option.bind_some]
  exact congrArg Except.ok (restoreRows_ptr (by omega))

theorem Reads.readMarks {o : JsonObject} (ho : Reads o p) (hn : p.IdsNodup) {b : Buffer R}
    (hc : Chained b.heap p.restoreRows) (hfirst : b.first = 0) (hlast : p.last < p.rows.length)
    (hbottom : p.bottom < p.rows.length) (htop : p.top ≤ p.last) :
    CoEditor.readMarks o b (p.rows.length - 1) =
      .ok { b with last := some p.last, bottom := some p.bottom, top := some p.top } := by
  have ebottom : jsonObjectGetNumber o (bytes "bottom") = p.lineId p.bottom := ho.attrs _ _ (by simp [attrEntries])
  have elast : jsonObjectGetNumber o (bytes "last") = p.lineId p.last := ho.attrs _ _ (by simp [attrEntries])
  have etop : jsonObjectGetNumber o (bytes "top") = p.lineId p.top := ho.attrs _ _ (by simp [attrEntries])
  have hf₁ := find_line (b := { b with last := some (p.rows.length - 1) }) hn hc hfirst rfl (by omega)
    (show p.bottom ≤ p.rows.length - 1 by omega)
  have hf₂ := find_line (b := { b with last := some (p.rows.length - 1), bottom := some p.bottom }) hn hc hfirst rfl
    (by omega) (show p.last ≤ p.rows.length - 1 by omega)
  have hf₃ := find_line (b := { b with last := some p.last, bottom := some p.bottom }) hn hc hfirst rfl hlast htop
  simp only [CoEditor.readMarks, ebottom, elast, etop, hf₁, hf₂, hf₃, Except.ok_bind_eq, Except.pure_eq_ok]

/-! ## Reading the cursors -/

theorem Reads.readOwn {o : JsonObject} (ho : Reads o p) (hn : p.IdsNodup) (hid : p.own.id = 0) {b : Buffer R}
    (hc : Chained b.heap p.restoreRows) (hfirst : b.first = 0) (hlast : b.last = some p.last)
    (hlt : p.last < p.rows.length) (hrow : p.own.row ≤ p.last) :
    CoEditor.readOwn o b = .ok { b with ownCurs := some ⟨0, p.own.row, p.own.pos⟩ } := by
  have eid : jsonObjectDotgetNumber o (ownPath "id") = 0 := hid ▸ ho.own _ _ (by simp [ownEntries])
  have eline : jsonObjectDotgetNumber o (ownPath "own_line") = p.lineId p.own.row := ho.own _ _ (by simp [ownEntries])
  have epos : jsonObjectDotgetNumber o (ownPath "pos") = p.own.pos := ho.own _ _ (by simp [ownEntries])
  obtain ⟨r, hr⟩ := exists_row (p := p) (i := p.own.row) (by omega)
  obtain ⟨l, hl, -⟩ := hc.cell p.own.row (restoreRow p.own.row r) (by rw [restoreRows_getElem?, hr]; rfl)
  simp only [CoEditor.readOwn, eid, eline, epos, ne_eq, not_true, if_false, CoEditor.bcursorNew,
    find_line hn hc hfirst hlast hlt hrow, Except.ok_bind_eq, Buffer.lineAt, Buffer.line,
    show b.heap.get? p.own.row = some l from hl, if_true, Option.map_some, Except.pure_eq_ok]
  rfl

end Page

/-! ## Slots -/

namespace Page

variable {p : Page R}

omit [Rope R] in
theorem slots_findIdx? {l : List PageCursor} (hl : l.length < maxCursorNum) :
    (slots l).findIdx? (·.isNone) = some l.length := by
  have hskip : ∀ c ∈ l.map some, Option.isNone c = false := by
    intro c hc
    obtain ⟨d, -, rfl⟩ := List.mem_map.mp hc
    rfl
  rw [slots, List.findIdx?_append, List.findIdx?_eq_none_iff.mpr hskip, Option.none_or,
    List.length_map]
  obtain ⟨m, hm⟩ : ∃ m, maxCursorNum - l.length = m + 1 := ⟨maxCursorNum - l.length - 1, by omega⟩
  rw [hm, List.replicate_succ, List.findIdx?_cons]
  simp

omit [Rope R] in
theorem slots_set {l : List PageCursor} (hl : l.length < maxCursorNum) (c : PageCursor) :
    (slots l).set l.length (some c) = slots (l ++ [c]) := by
  obtain ⟨m, hm⟩ : ∃ m, maxCursorNum - l.length = m + 1 := ⟨maxCursorNum - l.length - 1, by omega⟩
  have hm' : maxCursorNum - (l ++ [c]).length = m := by
    rw [List.length_append, List.length_singleton]
    omega
  rw [slots, slots, hm, hm', List.set_append_right _ _ (by simp), List.length_map, Nat.sub_self,
    List.replicate_succ, List.set_cons_zero]
  simp

theorem unflagged_addCurs (p : Page R) {l : List PageCursor} (hl : l.length < maxCursorNum) {c : PageCursor}
    (hid : c.id ≠ 0) : (p.unflagged l).addCurs c = (p.unflagged (l ++ [c]), .update) := by
  have hfind := slots_findIdx? hl
  simp only [addCurs, if_neg hid, unflagged, hfind, slots_set hl]

omit [Rope R] in
theorem peersBelow_succ (p : Page R) (n : Nat) : p.peersBelow (n + 1) = p.peersBelow n ++ (p.peerOf n).toList := by
  rw [peersBelow, List.range_succ, List.filterMap_append]
  cases h : p.peerOf n <;> simp [peersBelow, h]

omit [Rope R] in
theorem peersBelow_length (p : Page R) (n : Nat) : (p.peersBelow n).length ≤ n := by
  have h := List.length_filterMap_le p.peerOf (List.range n)
  rwa [List.length_range] at h

theorem Good.peerOf_eq_some (hp : p.Good) {n : Nat} {c : PageCursor} (h : p.peerOf n = some c) :
    c.id = n ∧ n ≠ 0 ∧ ∃ i, p.curs (.peer i) = .ok c := by
  unfold peerOf at h
  split at h
  · cases h
  · next h0 =>
      obtain ⟨x, hx, rfl⟩ := Option.map_eq_some_iff.mp h
      obtain ⟨ref, c, hc, hid, rfl⟩ := curs_of_doc hx
      refine ⟨rfl, h0, ?_⟩
      cases ref with
      | own =>
          have := (hp.own_iff hc).mp rfl
          omega
      | peer i =>
          refine ⟨i, ?_⟩
          rw [hc, ← hid]
          rfl

theorem Good.peerOf_eq_none (hp : p.Good) {n : Nat} (h : p.peerOf n = none) {i : Nat} {c : PageCursor}
    (hc : p.curs (.peer i) = .ok c) : c.id ≠ n := by
  intro hid
  have h0 : n ≠ 0 := by
    rintro rfl
    have := (hp.own_iff hc).mpr hid
    cases this
  rw [peerOf, if_neg h0, ← hid, doc_curs hp.distinct hc] at h
  cases h

theorem Good.idsNodup (hp : p.Good) : p.IdsNodup := by
  have h := hp.doc.nodup
  rwa [Page.doc, List.map_map] at h

/-- One peer cursor is read. -/
theorem Reads.readPeer {o : JsonObject} (ho : Reads o p) (hp : p.Good) {b : Buffer R} {n : Nat} (hn : n < maxCursorNum)
    (h : Loose b (p.unflagged (p.peersBelow n))) :
    ∃ b', CoEditor.readPeer o b n = .ok b' ∧
      Loose b' (p.unflagged (p.peersBelow (n + 1))) := by
  rw [peersBelow_succ]
  cases hc : p.peerOf n with
  | none =>
      have hno := ho.noPeer n fun i c hi => hp.peerOf_eq_none hc hi
      refine ⟨b, by rw [CoEditor.readPeer, hno]; rfl, ?_⟩
      simpa using h
  | some c =>
      obtain ⟨hid, h0, i, hi⟩ := hp.peerOf_eq_some hc
      obtain ⟨hhas, hline, hpos⟩ := ho.peer i c hi
      rw [hid] at hhas hline hpos
      have hlen := p.peersBelow_length n
      have hrow := hp.curs_le hi
      have hlt := hp.last_lt
      have hfind : (p.unflagged (p.peersBelow n)).blineFind (p.lineId c.row) =
          some c.row := by
        rw [← p.unflagged_lineId (p.peersBelow n)]
        refine blineFindFrom_lineId (p := p.unflagged (p.peersBelow n)) ?_ hrow ?_
        · rw [IdsNodup, show (p.unflagged (p.peersBelow n)).rows = p.restoreRows
            from rfl, restoreRows_ids]
          exact hp.idsNodup
        · show p.last < p.restoreRows.length
          rw [restoreRows_length]
          omega
      have hnew : (p.unflagged (p.peersBelow n)).bcursorNew n (p.lineId c.row) c.pos =
          .ok (p.unflagged (p.peersBelow n ++ [c]), .update) := by
        simp only [Page.bcursorNew, hfind, ← hid]
        exact congrArg Except.ok (p.unflagged_addCurs (c := c) (by omega) (by omega))
      have hsim := h.bcursorNew n (p.lineId c.row) c.pos
      rw [hnew] at hsim
      obtain ⟨⟨b', res⟩, hb', ⟨hl, -⟩, -⟩ := hsim.of_ok_right
      refine ⟨b', ?_, hl⟩
      rw [CoEditor.readPeer, hhas, if_pos rfl, hline, hpos, hb']
      rfl

theorem Reads.readPeers {o : JsonObject} (ho : Reads o p) (hp : p.Good) {b : Buffer R}
    (h : Loose b (p.unflagged [])) :
    ∀ n ≤ maxCursorNum, ∃ b', (List.range n).foldlM (CoEditor.readPeer o) b = .ok b' ∧
      Loose b' (p.unflagged (p.peersBelow n)) := by
  intro n
  induction n with
  | zero => exact fun _ => ⟨b, rfl, h⟩
  | succ n ih =>
      intro hn
      obtain ⟨b₁, hrun, h₁⟩ := ih (by omega)
      obtain ⟨b', hrun', h'⟩ := ho.readPeer hp (by omega) h₁
      refine ⟨b', ?_, h'⟩
      rw [List.range_succ, List.foldlM_append, hrun, Except.ok_bind_eq, List.foldlM_cons, hrun']
      rfl

end Page

/-! ## Reading a snapshot -/

namespace Page

variable {p : Page R}

/-- The buffer as it is when the peer cursors are about to be read. -/
theorem Reads.loose {o : JsonObject} (ho : Reads o p) (hp : p.Good) {heap : Heap (Line R)}
    (hc : Chained heap p.restoreRows) (hbottom : p.bottom < p.rows.length) {b : Buffer R} (hb : b = readAttrs o) :
    Loose { b with
      heap
      first := 0
      last := some p.last
      bottom := some p.bottom
      top := some p.top
      ownCurs := some ⟨0, p.own.row, p.own.pos⟩
      peerCurss := List.replicate maxCursorNum none } (p.unflagged []) := by
  subst hb
  have hlt := hp.last_lt
  have hw := hp.window
  have hown := hp.curs_le p.curs_own
  have hlen := p.restoreRows_length
  have hptr : ∀ {i : Nat}, i < p.rows.length → (p.unflagged []).ptrs[i]? = some i :=
    fun hi => restoreRows_ptr hi
  have hrows : (p.unflagged []).rows.length = p.rows.length := hlen
  exact
    { id := ho.attrs (bytes "id") p.id (by simp [attrEntries])
      ver := ho.attrs (bytes "ver") p.ver (by simp [attrEntries])
      numLines := ho.attrs (bytes "num_lines") p.numLines (by simp [attrEntries])
      lineIdCnt := ho.attrs (bytes "line_id_cnt") p.lineIdCnt (by simp [attrEntries])
      height := ho.attrs (bytes "height") p.height (by simp [attrEntries])
      width := ho.attrs (bytes "width") p.width (by simp [attrEntries])
      serverMode := rfl
      first := hptr (by omega)
      last := (hptr (by omega)).symm
      top := (hptr (by omega)).symm
      bottom := (hptr hbottom).symm
      last_lt := by rw [hrows]; exact Nat.lt_of_succ_lt hlt
      top_lt := by rw [hrows]; exact Nat.lt_trans hw hbottom
      bottom_lt := by rw [hrows]; exact hbottom
      own := by
        show _ = ((p.unflagged []).ptrs[p.own.row]?).map _
        rw [hptr (by omega), Option.map_some, show (p.unflagged []).own.id = 0 from hp.own_id]
        rfl
      peers := by simp [unflagged, slots]
      curs_lt := by
        intro ref c hcur
        rw [hrows]
        cases ref with
        | own =>
            obtain rfl := Except.ok.inj hcur
            exact Nat.lt_of_le_of_lt hown (Nat.lt_of_succ_lt hlt)
        | peer i =>
            rw [curs_peer] at hcur
            simp [unflagged, slots, List.getElem?_replicate] at hcur
      chained := hc }

end Page

/-- A snapshot of a buffer is read back as the restored page. -/
theorem Rep.restore {b : Buffer R} {p : Page R} (h : Rep b p) (hp : p.Good) (htop : p.top ≤ p.last) (hfits : p.Fits)
    (u : Bool) :
    ∃ s b', CoEditor.bufferSerialize b = .ok s ∧ bufferDeserialize s u = .ok b' ∧ Rep b' (p.restore u) := by
  have hn := hp.idsNodup
  have ho := Page.snapshot_reads hn hp.distinct
  have hlt := hp.last_lt
  have hown := hp.curs_le p.curs_own
  generalize hb₀ : (readAttrs p.snapshot : Buffer R) = b₀
  have hheap : b₀.heap = .empty := by rw [← hb₀]; rfl
  obtain ⟨heap, hchain, hc⟩ := ho.readChain (by omega) hheap
  have hmarks := ho.readMarks hn (b := { b₀ with heap, first := 0 }) hc rfl (by omega) h.bottom_lt htop
  have hreadOwn := ho.readOwn hn hp.own_id (b := { b₀ with
    heap, first := 0, last := some p.last, bottom := some p.bottom, top := some p.top }) hc rfl rfl (by omega) hown
  obtain ⟨b₁, hpeers, hl⟩ := ho.readPeers hp (ho.loose hp hc h.bottom_lt hb₀.symm) maxCursorNum (Nat.le_refl _)
  obtain ⟨heap', hbinit, hrep⟩ := hl.toMarks.binitOnscreenInfo hl.chained hp.window
  have hrun : bufferDeserialize (jsonSerialize (.obj p.snapshot)) u =
      .ok (if u then { b₁ with heap := heap', u := .ui }.uiUpdate true
        else { b₁ with heap := heap', u := .null, serverMode := true }) := by
    simp only [bufferDeserialize, readBuffer, p.parse_snapshot, jsonValueGetObject_obj, hb₀, hchain, hmarks, hreadOwn, hpeers,
      hbinit, Except.ok_bind_eq, Except.pure_eq_ok]
  refine ⟨_, _, h.bufferSerialize hp.slots hfits, hrun, ?_⟩
  cases u with
  | true =>
      have hui : Rep { b₁ with heap := heap', u := .ui } (p.restore true) := { hrep with }
      exact hui.uiUpdate true
  | false => exact { hrep with serverMode := rfl }

/-! ## The restored document -/

/-- The string of a snapshot is the text it was written from. -/
theorem Rope.chars_reread (r : R) : Rope.chars (Rope.insert Rope.new 0 (Rope.writeCstr r) : R) = Rope.chars r := by
  have h0 := zero_notMem_writeCstr r
  rw [Rope.writeCstr_eq] at h0 ⊢
  rw [Rope.chars_insert _ _ _ (Nat.zero_le _) h0]
  simp

namespace Doc

/-- The document of a restored page: the texts are in new ropes, and cursors with other ids than those
    of the slots are lost. -/
def restore (d : Doc R) (u : Bool) : Doc R :=
  { d with
    serverMode := !u
    lines := d.lines.map fun l => (l.1, Rope.insert Rope.new 0 (Rope.writeCstr l.2))
    curs := fun i => if 0 ≤ i ∧ i < maxCursorNum then d.curs i else none }

theorem Wf.restore {d : Doc R} (h : d.Wf) (u : Bool) : (d.restore u).Wf where
  height := h.height
  numLines := by simp [Doc.restore, h.numLines]
  last := by simp [Doc.restore, h.last]
  nodup := by
    simp only [Doc.restore, List.map_map]
    exact h.nodup
  ids := by
    intro l hl
    obtain ⟨l', hl', rfl⟩ := List.mem_map.mp hl
    exact h.ids l' hl'
  blank := by
    intro k l hk hl
    simp only [Doc.restore, List.getElem?_map, Option.map_eq_some_iff] at hl
    obtain ⟨l', hl', rfl⟩ := hl
    rw [Rope.chars_reread]
    exact h.blank k l' hk hl'
  curs_le := by
    intro i x hx
    simp only [Doc.restore] at hx
    split at hx
    · exact h.curs_le i x hx
    · cases hx

end Doc

namespace Page

variable {p : Page R}

omit [Rope R] in
theorem slots_getElem? {l : List PageCursor} {i : Nat} {c : PageCursor} :
    (slots l)[i]? = some (some c) ↔ l[i]? = some c := by
  by_cases hi : i < l.length
  · rw [slots, List.getElem?_append_left (by simpa using hi), List.getElem?_map, Option.map_eq_some_iff]
    simp
  · rw [slots, List.getElem?_append_right (by simpa using hi)]
    simp only [List.getElem?_replicate, List.getElem?_eq_none (Nat.not_lt.mp hi)]
    split <;> simp

theorem restore_own (p : Page R) (u : Bool) : (p.restore u).own = p.own := rfl

theorem restore_curs_peer {u : Bool} {i : Nat} {c : PageCursor} :
    (p.restore u).curs (.peer i) = .ok c ↔ (p.peersBelow maxCursorNum)[i]? = some c :=
  curs_peer.trans slots_getElem?

omit [Rope R] in
theorem peersBelow_ids {n : Nat} (hids : ∀ i c, p.peerOf i = some c → c.id = i) :
    ((p.peersBelow n).map PageCursor.id).Nodup ∧ ∀ c ∈ p.peersBelow n, c.id < n := by
  induction n with
  | zero => simp [peersBelow]
  | succ n ih =>
      obtain ⟨hnodup, hlt⟩ := ih
      rw [peersBelow_succ]
      cases hc : p.peerOf n with
      | none =>
          simp only [Option.toList_none, List.append_nil]
          exact ⟨hnodup, fun c h => by have := hlt c h; omega⟩
      | some c =>
          have hid := hids n c hc
          simp only [Option.toList_some, List.map_append, List.map_cons, List.map_nil]
          refine ⟨List.nodup_append.mpr ⟨hnodup, by simp, ?_⟩, fun d hd => ?_⟩
          · intro a ha b hb
            obtain ⟨d, hd, rfl⟩ := List.mem_map.mp ha
            obtain rfl := List.mem_singleton.mp hb
            have := hlt d hd
            omega
          · rcases List.mem_append.mp hd with hd | hd
            · have := hlt d hd
              omega
            · obtain rfl := List.mem_singleton.mp hd
              omega

theorem Good.restore_distinct (hp : p.Good) (u : Bool) : (p.restore u).Distinct := by
  have hids := (p.peersBelow_ids (n := maxCursorNum) fun i c h => (hp.peerOf_eq_some h).1).1
  have hpeer : ∀ {i : Nat} {c : PageCursor}, (p.restore u).curs (.peer i) = .ok c → c.id ≠ 0 := by
    intro i c hc
    obtain ⟨n, -, hn⟩ := List.mem_filterMap.mp (List.mem_of_getElem? (restore_curs_peer.mp hc))
    obtain ⟨hid, h0, -⟩ := hp.peerOf_eq_some hn
    omega
  intro ref ref' c c' hc hc' hid
  cases ref with
  | own =>
      cases ref' with
      | own => rfl
      | peer j =>
          refine absurd ?_ (hpeer hc')
          rw [← hid, ← Except.ok.inj hc]
          exact hp.own_id
  | peer i =>
      cases ref' with
      | own =>
          refine absurd ?_ (hpeer hc)
          rw [hid, ← Except.ok.inj hc']
          exact hp.own_id
      | peer j =>
          rw [restore_curs_peer] at hc hc'
          have hi := (List.getElem?_eq_some_iff.mp hc).1
          refine congrArg CursRef.peer ((List.getElem?_inj (by simpa using hi) hids).mp ?_)
          rw [List.getElem?_map, List.getElem?_map, hc, hc', Option.map_some, Option.map_some, hid]

theorem Good.restore_curs (hp : p.Good) (u : Bool) (i : Int) :
    (p.restore u).doc.curs i = if 0 ≤ i ∧ i < maxCursorNum then p.doc.curs i else none := by
  have hD := hp.restore_distinct u
  cases hx : (p.restore u).doc.curs i with
  | some x =>
      obtain ⟨ref, c, hc, rfl, rfl⟩ := curs_of_doc hx
      cases ref with
      | own =>
          obtain rfl := Except.ok.inj hc
          rw [p.restore_own u, doc_curs hp.distinct p.curs_own, hp.own_id]
          rfl
      | peer j =>
          obtain ⟨n, hn, hpeer⟩ := List.mem_filterMap.mp (List.mem_of_getElem? (restore_curs_peer.mp hc))
          have hlt := List.mem_range.mp hn
          obtain ⟨hid, h0, k, hk⟩ := hp.peerOf_eq_some hpeer
          rw [if_pos (by omega), doc_curs hp.distinct hk]
  | none =>
      rw [doc_curs_eq_none] at hx
      split
      · next hi =>
          cases hy : p.doc.curs i with
          | none => rfl
          | some y =>
              exfalso
              by_cases h0 : i = 0
              · exact hx .own p.own rfl (hp.own_id.trans h0.symm)
              · obtain ⟨n, rfl⟩ : ∃ n : Nat, i = n := ⟨i.toNat, by omega⟩
                have hpeer : p.peerOf n = some ⟨n, y.row, y.pos⟩ := by
                  rw [peerOf, if_neg (by omega), hy]
                  rfl
                have hlt : n < maxCursorNum := by omega
                have hmem : (⟨n, y.row, y.pos⟩ : PageCursor) ∈ p.peersBelow maxCursorNum :=
                  List.mem_filterMap.mpr ⟨n, List.mem_range.mpr hlt, hpeer⟩
                obtain ⟨j, hj⟩ := List.getElem?_of_mem hmem
                exact hx (.peer j) _ (restore_curs_peer.mpr hj) rfl
      · rfl

theorem Good.restore (hp : p.Good) (u : Bool) : (p.restore u).Good ∧ (p.restore u).doc = p.doc.restore u := by
  have hdoc : (p.restore u).doc = p.doc.restore u := by
    ext1
    · rfl
    · rfl
    · rfl
    · rfl
    · rfl
    · simp only [Page.doc, Page.restore, Doc.restore, binit, unflagged]
      apply List.ext_getElem?
      intro i
      simp only [List.getElem?_map, List.getElem?_mapIdx, restoreRows_getElem?, Option.map_map]
      cases p.rows[i]? <;> rfl
    · rfl
    · funext i
      exact hp.restore_curs u i
  refine ⟨⟨hp.restore_distinct u, ?_, hp.own_id, hp.window, hdoc ▸ hp.doc.restore u⟩, hdoc⟩
  have hlen := p.peersBelow_length maxCursorNum
  show (Page.slots (p.peersBelow maxCursorNum)).length = maxCursorNum
  simp only [Page.slots, List.length_append, List.length_map, List.length_replicate]
  omega

/-- Reading a snapshot sets the flags down to the own cursor right. -/
theorem restore_flagAt (p : Page R) (u : Bool) {k : Nat} (hk : k < p.rows.length) :
    (p.restore u).flagAt k = some (binitWhere p.own.row k) := by
  obtain ⟨r, hr⟩ := exists_row hk
  simp [flagAt, Page.restore, binit, unflagged, restoreRows_getElem?, hr]

theorem restore_flagged (u : Bool) (hown : p.own.row < p.rows.length) : Flagged (p.restore u) := by
  refine ⟨fun k hk => ?_, ?_⟩
  · have hk : k < p.own.row := hk
    rw [p.restore_flagAt u (by omega), binitWhere, if_neg (by omega), if_pos hk]
  · rw [p.restore_own u, p.restore_flagAt u hown, binitWhere, if_pos (.inl rfl)]

theorem Framed.restore {n : Nat} (h : Framed n p) (u : Bool) (hown : p.own.row < p.rows.length) :
    Framed n (p.restore u) :=
  ⟨⟨h.view.size, h.view.top_le, h.view.lt_bottom⟩, restore_flagged u hown⟩

theorem Sound.restore (hp : p.Sound) (u : Bool) : (p.restore u).Sound :=
  { (hp.toGood.restore u).1 with
    framed := fun h3 => by
      obtain ⟨n, hn, hframed⟩ := hp.framed h3
      exact ⟨n, hn, hframed.restore u (Nat.lt_of_le_of_lt (hp.curs_le p.curs_own) (Nat.lt_of_succ_lt hp.last_lt))⟩ }

theorem Exact.restore (hp : p.Exact) (u : Bool) : (p.restore u).Exact :=
  { (hp.toGood.restore u).1 with
    framed := fun h3 => by
      obtain ⟨n, hn, hframed⟩ := hp.framed h3
      exact ⟨n, hn, hframed.restore u (Nat.lt_of_le_of_lt (hp.curs_le p.curs_own) (Nat.lt_of_succ_lt hp.last_lt))⟩ }

/-- The window does not start below `last`. -/
theorem Sound.top_le_last (hp : p.Sound) (hbottom : p.bottom < p.rows.length) : p.top ≤ p.last := by
  have hheight : (p.last : Int) + p.height = p.rows.length := by rw [← doc_length]; exact hp.doc.last
  have h2 : 2 ≤ p.height := hp.doc.height
  have hown := hp.curs_le p.curs_own
  have hw := hp.window
  by_cases h3 : 3 ≤ p.height
  · obtain ⟨n, -, hframed⟩ := hp.framed h3
    exact Nat.le_trans hframed.view.top_le hown
  · omega

end Page

end CoEditor
