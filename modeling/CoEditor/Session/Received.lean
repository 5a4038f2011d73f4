-- SUMMARY: What buffer_deserialize makes of any text, whether it is a snapshot or not.
import CoEditor.Buffer.Visibility
import CoEditor.Session.Restore
import CoEditor.Session.Screen
import Mathlib.Data.List.DropRight

/-!
# Texts of any kind

`buffer_deserialize` checks nothing of what it reads. The ids of the lines are
a walk through the text, line by line, that need not end; every other id may be
one that no line has.
-/

namespace CoEditor

open Decimal

variable {R : Type}

/-! ## The lines of a text -/

/-- The id that the line with id `id` is followed by. -/
def nextId (o : JsonObject) (id : Int) : Option Int :=
  if jsonObjectDothasValue o (linePath id "next") then some (jsonObjectDotgetNumber o (linePath id "next")) else none

/-- Line `id` has a text. -/
def HasStr (o : JsonObject) (id : Int) : Prop := ∃ s, jsonObjectDotgetString o (linePath id "str") = some s

/-- The ids down to the last one that is `id`; none, if there is no such one. -/
def downTo (id : Int) (ids : List Int) : List Int := ids.rdropWhile fun i => i ≠ id

/-- The lines `ids` of `o` can all be read: after the first comes a second, whether or not the first leads to it,
    and from there on each leads to the one after it. -/
def LinesOf (o : JsonObject) (ids : List Int) : Prop :=
  (∃ rest, ids = jsonObjectGetNumber o (bytes "first") :: rest ∧
    Walk (nextId o) (jsonObjectDotgetNumber o (linePath (jsonObjectGetNumber o (bytes "first")) "next")) rest) ∧
  ∀ id ∈ ids, HasStr o id

/-- The lines down to `last`, as they are searched for by id; none, if no line is `last`. -/
def shownOf (o : JsonObject) (ids : List Int) : List Int := downTo (jsonObjectGetNumber o (bytes "last")) ids

/-- The id given for the line of the own cursor: by the peer cursor `0`, if there is one. -/
def ownLineId (o : JsonObject) : Int :=
  if jsonObjectDothasValue o (peerPath 0) then jsonObjectDotgetNumber o (peerFieldPath 0 "own_line")
  else jsonObjectDotgetNumber o (ownPath "own_line")

/-- If there is a peer cursor `i`, it is on one of the lines `shown`. -/
def PeerPlaced (o : JsonObject) (shown : List Int) (i : Nat) : Prop :=
  jsonObjectDothasValue o (peerPath i) = true → jsonObjectDotgetNumber o (peerFieldPath i "own_line") ∈ shown

/-- The lines of `o` are `ids`, and the ids it gives for the marks and the cursors are found among them. -/
structure Complete (o : JsonObject) (ids : List Int) : Prop where
  lines : LinesOf o ids
  bottom : jsonObjectGetNumber o (bytes "bottom") ∈ ids
  top : jsonObjectGetNumber o (bytes "top") ∈ shownOf o ids
  ownId : jsonObjectDotgetNumber o (ownPath "id") = 0
  ownLine : jsonObjectDotgetNumber o (ownPath "own_line") ∈ shownOf o ids
  peers : ∀ i < maxCursorNum, PeerPlaced o (shownOf o ids) i

/-- Every line that leads on has an entry of its own. -/
theorem Walk.length_le_lineCount {o : JsonObject} {id : Int} {ids : List Int} (hw : Walk (nextId o) id ids) :
    ids.length ≤ lineCount o + 1 := by
  have hkeys : (ids.dropLast.map digits).Nodup :=
    (hw.nodup.sublist (List.dropLast_sublist ids)).map fun _ _ h => digits_injective h
  have hsub : ids.dropLast.map digits ⊆ (jsonValueGetObject (jsonObjectGetValue o (bytes "lines"))).map Prod.fst := by
    intro key hkey
    obtain ⟨i, hi, rfl⟩ := List.mem_map.mp hkey
    have hsome := hw.next_isSome hi
    unfold nextId at hsome
    split at hsome
    · next hhas =>
        rw [jsonObjectDothasValue, linePath, dotgetValue_cons _ _ (by simp), dotgetValue_cons _ _ (by simp)] at hhas
        cases hget : jsonObjectGetValue (jsonValueGetObject (jsonObjectGetValue o (bytes "lines"))) (digits i) with
        | none =>
            rw [hget] at hhas
            cases hhas
        | some v => exact List.mem_map_of_mem (mem_of_getValue hget)
    · cases hsome
  have hlen := List.Nodup.length_le_of_subset hkeys hsub
  rw [List.length_map, List.length_dropLast, List.length_map] at hlen
  rw [lineCount]
  omega

theorem downTo_start (id : Int) (ids : List Int) : downTo id ids <+: ids := List.rdropWhile_prefix _ ids

theorem downTo_concat (id : Int) (ids : List Int) (i : Int) : downTo id (ids ++ [i]) = if i = id then ids ++ [i] else downTo id ids := by
  rw [downTo, List.rdropWhile_concat]
  by_cases hi : i = id <;> simp [hi, downTo]

theorem downTo_eq_nil_iff {id : Int} {ids : List Int} : downTo id ids = [] ↔ id ∉ ids := by
  simp only [downTo, List.rdropWhile_eq_nil_iff, decide_eq_true_eq]
  exact ⟨fun h hid => h id hid rfl, fun h i hi heq => h (heq ▸ hi)⟩

/-! ## Reading the lines -/

/-- The address of the last of the lines `ids`, which are allocated one after the other. -/
def lastPtr (ids : List Int) : Option Ptr := if ids = [] then none else some (ids.length - 1)

theorem lastPtr_concat (ids : List Int) (id : Int) : lastPtr (ids ++ [id]) = some ids.length := by simp [lastPtr]

theorem lastPtr_eq_none_iff {ids : List Int} : lastPtr ids = none ↔ ids = [] := by simp [lastPtr]

theorem lt_of_lastPtr {ids : List Int} {q : Nat} (hq : lastPtr ids = some q) : q < ids.length := by
  unfold lastPtr at hq
  split at hq
  · cases hq
  · next hne =>
      rw [← Option.some.inj hq]
      exact Nat.sub_lt (List.length_pos_iff.mpr hne) Nat.one_pos

theorem exists_lastPtr {l ids : List Int} (hpre : l <+: ids) (hl : l ≠ []) : ∃ p ∈ List.range ids.length, lastPtr l = some p := by
  obtain ⟨q, hq⟩ := Option.ne_none_iff_exists'.mp (mt lastPtr_eq_none_iff.mp hl)
  exact ⟨q, List.mem_range.mpr (Nat.lt_of_lt_of_le (lt_of_lastPtr hq) hpre.length_le), hq⟩

theorem mem_of_lastPtr {id : Int} {ids : List Int} {q : Ptr} (hq : lastPtr (downTo id ids) = some q) : id ∈ ids := by
  by_contra hid
  rw [downTo_eq_nil_iff.mpr hid] at hq
  cases hq

section
variable [Rope R]

variable (R) in
/-- The text of line `id`, as a rope takes it. -/
def lineStr (o : JsonObject) (id : Int) : R :=
  Rope.insert Rope.new 0 ((jsonObjectDotgetString o (linePath id "str")).getD [])

/-- The lines in memory are the lines `ids` of `o`, linked in this order, at the addresses from `0` on. -/
def Strung (o : JsonObject) (h : Heap (Line R)) (ids : List Int) : Prop :=
  ∃ rows : List (Row R), Chained h rows ∧ rows.map Row.id = ids ∧ rows.map Row.ptr = List.range ids.length ∧
    h.cells.length = ids.length ∧ rows.map Row.str = ids.map (lineStr R o)

theorem Strung.nil {o : JsonObject} : Strung (R := R) o .empty [] := ⟨[], .nil, rfl, rfl, rfl, rfl⟩

namespace Strung

variable {b : Buffer R} {o : JsonObject} {ids : List Int}

theorem linked {h : Heap (Line R)} (hs : Strung o h ids) : Linked h (List.range ids.length) := by
  obtain ⟨rows, hc, -, hptrs, -⟩ := hs
  rw [← hptrs]
  exact hc.linked

/-- What is in memory at an address. -/
theorem str {h : Heap (Line R)} (hs : Strung o h ids) (q : Ptr) : (h.get? q).map Line.str = ids[q]?.map (lineStr R o) := by
  obtain ⟨rows, hc, -, hptrs, hcells, hstrs⟩ := hs
  rw [← List.getElem?_map, ← hstrs, List.getElem?_map]
  cases hr : rows[q]? with
  | none =>
      have hlen := congrArg List.length hptrs
      rw [List.length_map, List.length_range] at hlen
      cases hget : h.get? q with
      | none => rfl
      | some l =>
          have hlt : q < h.cells.length := Heap.lt_of_get? hget
          rw [List.getElem?_eq_none_iff, hlen, ← hcells] at hr
          exact absurd hlt (Nat.not_lt.mpr hr)
  | some r =>
      have hptr := congrArg (·[q]?) hptrs
      obtain ⟨l, hl, -, hstr⟩ := hc.cell q r hr
      have hlt := Heap.lt_of_get? hl
      have hq : q < ids.length := by
        have hlen := congrArg List.length hptrs
        rw [List.length_map, List.length_range] at hlen
        rw [← hlen]
        exact (List.getElem?_eq_some_iff.mp hr).1
      simp only [List.getElem?_map, hr, Option.map_some, List.getElem?_range hq, Option.some.injEq] at hptr
      rw [← hptr, hl, Option.map_some, Option.map_some, hstr]

/-- One more line is read. -/
theorem readLine (hs : Strung o b.heap ids) {id : Int} (hstr : HasStr o id) :
    ∃ heap, CoEditor.readLine o b id (lastPtr ids) = .ok ({ b with heap }, ids.length) ∧ Strung o heap (ids ++ [id]) := by
  obtain ⟨rows, hc, rfl, hptrs, hcells, hstrs⟩ := hs
  rw [List.length_map] at hptrs hcells
  obtain ⟨s, hstr⟩ := hstr
  obtain ⟨heap, hrun, hchain, hlen⟩ := hc.readLine hcells hstr
  have hprev : prevAt (rows.map Row.ptr) rows.length = lastPtr (rows.map Row.id) := by
    rw [hptrs, lastPtr, prevAt, List.length_map]
    by_cases h0 : rows = []
    · simp [h0]
    · have hpos := List.length_pos_iff.mpr h0
      rw [if_neg (by omega), if_neg (by simpa using h0), List.getElem?_range (by omega)]
  refine ⟨heap, ?_, _, hchain, by simp, ?_, by simpa using hlen, by simp [hstrs, lineStr, hstr]⟩
  · rw [← hprev, hrun, List.length_map]
  · rw [List.map_append, hptrs]
    simp [List.range_succ]

/-- The loop reads the lines that the text leads to, one round a line. -/
theorem readLines {id : Int} {rest : List Int} (hw : Walk (nextId o) id rest) : ∀ (fuel : Nat) (pre : List Int) {b : Buffer R},
    rest.length ≤ fuel + 1 → (∀ i ∈ rest, HasStr o i) → Strung o b.heap (pre ++ [id]) →
      ∃ heap, CoEditor.readLines o b pre.length id fuel = .ok ({ b with heap }, (pre ++ rest).length - 1) ∧
        Strung o heap (pre ++ rest) := by
  induction hw with
  | @stop id hnone =>
      intro fuel pre b _ _ hs
      have hhas : jsonObjectDothasValue o (linePath id "next") = false := by
        unfold nextId at hnone
        split at hnone
        · cases hnone
        · next hhas => simpa using hhas
      refine ⟨b.heap, ?_, hs⟩
      cases fuel <;> simp [CoEditor.readLines, hhas]
  | @step id id' rest hnext hw ih =>
      intro fuel pre b hlen hstr hs
      have hpos : 0 < rest.length := by cases hw <;> exact Nat.succ_pos _
      rw [List.length_cons] at hlen
      obtain ⟨fuel, rfl⟩ : ∃ n, fuel = n + 1 := ⟨fuel - 1, by omega⟩
      obtain ⟨hhas, hnum⟩ : jsonObjectDothasValue o (linePath id "next") = true ∧
          jsonObjectDotgetNumber o (linePath id "next") = id' := by
        unfold nextId at hnext
        split at hnext
        · next hhas => exact ⟨hhas, Option.some.inj hnext⟩
        · cases hnext
      have hmem : id' ∈ rest := by cases hw <;> exact List.mem_cons_self
      obtain ⟨heap, hrun, hs⟩ := hs.readLine (hstr id' (List.mem_cons_of_mem _ hmem))
      rw [lastPtr_concat] at hrun
      obtain ⟨heap', hrun', hs'⟩ := ih fuel (pre ++ [id]) (b := { b with heap }) (by omega)
        (fun i hi => hstr i (List.mem_cons_of_mem _ hi)) hs
      refine ⟨heap', ?_, by simpa using hs'⟩
      rw [CoEditor.readLines, if_pos hhas, hnum]
      simp only [hrun, Except.ok_bind_eq]
      rw [hrun']
      simp

/-- All lines are read. -/
theorem readChain (hb : b.heap = .empty) (hlines : LinesOf o ids) :
    ∃ heap, CoEditor.readChain o b = .ok ({ b with heap, first := 0 }, ids.length - 1) ∧ Strung o heap ids := by
  obtain ⟨⟨rest, rfl, hw⟩, hstr⟩ := hlines
  rw [List.forall_mem_cons] at hstr
  have hsecond : jsonObjectDotgetNumber o (linePath (jsonObjectGetNumber o (bytes "first")) "next") ∈ rest := by
    cases hw <;> exact List.mem_cons_self
  have hs : Strung o b.heap [] := by
    rw [hb]
    exact .nil
  obtain ⟨heap₀, hrun₀, hs₀⟩ := hs.readLine hstr.1
  obtain ⟨heap₁, hrun₁, hs₁⟩ := readLine (b := { b with heap := heap₀, first := 0 }) hs₀ (hstr.2 _ hsecond)
  obtain ⟨heap, hrun, hs⟩ := readLines hw _ [jsonObjectGetNumber o (bytes "first")]
    (b := { b with heap := heap₁, first := 0 }) hw.length_le_lineCount hstr.2 hs₁
  refine ⟨heap, ?_, hs⟩
  have hrun₀ : CoEditor.readLine o b (jsonObjectGetNumber o (bytes "first")) none = .ok ({ b with heap := heap₀ }, 0) := hrun₀
  have hrun₁ : CoEditor.readLine o { b with heap := heap₀, first := 0 } _ (some 0) = .ok ({ b with heap := heap₁, first := 0 }, 1) :=
    hrun₁
  simp only [CoEditor.readChain, hrun₀, hrun₁, Except.ok_bind_eq]
  exact hrun

end Strung

variable {b : Buffer R} {o : JsonObject}

/-- No line is read without its text. -/
theorem hasStr_of_readLine {id : Int} {prev : Option Ptr} {r : Buffer R × Ptr} (hrun : readLine o b id prev = .ok r) :
    HasStr o id := by
  obtain ⟨r', -, hrun⟩ := Except.bind_eq_ok.mp hrun
  dsimp only at hrun
  split at hrun
  · cases hrun
  · next s hs => exact ⟨s, hs⟩

theorem walk_of_readLines : ∀ {fuel : Nat} {b : Buffer R} {lit : Ptr} {id : Int} {r : Buffer R × Ptr},
    readLines o b lit id fuel = .ok r → ∃ ids, Walk (nextId o) id (id :: ids) ∧ ∀ i ∈ ids, HasStr o i := by
  intro fuel
  induction fuel with
  | zero =>
      intro b lit id r hrun
      rw [readLines] at hrun
      split at hrun
      · cases hrun
      · next hhas => exact ⟨[], .stop (if_neg hhas), by simp⟩
  | succ fuel ih =>
      intro b lit id r hrun
      rw [readLines] at hrun
      split at hrun
      · next hhas =>
          obtain ⟨r', hline, hrun⟩ := Except.bind_eq_ok.mp hrun
          obtain ⟨ids, hw, hall⟩ := ih hrun
          exact ⟨_, .step (if_pos hhas) hw, List.forall_mem_cons.mpr ⟨hasStr_of_readLine hline, hall⟩⟩
      · next hhas => exact ⟨[], .stop (if_neg hhas), by simp⟩

theorem linesOf_of_readChain {r : Buffer R × Ptr} (hrun : readChain o b = .ok r) : ∃ ids, LinesOf o ids := by
  obtain ⟨r₀, hfirst, hrun⟩ := Except.bind_eq_ok.mp hrun
  obtain ⟨r₁, hsecond, hrun⟩ := Except.bind_eq_ok.mp hrun
  obtain ⟨ids, hw, hall⟩ := walk_of_readLines hrun
  exact ⟨_, ⟨_, rfl, hw⟩, List.forall_mem_cons.mpr ⟨hasStr_of_readLine hfirst,
    List.forall_mem_cons.mpr ⟨hasStr_of_readLine hsecond, hall⟩⟩⟩

/-! ## Giving up -/

/-- The call does not go round for ever. -/
abbrev Ends {α : Type} (x : Except Fault α) : Prop := FaultsIn (· ≠ .endless) x

omit [Rope R] in
theorem Buffer.line_ends (b : Buffer R) (p : Ptr) : Ends (b.line p) := by
  unfold line
  split
  · exact .ok _
  · exact FaultsIn.error_iff.mpr (by decide)

omit [Rope R] in
theorem Buffer.modifyLine_ends (b : Buffer R) (p : Ptr) (f : Line R → Line R) : Ends (b.modifyLine p f) :=
  (b.line_ends p).bind fun _ => .ok _

omit [Rope R] in
theorem Buffer.modifyLineIf_ends (b : Buffer R) (f : Line R → Line R) (p : Option Ptr) : Ends (b.modifyLineIf f p) := by
  cases p with
  | none => exact .ok _
  | some p => exact b.modifyLine_ends p f

theorem readLine_ends (o : JsonObject) (b : Buffer R) (id : Int) (prev : Option Ptr) : Ends (readLine o b id prev) := by
  have hline : Ends (b.lineIf prev) := by
    cases prev with
    | none => exact .ok _
    | some p => exact (b.line_ends p).map _
  have hnew : Ends (lineNew b id prev none) := hline.bind fun _ => (FaultsIn.ok _).bind fun _ =>
    (Buffer.modifyLineIf_ends _ _ prev).bind fun _ => (Buffer.modifyLineIf_ends _ _ none).bind fun _ => .ok _
  refine hnew.bind fun r => ?_
  dsimp only
  split
  · exact FaultsIn.error_iff.mpr (by decide)
  · exact (Buffer.modifyLine_ends _ _ _).bind fun _ => .ok _

/-- A walk that ends is walked to its end. -/
theorem readLines_ends {id : Int} {ids : List Int} (hw : Walk (nextId o) id ids) : ∀ {fuel : Nat} {b : Buffer R} {lit : Ptr},
    ids.length ≤ fuel + 1 → Ends (readLines o b lit id fuel) := by
  induction hw with
  | @stop id hnone =>
      intro fuel b lit _
      have hhas : ¬ jsonObjectDothasValue o (linePath id "next") = true := by
        intro hhas
        rw [nextId, if_pos hhas] at hnone
        cases hnone
      cases fuel <;> rw [readLines, if_neg hhas] <;> exact .ok _
  | @step id id' rest hnext hw ih =>
      intro fuel b lit hlen
      have hpos : 0 < rest.length := by cases hw <;> exact Nat.succ_pos _
      rw [List.length_cons] at hlen
      obtain ⟨fuel, rfl⟩ : ∃ n, fuel = n + 1 := ⟨fuel - 1, by omega⟩
      have hhas : jsonObjectDothasValue o (linePath id "next") = true := by
        by_contra hhas
        rw [nextId, if_neg hhas] at hnext
        cases hnext
      rw [nextId, if_pos hhas] at hnext
      rw [readLines, if_pos hhas, Option.some.inj hnext]
      exact (readLine_ends o b id' _).bind fun r => ih (by omega)

/-- A loop that is given up after as many rounds as there are lines in the text does not end in any number of rounds. -/
theorem readLines_endless {lit : Ptr} {id : Int} (h : readLines o b lit id (lineCount o) = .error .endless) (fuel : Nat)
    (r : Buffer R × Ptr) : readLines o b lit id fuel ≠ .ok r := by
  intro hrun
  obtain ⟨ids, hw, -⟩ := walk_of_readLines hrun
  exact readLines_ends hw hw.length_le_lineCount .endless h rfl

/-! ## Finding a line -/

omit [Rope R] in
/-- The search upwards stops at the last row that has the id. -/
theorem Page.blineFindFrom_eq (p : Page R) (id : Int) : ∀ {m : Nat}, m < p.rows.length →
    p.blineFindFrom id m = lastPtr (downTo id ((p.rows.map Row.id).take (m + 1))) := by
  have hat : ∀ {m : Nat}, m < p.rows.length → ∃ x, p.idAt m = some x ∧
      (p.rows.map Row.id).take (m + 1) = (p.rows.map Row.id).take m ++ [x] := by
    intro m hm
    obtain ⟨r, hr⟩ := exists_row hm
    exact ⟨r.id, by simp [idAt, hr], by simp [List.take_add_one, hr]⟩
  intro m
  induction m with
  | zero =>
      intro hm
      obtain ⟨x, hx, htake⟩ := hat hm
      rw [blineFindFrom, hx, htake, downTo_concat]
      by_cases hid : x = id <;> simp [hid, lastPtr, downTo]
  | succ m ih =>
      intro hm
      obtain ⟨x, hx, htake⟩ := hat hm
      rw [blineFindFrom, hx, htake, downTo_concat, ih (by omega)]
      by_cases hid : x = id
      · rw [if_pos (by rw [hid]), if_pos hid, lastPtr_concat, List.length_take, List.length_map]
        congr 1
        omega
      · rw [if_neg (by simpa using hid), if_neg hid]

/-- The line found is the last one of those up to `b->last` that have the id. -/
theorem Strung.blineFind {ids shown : List Int} (hs : Strung o b.heap ids) (hfirst : b.first = 0) (hpre : shown <+: ids)
    (hlast : b.last = lastPtr shown) (id : Int) : CoEditor.blineFind b id = .ok (lastPtr (downTo id shown)) := by
  obtain ⟨rows, hc, rfl, hptrs, -⟩ := hs
  rw [List.length_map] at hptrs
  rcases shown.eq_nil_or_concat' with rfl | ⟨init, x, rfl⟩
  · rw [CoEditor.blineFind, hlast]
    cases b.heap.cells.length <;> rfl
  · have hlen := hpre.length_le
    rw [List.length_append, List.length_singleton, List.length_map] at hlen
    let p : Page R := { Page.empty (R := R) 0 0 2 with rows, last := init.length }
    have hptr : ∀ m, m < rows.length → p.ptrs[m]? = some m := by
      intro m hm
      rw [show p.ptrs = List.range rows.length from hptrs, List.getElem?_range hm]
    have hfind := Chained.blineFind (p := p) hc (by rw [hptr 0 (by omega), hfirst])
      (by rw [hlast, lastPtr_concat]; exact (hptr init.length (by omega)).symm) (show init.length < rows.length by omega) id
    have htake : (rows.map Row.id).take (init.length + 1) = init ++ [x] := by
      rw [List.prefix_iff_eq_take.mp hpre]
      simp
    have hfrom : p.blineFind id = lastPtr (downTo id (init ++ [x])) := by
      rw [← htake]
      exact p.blineFindFrom_eq id (m := init.length) (show init.length < rows.length by omega)
    rw [hfind, hfrom]
    cases hq : lastPtr (downTo id (init ++ [x])) with
    | none => rfl
    | some q =>
        have hlt := lt_of_lastPtr hq
        have hle := (downTo_start id (init ++ [x])).length_le
        rw [List.length_append, List.length_singleton] at hle
        rw [Option.bind_some, hptr q (by omega)]

/-! ## Reading the marks and the cursors -/

theorem Strung.readMarks {ids : List Int} (hs : Strung o b.heap ids) (hfirst : b.first = 0) (hne : ids ≠ []) :
    CoEditor.readMarks o b (ids.length - 1) = .ok { b with
      bottom := lastPtr (downTo (jsonObjectGetNumber o (bytes "bottom")) ids)
      last := lastPtr (shownOf o ids)
      top := lastPtr (downTo (jsonObjectGetNumber o (bytes "top")) (shownOf o ids)) } := by
  have hend : some (ids.length - 1) = lastPtr ids := by rw [lastPtr, if_neg hne]
  have hfind : ∀ (bottom : Option Ptr) {shown : List Int}, shown <+: ids → ∀ id,
      CoEditor.blineFind { b with last := lastPtr shown, bottom } id = .ok (lastPtr (downTo id shown)) := by
    intro bottom shown hpre id
    exact blineFind (b := { b with last := lastPtr shown, bottom }) hs hfirst hpre rfl id
  simp only [CoEditor.readMarks, hend, hfind _ List.prefix_rfl, hfind _ (downTo_start _ ids), Except.ok_bind_eq]
  rfl

/-- The lines are there, `last` is set, and the cursors read so far are on lines. -/
structure Stage (o : JsonObject) (b : Buffer R) (ids shown : List Int) : Prop where
  strung : Strung o b.heap ids
  first : b.first = 0
  pre : shown <+: ids
  last : b.last = lastPtr shown
  own : ∀ c, b.ownCurs = some c → c.ownLine ∈ List.range ids.length
  peers : ∀ c, some c ∈ b.peerCurss → c.ownLine ∈ List.range ids.length

/-- The marks, and the line of the own cursor. -/
def Buffer.marks (b : Buffer R) : Option Ptr × Option Ptr × Option Ptr := (b.top, b.bottom, b.ownCurs.map Cursor.ownLine)

theorem Buffer.uiUpdate_marks (b : Buffer R) (seen : Bool) : (b.uiUpdate seen).marks = b.marks := by
  unfold uiUpdate
  split
  · rfl
  · rfl
  · split <;> rfl

namespace Stage

variable {ids shown : List Int}

theorem uiUpdate (h : Stage o b ids shown) (seen : Bool) : Stage o (b.uiUpdate seen) ids shown := by
  unfold Buffer.uiUpdate
  split
  · exact { h with }
  · exact h
  · split
    · exact { h with }
    · exact h

/-- A cursor can be made exactly on a line down to `last`. -/
theorem bcursorNew (h : Stage o b ids shown) (id lid pos : Int) :
    ((∃ r, CoEditor.bcursorNew b id lid pos = .ok r) ↔ lid ∈ shown) ∧
    ∀ r, CoEditor.bcursorNew b id lid pos = .ok r → Stage o r.1 ids shown ∧
      r.1.marks = (b.top, b.bottom, if id = 0 then lastPtr (downTo lid shown) else b.ownCurs.map Cursor.ownLine) := by
  have hfind := h.strung.blineFind h.first h.pre h.last lid
  by_cases hmem : lid ∈ shown
  · obtain ⟨q, hrange, hq⟩ := exists_lastPtr ((downTo_start lid shown).trans h.pre)
      (mt downTo_eq_nil_iff.mp (not_not.mpr hmem))
    obtain ⟨l, hl⟩ := h.strung.linked.live (List.getElem?_of_mem hrange).choose_spec
    have hline : b.lineAt (some q) = .ok l := by simp [Buffer.lineAt, Buffer.line, hl]
    rw [hq] at hfind
    have hpeers : ∀ i, ∀ c, some c ∈ b.peerCurss.set i (some ⟨id, q, pos⟩) → c.ownLine ∈ List.range ids.length := by
      intro i c hc
      rcases List.mem_or_eq_of_mem_set hc with hc | hc
      · exact h.peers c hc
      · obtain rfl := Option.some.inj hc
        exact hrange
    simp only [CoEditor.bcursorNew, hfind, hline, Except.ok_bind_eq, Option.map_some]
    split
    · next h0 =>
        refine ⟨iff_of_true ⟨_, rfl⟩ hmem, fun r hr => ?_⟩
        rw [← Except.ok.inj hr]
        exact ⟨{ h with own := fun c hc => by rw [← Option.some.inj hc]; exact hrange }, by simp [Buffer.marks, h0, hq]⟩
    · next h0 =>
        split
        · refine ⟨iff_of_true ⟨_, rfl⟩ hmem, fun r hr => ?_⟩
          rw [← Except.ok.inj hr]
          exact ⟨h, by simp [Buffer.marks]⟩
        · next i _ =>
            refine ⟨iff_of_true ⟨_, rfl⟩ hmem, fun r hr => ?_⟩
            rw [← Except.ok.inj hr]
            have hadd : Stage o { b with peerCurss := b.peerCurss.set i (some ⟨id, q, pos⟩) } ids shown := { h with peers := hpeers i }
            refine ⟨hadd.uiUpdate _, ?_⟩
            rw [Buffer.uiUpdate_marks]
            simp [Buffer.marks]
  · rw [downTo_eq_nil_iff.mpr hmem] at hfind
    have herr : CoEditor.bcursorNew b id lid pos = .error .nullDeref := by
      simp only [CoEditor.bcursorNew, hfind, Except.ok_bind_eq]
      rfl
    rw [herr]
    refine ⟨iff_of_false ?_ hmem, ?_⟩
    · rintro ⟨r, hr⟩
      cases hr
    · intro r hr
      cases hr

/-- The own cursor is read exactly if it has id `0` and is on a line down to `last`. -/
theorem readOwn (h : Stage o b ids shown) :
    ((∃ b', CoEditor.readOwn o b = .ok b') ↔
      jsonObjectDotgetNumber o (ownPath "id") = 0 ∧ jsonObjectDotgetNumber o (ownPath "own_line") ∈ shown) ∧
    ∀ b', CoEditor.readOwn o b = .ok b' → Stage o b' ids shown ∧
      b'.marks = (b.top, b.bottom, lastPtr (downTo (jsonObjectDotgetNumber o (ownPath "own_line")) shown)) := by
  unfold CoEditor.readOwn
  dsimp only
  split
  · next h0 => exact ⟨iff_of_false (fun ⟨b', hb'⟩ => nomatch hb') fun hid => h0 hid.1, fun b' hb' => nomatch hb'⟩
  · next h0 =>
      have h0 := not_not.mp h0
      rw [h0]
      obtain ⟨hreturns, hstage⟩ := h.bcursorNew 0 (jsonObjectDotgetNumber o (ownPath "own_line"))
        (jsonObjectDotgetNumber o (ownPath "pos"))
      refine ⟨?_, fun b' hb' => ?_⟩
      · rw [and_iff_right rfl, ← hreturns]
        exact ⟨fun ⟨b', hb'⟩ => (Except.map_eq_ok.mp hb').imp fun _ hr => hr.1, fun ⟨r, hr⟩ => ⟨r.1, by rw [hr]; rfl⟩⟩
      · obtain ⟨r, hr, rfl⟩ := Except.map_eq_ok.mp hb'
        exact hstage r hr

/-- The peer cursor `0`, if there is one, takes the place of the own cursor. -/
theorem readPeer (h : Stage o b ids shown) (i : Nat) :
    ((∃ b', CoEditor.readPeer o b i = .ok b') ↔ PeerPlaced o shown i) ∧
    ∀ b', CoEditor.readPeer o b i = .ok b' → Stage o b' ids shown ∧ b'.marks = (b.top, b.bottom,
      if i = 0 ∧ jsonObjectDothasValue o (peerPath i) = true then
        lastPtr (downTo (jsonObjectDotgetNumber o (peerFieldPath i "own_line")) shown)
      else b.ownCurs.map Cursor.ownLine) := by
  unfold CoEditor.readPeer PeerPlaced
  split
  · next hhas =>
      obtain ⟨hreturns, hstage⟩ := h.bcursorNew i (jsonObjectDotgetNumber o (peerFieldPath i "own_line"))
        (jsonObjectDotgetNumber o (peerFieldPath i "pos"))
      refine ⟨?_, fun b' hb' => ?_⟩
      · rw [← hreturns]
        exact ⟨fun ⟨b', hb'⟩ _ => (Except.map_eq_ok.mp hb').imp fun _ hr => hr.1, fun hr => by
          obtain ⟨r, hr⟩ := hr hhas
          exact ⟨r.1, by rw [hr]; rfl⟩⟩
      · obtain ⟨r, hr, rfl⟩ := Except.map_eq_ok.mp hb'
        obtain ⟨hr', hmarks⟩ := hstage r hr
        refine ⟨hr', hmarks.trans ?_⟩
        simp only [hhas, and_true, Int.natCast_eq_zero]
  · next hhas =>
      refine ⟨iff_of_true ⟨b, rfl⟩ fun h => absurd h hhas, fun b' hb' => ?_⟩
      rw [← Except.ok.inj hb', if_neg fun hboth => hhas hboth.2]
      exact ⟨h, rfl⟩

/-- The peer cursors can be read exactly if all of them are placed. -/
theorem readPeers (h : Stage o b ids shown) :
    ((∃ b', (List.range maxCursorNum).foldlM (CoEditor.readPeer o) b = .ok b') ↔ ∀ i < maxCursorNum, PeerPlaced o shown i) ∧
    ∀ b', (List.range maxCursorNum).foldlM (CoEditor.readPeer o) b = .ok b' → Stage o b' ids shown ∧ b'.marks = (b.top, b.bottom,
      if jsonObjectDothasValue o (peerPath 0) = true then lastPtr (downTo (jsonObjectDotgetNumber o (peerFieldPath 0 "own_line")) shown)
      else b.ownCurs.map Cursor.ownLine) := by
  have hkeep : ∀ {c c' : Buffer R} (i : Nat), Stage o c ids shown → CoEditor.readPeer o c i = .ok c' → Stage o c' ids shown :=
    fun i hc hrun => ((hc.readPeer i).2 _ hrun).1
  refine ⟨?_, fun b' hrun => ?_⟩
  · rw [Except.foldlM_returns_iff (fun i hc => (hc.readPeer i).1) hkeep _ h]
    simp only [List.mem_range]
  · -- only the first round can touch the own cursor
    rw [show List.range maxCursorNum = 0 :: (List.range 19).map Nat.succ from List.range_succ_eq_map, List.foldlM_cons] at hrun
    obtain ⟨b₀, hb₀, hrun⟩ := Except.bind_eq_ok.mp hrun
    obtain ⟨h₀, hm₀⟩ := (h.readPeer 0).2 b₀ hb₀
    rw [List.foldlM_map] at hrun
    have hrest : Stage o b' ids shown ∧ b'.marks = b₀.marks := by
      refine Except.foldlM_invariant (P := fun c => Stage o c ids shown ∧ c.marks = b₀.marks) (fun {c c'} i hc hrun => ?_) _ ⟨h₀, rfl⟩ hrun
      obtain ⟨hc', hm⟩ := (hc.1.readPeer (i + 1)).2 c' hrun
      exact ⟨hc', hm.trans (Eq.trans (by rw [if_neg fun hboth => Nat.succ_ne_zero i hboth.1]; rfl) hc.2)⟩
    refine ⟨hrest.1, hrest.2.trans (hm₀.trans ?_)⟩
    simp only [true_and, Int.natCast_zero]

/-- The flags are set, whatever the marks are. -/
theorem binitOnscreenInfo (h : Stage o b ids shown) (hne : ids ≠ []) (hown : b.ownCurs.isSome = true) :
    ∃ heap, CoEditor.binitOnscreenInfo b = .ok { b with heap } ∧ Linked heap (List.range ids.length) ∧
      ∀ q, (heap.get? q).map Line.str = ids[q]?.map (lineStr R o) := by
  obtain ⟨n, hn⟩ : ∃ n, ids.length = n + 1 := ⟨ids.length - 1, by have := List.length_pos_iff.mpr hne; omega⟩
  obtain ⟨c, hc⟩ := Option.isSome_iff_exists.mp hown
  have hlinked := h.strung.linked
  rw [hn] at hlinked ⊢
  have hchain : Chain b.heap (some b.first) (b.first :: (List.range n).map Nat.succ) := by
    have hchain := hlinked.chain (k := 0) (Nat.zero_add _)
    rw [List.drop_zero, List.range_succ_eq_map] at hchain
    rw [h.first]
    exact hchain
  exact ⟨_, binitOnscreenInfo_eq hchain (by rw [Buffer.own, hc]), hlinked.binitHeap _ _,
    fun q => (binitHeap_str b _ _ q).trans (h.strung.str q)⟩

/-- What comes after the marks: the cursors, the flags and the user interface. -/
def rest (o : JsonObject) (u : Bool) (b : Buffer R) : Except Fault (Buffer R) := do
  let b ← CoEditor.readOwn o b
  let b := { b with peerCurss := List.replicate maxCursorNum none }
  let b ← (List.range maxCursorNum).foldlM (CoEditor.readPeer o) b
  let b ← CoEditor.binitOnscreenInfo b
  pure (if u then { b with u := .ui }.uiUpdate true else { b with u := .null, serverMode := true })

/-- The peer cursors start from empty slots. -/
theorem clear (h : Stage o b ids shown) : Stage o { b with peerCurss := List.replicate maxCursorNum none } ids shown :=
  { h with peers := fun c hc => by simp [List.mem_replicate] at hc }

/-- All cursors are read exactly if they are placed; the own one is then on the last line with the id given for it. -/
theorem readCursors (h : Stage o b ids shown) :
    ((∃ b₁ b₂, CoEditor.readOwn o b = .ok b₁ ∧ (List.range maxCursorNum).foldlM (CoEditor.readPeer o)
      { b₁ with peerCurss := List.replicate maxCursorNum none } = .ok b₂) ↔ jsonObjectDotgetNumber o (ownPath "id") = 0 ∧
        jsonObjectDotgetNumber o (ownPath "own_line") ∈ shown ∧ ∀ i < maxCursorNum, PeerPlaced o shown i) ∧
    ∀ b₁ b₂, CoEditor.readOwn o b = .ok b₁ → (List.range maxCursorNum).foldlM (CoEditor.readPeer o)
      { b₁ with peerCurss := List.replicate maxCursorNum none } = .ok b₂ → Stage o b₂ ids shown ∧
        b₂.marks = (b.top, b.bottom, lastPtr (downTo (ownLineId o) shown)) ∧ b₂.ownCurs.isSome = true := by
  obtain ⟨hown, hstage⟩ := h.readOwn
  constructor
  · rw [← and_assoc, ← hown]
    constructor
    · rintro ⟨b₁, b₂, hb₁, hb₂⟩
      exact ⟨⟨b₁, hb₁⟩, ((hstage b₁ hb₁).1.clear.readPeers).1.mp ⟨b₂, hb₂⟩⟩
    · rintro ⟨⟨b₁, hb₁⟩, hpeers⟩
      obtain ⟨b₂, hb₂⟩ := ((hstage b₁ hb₁).1.clear.readPeers).1.mpr hpeers
      exact ⟨b₁, b₂, hb₁, hb₂⟩
  · intro b₁ b₂ hb₁ hb₂
    obtain ⟨h₁, hm₁⟩ := hstage b₁ hb₁
    obtain ⟨hpeers, hm₂⟩ := h₁.clear.readPeers
    obtain ⟨h₂, hm₂⟩ := hm₂ b₂ hb₂
    have hmarks : b₂.marks = (b.top, b.bottom, lastPtr (downTo (ownLineId o) shown)) := by
      obtain ⟨htop, hm₁⟩ := Prod.mk.inj hm₁
      obtain ⟨hbottom, hline⟩ := Prod.mk.inj hm₁
      rw [hm₂, htop, hbottom, hline, ownLineId]
      split <;> rfl
    refine ⟨h₂, hmarks, ?_⟩
    have hmem : ownLineId o ∈ shown := by
      rw [ownLineId]
      split
      · next hhas => exact hpeers.mp ⟨b₂, hb₂⟩ 0 (by decide) hhas
      · exact (hown.mp ⟨b₁, hb₁⟩).2
    obtain ⟨q, -, hq⟩ := exists_lastPtr ((downTo_start _ shown).trans h.pre) (mt downTo_eq_nil_iff.mp (not_not.mpr hmem))
    have hline : b₂.ownCurs.map Cursor.ownLine = some q := (congrArg (·.2.2) hmarks).trans hq
    rw [← Option.isSome_map, hline]
    rfl

theorem rest_returns_iff (h : Stage o b ids shown) (hne : ids ≠ []) (u : Bool) :
    (∃ b', rest o u b = .ok b') ↔ jsonObjectDotgetNumber o (ownPath "id") = 0 ∧
      jsonObjectDotgetNumber o (ownPath "own_line") ∈ shown ∧ ∀ i < maxCursorNum, PeerPlaced o shown i := by
  obtain ⟨hreturns, hstage⟩ := h.readCursors
  rw [← hreturns]
  constructor
  · rintro ⟨b', hrun⟩
    obtain ⟨b₁, hb₁, hrun⟩ := Except.bind_eq_ok.mp hrun
    obtain ⟨b₂, hb₂, -⟩ := Except.bind_eq_ok.mp hrun
    exact ⟨b₁, b₂, hb₁, hb₂⟩
  · rintro ⟨b₁, b₂, hb₁, hb₂⟩
    obtain ⟨h₂, -, hown⟩ := hstage b₁ b₂ hb₁ hb₂
    obtain ⟨heap, hbinit, -⟩ := h₂.binitOnscreenInfo hne hown
    simp only [rest, hb₁, hb₂, hbinit, Except.ok_bind_eq]
    exact ⟨_, rfl⟩

/-- What has been read: the marks and the own cursor are where they were found, and the lines have their texts. -/
structure Result (o : JsonObject) (b b' : Buffer R) (ids shown : List Int) : Prop where
  marks : b'.marks = (b.top, b.bottom, lastPtr (downTo (ownLineId o) shown))
  str : ∀ q, (b'.heap.get? q).map Line.str = ids[q]?.map (lineStr R o)
  /-- If the marks are on lines then so is everything. -/
  wellLinked : (∃ p ∈ List.range ids.length, b.last = some p) → (∃ p ∈ List.range ids.length, b.top = some p) →
    (∃ p ∈ List.range ids.length, b.bottom = some p) → WellLinked b' (List.range ids.length)

theorem rest_result (h : Stage o b ids shown) (hne : ids ≠ []) {u : Bool} {b' : Buffer R} (hrun : rest o u b = .ok b') :
    Result o b b' ids shown := by
  obtain ⟨b₁, hb₁, hrun⟩ := Except.bind_eq_ok.mp hrun
  obtain ⟨b₂, hb₂, hrun⟩ := Except.bind_eq_ok.mp hrun
  obtain ⟨b₃, hb₃, hrun⟩ := Except.bind_eq_ok.mp hrun
  obtain ⟨h₂, hm, hown⟩ := h.readCursors.2 b₁ b₂ hb₁ hb₂
  have htop : b₂.top = b.top := congrArg (·.1) hm
  have hbottom : b₂.bottom = b.bottom := congrArg (·.2.1) hm
  obtain ⟨heap, hbinit, hlinked, hstr⟩ := h₂.binitOnscreenInfo hne hown
  obtain rfl := Except.ok.inj (hb₃.symm.trans hbinit)
  obtain ⟨c, hc⟩ := Option.isSome_iff_exists.mp hown
  have hresult : Result o b { b₂ with heap } ids shown := by
    refine ⟨hm, hstr, fun hlast hontop honbottom => ?_⟩
    refine
      { linked := hlinked
        first := ?_
        last := (h₂.last.trans h.last.symm) ▸ hlast
        top := htop ▸ hontop
        bottom := hbottom ▸ honbottom
        own := ⟨c, hc, h₂.own c hc⟩
        peers := h₂.peers }
    rw [List.getElem?_range (List.length_pos_iff.mpr hne)]
    exact congrArg some h₂.first.symm
  rw [← Except.ok.inj hrun]
  cases u
  · exact ⟨hresult.marks, hresult.str, fun hl ht hm => { hresult.wellLinked hl ht hm with }⟩
  · exact ⟨hresult.marks, hresult.str, fun hl ht hm => { hresult.wellLinked hl ht hm with }⟩

end Stage

/-! ## Painting what was read -/

/-- The row of the line that is found for the id `id` among the lines `shown`. -/
def rowOfId (id : Int) (shown : List Int) : Nat := (downTo id shown).length - 1

/-- The row of the window's first line. -/
def topRow (o : JsonObject) (ids : List Int) : Nat := rowOfId (jsonObjectGetNumber o (bytes "top")) (shownOf o ids)

/-- The row of the own cursor. -/
def ownRow (o : JsonObject) (ids : List Int) : Nat := rowOfId (ownLineId o) (shownOf o ids)

/-- The number of rows of the window. -/
def rowCount (o : JsonObject) : Nat := (jsonObjectGetNumber o (bytes "height")).toNat

variable (R) in
/-- The texts of the lines in the window can be printed, and the own cursor is on one of these lines. -/
def Paints (o : JsonObject) (ids : List Int) : Prop :=
  (∀ id ∈ (ids.drop (topRow o ids)).take (rowCount o),
    Prints (jsonObjectGetNumber o (bytes "width") * jsonObjectGetNumber o (bytes "height") + 1) (lineStr R o id)) ∧
  topRow o ids ≤ ownRow o ids ∧ ownRow o ids < topRow o ids + rowCount o

theorem getElem?_take_eq_some_iff {α : Type} {l : List α} {n j : Nat} {a : α} :
    (l.take n)[j]? = some a ↔ j < n ∧ l[j]? = some a := by
  rw [List.getElem?_take]
  split <;> simp_all

/-- A line that is found is found in its row. -/
theorem lastPtr_downTo {id : Int} {ids : List Int} {q : Ptr} (hq : lastPtr (downTo id ids) = some q) : q = rowOfId id ids := by
  unfold lastPtr at hq
  split at hq
  · cases hq
  · exact (Option.some.inj hq).symm

/-- The buffer has the size that the text gives. -/
theorem readBuffer_size {u : Bool} {b' : Buffer R} (hrun : readBuffer o u = .ok b') :
    b'.height = jsonObjectGetNumber o (bytes "height") ∧ b'.width = jsonObjectGetNumber o (bytes "width") := by
  obtain ⟨b, hfixed, -, rfl⟩ := readBuffer_unpainted o u b' hrun
  have hheight : b.height = _ := congrArg (·.1.2.2.1) hfixed
  have hwidth : b.width = _ := congrArg (·.1.2.2.2.1) hfixed
  cases u <;> exact ⟨hheight, hwidth⟩

/-- What has been read can be shown exactly if its text says so. -/
theorem Stage.Result.showable_iff {b b' : Buffer R} {ids : List Int} (h : Stage.Result o b b' ids (shownOf o ids))
    (htop : b.top = lastPtr (downTo (jsonObjectGetNumber o (bytes "top")) (shownOf o ids)))
    (hwell : WellLinked b' (List.range ids.length)) (hheight : b'.height = jsonObjectGetNumber o (bytes "height"))
    (hwidth : b'.width = jsonObjectGetNumber o (bytes "width")) : b'.Showable ↔ Paints R o ids := by
  obtain ⟨t, ht, htop'⟩ := hwell.top
  obtain ⟨c, hc, hcmem⟩ := hwell.own
  have hlt := List.mem_range.mp ht
  have htopRow : t = topRow o ids := lastPtr_downTo (by rw [← htop, ← htop']; exact (congrArg (·.1) h.marks).symm)
  have hownRow : c.ownLine = ownRow o ids := by
    refine lastPtr_downTo (Eq.trans (congrArg (·.2.2) h.marks).symm ?_)
    simp only [Buffer.marks, hc, Option.map_some]
  have hshown := hwell.shown (k := t) (by rw [htop', List.getElem?_range hlt]) (by rwa [List.length_range])
  -- what is in row `i` of the chain
  have hchain : ∀ (i : Nat) (x : Ptr × Line R), b'.chain[i]? = some x → x.1 = i ∧ ids[i]?.map (lineStr R o) = some x.2.str := by
    intro i x hx
    have hptr := congrArg (·[i]?) hwell.chain.1
    simp only [List.getElem?_map, hx, Option.map_some] at hptr
    have hi : i < (List.range ids.length).length := (List.getElem?_eq_some_iff.mp hptr.symm).1
    rw [List.length_range] at hi
    rw [List.getElem?_range hi, Option.some.injEq] at hptr
    refine ⟨hptr, ?_⟩
    rw [← h.str i, ← hptr, hwell.get?_of_chain (List.mem_of_getElem? hx), Option.map_some]
  have hlen : b'.chain.length = ids.length := by
    rw [← List.length_map (f := Prod.fst), hwell.chain.1, List.length_range]
  have hcount : b'.height.toNat = rowCount o := congrArg Int.toNat hheight
  rw [hcount] at hshown
  rw [Buffer.Showable, Paints, Buffer.cstrSize, hheight, hwidth]
  refine and_congr ⟨fun hall id hid => ?_, fun hall x hx => ?_⟩ ?_
  · obtain ⟨j, hj⟩ := List.getElem?_of_mem hid
    obtain ⟨hjn, hj⟩ := getElem?_take_eq_some_iff.mp hj
    rw [List.getElem?_drop, ← htopRow] at hj
    obtain ⟨x, hx⟩ : ∃ x, b'.chain[t + j]? = some x :=
      ⟨_, List.getElem?_eq_getElem (by rw [hlen]; exact (List.getElem?_eq_some_iff.mp hj).1)⟩
    have hstr := (hchain _ x hx).2
    rw [hj, Option.map_some, Option.some.injEq] at hstr
    rw [hstr]
    refine hall x (List.mem_of_getElem? (i := j) ?_)
    rw [hshown, List.getElem?_take_of_lt hjn, List.getElem?_drop, hx]
  · obtain ⟨j, hj⟩ := List.getElem?_of_mem hx
    rw [hshown] at hj
    obtain ⟨hjn, hj⟩ := getElem?_take_eq_some_iff.mp hj
    rw [List.getElem?_drop] at hj
    obtain ⟨id, hid, hstr⟩ := Option.map_eq_some_iff.mp (hchain _ x hj).2
    rw [← hstr]
    refine hall id (List.mem_of_getElem? (i := j) ?_)
    rw [List.getElem?_take_of_lt hjn, List.getElem?_drop, ← htopRow, hid]
  · have hrows : b'.shown.map Prod.fst = ((List.range ids.length).drop t).take (rowCount o) := by
      rw [hshown, List.map_take, List.map_drop, hwell.chain.1]
    simp only [hc, Option.mem_some_iff, exists_eq_left', hrows, ← htopRow, ← hownRow, List.mem_iff_getElem?,
      getElem?_take_eq_some_iff, List.getElem?_drop]
    constructor
    · rintro ⟨j, hjn, hj⟩
      have hj := (List.getElem?_range (List.length_range (n := ids.length) ▸ (List.getElem?_eq_some_iff.mp hj).1)).symm.trans hj
      rw [Option.some.injEq] at hj
      omega
    · rintro ⟨hle, hlt'⟩
      exact ⟨c.ownLine - t, by omega, by rw [Nat.add_sub_of_le hle, List.getElem?_range (List.mem_range.mp hcmem)]⟩

/-- When all lines have been read, the rest can be if the ids it looks for are found, and painted if the window can be. -/
theorem LinesOf.readBuffer_iff {ids : List Int} (hlines : LinesOf o ids) (u : Bool) :
    (∃ (b : Buffer R) (ps : List Ptr), readBuffer o u = .ok b ∧ b.paintFault = none ∧ WellLinked b ps) ↔
      Complete o ids ∧ (u = true → Paints R o ids) := by
  have hne : ids ≠ [] := by
    obtain ⟨⟨rest, rfl, -⟩, -⟩ := hlines
    exact List.cons_ne_nil _ _
  have hfault : ∀ b : Buffer R, readBuffer o u = .ok b → WellLinked b (List.range ids.length) →
      (b.paintFault = none ↔ (u = true → b.Showable)) := fun b hrun hwell => readBuffer_paintFault hrun hwell
  have hsize := fun (b : Buffer R) (hrun : readBuffer o u = .ok b) => readBuffer_size hrun
  revert hfault hsize
  unfold readBuffer
  intro hfault hsize
  obtain ⟨heap, hchain, hs⟩ := Strung.readChain (b := readAttrs (R := R) o) rfl hlines
  have hmarks := hs.readMarks (o := o) (b := { readAttrs (R := R) o with heap, first := 0 }) rfl hne
  rw [hchain, Except.ok_bind_eq] at hfault hsize ⊢
  dsimp only at hfault hsize ⊢
  rw [hmarks, Except.ok_bind_eq] at hfault hsize ⊢
  generalize hb₂ : ({ readAttrs (R := R) o with
    heap, first := 0
    bottom := lastPtr (downTo (jsonObjectGetNumber o (bytes "bottom")) ids)
    last := lastPtr (shownOf o ids)
    top := lastPtr (downTo (jsonObjectGetNumber o (bytes "top")) (shownOf o ids)) } : Buffer R) = b₂ at hfault hsize ⊢
  have hstage : Stage o b₂ ids (shownOf o ids) := by
    rw [← hb₂]
    exact ⟨hs, rfl, downTo_start _ _, rfl, fun c hc => by simp [readAttrs] at hc, fun c hc => by simp [readAttrs] at hc⟩
  have hreturns := hstage.rest_returns_iff hne u
  show (∃ (b : Buffer R) (ps : List Ptr), Stage.rest o u b₂ = .ok b ∧ b.paintFault = none ∧ WellLinked b ps) ↔
    Complete o ids ∧ (u = true → Paints R o ids)
  have hwells : ∀ b : Buffer R, Stage.rest o u b₂ = .ok b → Complete o ids → WellLinked b (List.range ids.length) := by
    intro b hrun hc
    have hshown : shownOf o ids <+: ids := downTo_start _ _
    refine (hstage.rest_result hne hrun).wellLinked ?_ ?_ ?_
    · rw [← hb₂]
      exact exists_lastPtr hshown (List.ne_nil_of_mem hc.ownLine)
    · rw [← hb₂]
      exact exists_lastPtr ((downTo_start _ _).trans hshown) (mt downTo_eq_nil_iff.mp (not_not.mpr hc.top))
    · rw [← hb₂]
      exact exists_lastPtr (downTo_start _ _) (mt downTo_eq_nil_iff.mp (not_not.mpr hc.bottom))
  have hpaint : ∀ b : Buffer R, Stage.rest o u b₂ = .ok b → WellLinked b (List.range ids.length) →
      (b.paintFault = none ↔ (u = true → Paints R o ids)) := by
    intro b hrun hwell
    obtain ⟨hheight, hwidth⟩ := hsize b hrun
    rw [hfault b hrun hwell, (hstage.rest_result hne hrun).showable_iff (by rw [← hb₂]) hwell hheight hwidth]
  constructor
  · rintro ⟨b, ps, hrun, hnone, hwell⟩
    obtain ⟨hid, hline, hpeers⟩ := hreturns.mp ⟨b, hrun⟩
    have hresult := hstage.rest_result hne hrun
    obtain ⟨t, -, ht⟩ := hwell.top
    obtain ⟨m, -, hm⟩ := hwell.bottom
    have ht : b₂.top = some t := (congrArg (·.1) hresult.marks).symm.trans ht
    have hm : b₂.bottom = some m := (congrArg (·.2.1) hresult.marks).symm.trans hm
    rw [← hb₂] at ht hm
    have hc : Complete o ids := ⟨hlines, mem_of_lastPtr hm, mem_of_lastPtr ht, hid, hline, hpeers⟩
    exact ⟨hc, (hpaint b hrun (hwells b hrun hc)).mp hnone⟩
  · rintro ⟨hc, hpaints⟩
    obtain ⟨b, hrun⟩ := hreturns.mpr ⟨hc.ownId, hc.ownLine, hc.peers⟩
    have hwell := hwells b hrun hc
    exact ⟨b, _, hrun, (hpaint b hrun hwell).mpr hpaints, hwell⟩

end

end CoEditor
