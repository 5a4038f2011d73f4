-- SUMMARY: What buffer_from_file and buffer_deserialize read of a buffer before they have set it.
import CoEditor.Buffer.Frame
import CoEditor.Session.Snapshots

/-!
# Fields that are not set yet

A new buffer holds whatever `malloc` left there. Both constructors call the
operations of the editor before they are done. All fields but `u` are set by
then; `u` is tested by every edit, and by every new peer cursor.
-/

namespace CoEditor

variable {R : Type}

/-- What is left in the fields of a new buffer. `u` has a mark of its own, and the other fields are set first of all. -/
structure Garbage where
  first : Ptr
  last : Option Ptr
  top : Option Ptr
  bottom : Option Ptr
  ownCurs : Option Cursor
  peerCurss : List (Option Cursor)

/-- The buffer with garbage in those fields. -/
def Buffer.on (b : Buffer R) (g : Garbage) : Buffer R :=
  { b with first := g.first, last := g.last, top := g.top, bottom := g.bottom, ownCurs := g.ownCurs, peerCurss := g.peerCurss }

section
variable [Rope R]

/-- `bufferEmpty` in memory with garbage in it. -/
def bufferEmptyOn (g : Garbage) (id height width : Int) : Except Fault (Buffer R) := do
  let b := (bufferAlloc R id height width).on g
  let (b, l) ← lineNewCnt b none none
  let b := { b with first := l, top := some l, last := some l }
  let b ← padLines (height - 1).toNat b l
  let (b, _) ← bcursorNew b 0 0 0
  binitOnscreenInfo { b with peerCurss := List.replicate maxCursorNum none }

def bufferFromFileOn (data : Bytes) (id height width : Int) (ui : Bool) (g : Garbage) : Except Fault (Buffer R) := do
  let b ← bufferEmptyOn g id height width
  let b ← data.foldlM loadByte b
  let b ← (List.range (data.count 10)).foldlM (fun b _ => Prod.fst <$> bcursorMove b 0 .up) b
  let c ← derefCurs (← bcursorFind b 0)
  let cur ← b.curs c
  let b := b.setCurs { cur with pos := 0 } c
  pure (if ui then { b with u := .ui } else { b with u := .null, serverMode := true })

def bufferDeserializeOn (serd : Bytes) (u : Bool) (g : Garbage) : Except Fault (Buffer R) := do
  let o := jsonValueGetObject (jsonParseString serd)
  let (b, lit) ← readChain o ((readAttrs o).on g)
  let b ← readMarks o b lit
  let b ← readOwn o b
  let b := { b with peerCurss := List.replicate maxCursorNum none }
  let b ← (List.range maxCursorNum).foldlM (readPeer o) b
  let b ← binitOnscreenInfo b
  pure (if u then { b with u := .ui }.uiUpdate true else { b with u := .null, serverMode := true })

/-- Memory in which everything is zero. -/
def zeroed : Garbage := ⟨0, none, none, none, none, []⟩

theorem bufferFromFileOn_zeroed (data : Bytes) (id height width : Int) (ui : Bool) :
    bufferFromFileOn (R := R) data id height width ui zeroed = bufferFromFile data id height width ui := rfl

theorem bufferDeserializeOn_zeroed (serd : Bytes) (u : Bool) :
    bufferDeserializeOn (R := R) serd u zeroed = bufferDeserialize serd u := rfl

/-- A construction that looks at no garbage: there is one buffer that it returns on any, and `u` was not tested. -/
def LooksAtNoGarbage (build : Garbage → Except Fault (Buffer R)) : Prop := ∃ b, ∀ g, build g = .ok b ∧ b.unsetRead = false

/-! ## Garbage in the other fields -/

omit [Rope R] in
/-- A change of fields other than the lines and their counter. -/
structure Elsewhere (f : Buffer R → Buffer R) : Prop where
  heap : ∀ b, (f b).heap = b.heap
  lineIdCnt : ∀ b, (f b).lineIdCnt = b.lineIdCnt
  setHeap : ∀ b h, { f b with heap := h } = f { b with heap := h }
  setCnt : ∀ b n, { f b with lineIdCnt := n } = f { b with lineIdCnt := n }

omit [Rope R] in
theorem elsewhere_on (g : Garbage) : Elsewhere (R := R) (·.on g) :=
  ⟨fun _ => rfl, fun _ => rfl, fun _ _ => rfl, fun _ _ => rfl⟩

/-- The buffer with garbage in all fields after `first`. -/
def Buffer.onRest (g : Garbage) (b : Buffer R) : Buffer R :=
  { b with last := g.last, top := g.top, bottom := g.bottom, ownCurs := g.ownCurs, peerCurss := g.peerCurss }

/-- Garbage in the fields for cursors only. -/
def Buffer.withCurs (o : Option Cursor) (ps : List (Option Cursor)) (b : Buffer R) : Buffer R :=
  { b with ownCurs := o, peerCurss := ps }

omit [Rope R] in
theorem elsewhere_withCurs (o : Option Cursor) (ps : List (Option Cursor)) : Elsewhere (R := R) (·.withCurs o ps) :=
  ⟨fun _ => rfl, fun _ => rfl, fun _ _ => rfl, fun _ _ => rfl⟩

namespace Elsewhere

variable {f : Buffer R → Buffer R}

omit [Rope R] in
theorem line (hf : Elsewhere f) (b : Buffer R) (p : Ptr) : (f b).line p = b.line p := by
  rw [Buffer.line, Buffer.line, hf.heap]

omit [Rope R] in
theorem lineIf (hf : Elsewhere f) (b : Buffer R) (p : Option Ptr) : (f b).lineIf p = b.lineIf p := by
  cases p with
  | none => rfl
  | some p => rw [Buffer.lineIf, Buffer.lineIf, hf.line]

omit [Rope R] in
theorem modifyLine (hf : Elsewhere f) (b : Buffer R) (p : Ptr) (m : Line R → Line R) :
    Sim (fun c c' => c = f c') ((f b).modifyLine p m) (b.modifyLine p m) := by
  unfold Buffer.modifyLine
  rw [hf.line, hf.heap]
  refine (Sim.refl _).bind fun l l' hl => ?_
  subst hl
  exact .ok (hf.setHeap b _)

omit [Rope R] in
theorem modifyLineIf (hf : Elsewhere f) (b : Buffer R) (m : Line R → Line R) (p : Option Ptr) :
    Sim (fun c c' => c = f c') ((f b).modifyLineIf m p) (b.modifyLineIf m p) := by
  cases p with
  | none => exact .ok rfl
  | some p => exact hf.modifyLine b p m

theorem lineNew (hf : Elsewhere f) (b : Buffer R) (id : Int) (prev next : Option Ptr) :
    Sim (fun r r' => r = (f r'.1, r'.2)) (lineNew (f b) id prev next) (lineNew b id prev next) := by
  unfold CoEditor.lineNew
  rw [hf.lineIf, hf.lineIf, hf.heap]
  refine (Sim.refl _).bind fun p p' hp => (Sim.refl _).bind fun n n' hn => ?_
  subst hp hn
  dsimp only
  rw [hf.setHeap]
  refine (hf.modifyLineIf _ _ _).bind fun c c' hc => ?_
  subst hc
  refine (hf.modifyLineIf _ _ _).bind fun c c' hc => ?_
  subst hc
  exact .ok rfl

theorem lineNewCnt (hf : Elsewhere f) (b : Buffer R) (prev next : Option Ptr) :
    Sim (fun r r' => r = (f r'.1, r'.2)) (lineNewCnt (f b) prev next) (lineNewCnt b prev next) := by
  unfold CoEditor.lineNewCnt
  rw [hf.lineIdCnt, hf.setCnt]
  exact hf.lineNew _ _ _ _

end Elsewhere

omit [Rope R] in
/-- Lines are found by `first` and `last`. -/
theorem blineFind_congr {b b' : Buffer R} (hheap : b'.heap = b.heap) (hfirst : b'.first = b.first) (hlast : b'.last = b.last)
    (id : Int) : blineFind b' id = blineFind b id := by
  have hfrom : ∀ n lit, blineFindFrom b' id n lit = blineFindFrom b id n lit := by
    intro n
    induction n with
    | zero => exact fun lit => by cases lit <;> rfl
    | succ n ih =>
        intro lit
        cases lit with
        | none => rfl
        | some lit => simp only [blineFindFrom, ih, hfirst, Buffer.line, hheap]
  rw [blineFind, blineFind, hheap, hlast, hfrom]

/-- The own cursor is set without a look at the other fields. -/
theorem bcursorNew_withCurs (o : Option Cursor) (ps : List (Option Cursor)) (b : Buffer R) (lid pos : Int) :
    Sim (fun r r' => { r.1 with peerCurss := r'.1.peerCurss } = r'.1) (bcursorNew (b.withCurs o ps) 0 lid pos) (bcursorNew b 0 lid pos) := by
  unfold bcursorNew
  rw [show blineFind (b.withCurs o ps) lid = blineFind b lid from @blineFind_congr R b (b.withCurs o ps) rfl rfl rfl lid]
  refine (Sim.refl _).bind fun l l' hl => ?_
  subst hl
  refine (Sim.refl (b.lineAt l)).bind fun _ _ _ => ?_
  exact .ok rfl

theorem padLines_withCurs (o : Option Cursor) (ps : List (Option Cursor)) : ∀ (n : Nat) (b : Buffer R) (pp : Ptr),
    Sim (fun c c' => c = c'.withCurs o ps) (padLines n (b.withCurs o ps) pp) (padLines n b pp) := by
  intro n
  induction n with
  | zero => exact fun b pp => .ok rfl
  | succ n ih =>
      intro b pp
      refine ((elsewhere_withCurs o ps).lineNewCnt b _ _).bind ?_
      rintro _ ⟨c, l⟩ rfl
      exact ih { c with bottom := some l } l

/-- With two lines or more every field has been set when it is read. -/
theorem bufferEmptyOn_eq (g : Garbage) (id width : Int) {height : Int} (hh : 2 ≤ height) :
    bufferEmptyOn (R := R) g id height width = bufferEmpty id height width := by
  obtain ⟨n, hn⟩ : ∃ n, (height - 1).toNat = n + 1 := ⟨(height - 1).toNat - 1, by omega⟩
  refine Sim.eq ?_
  unfold bufferEmptyOn bufferEmpty
  rw [hn]
  refine ((elsewhere_on g).lineNewCnt _ _ _).bind ?_
  rintro _ ⟨c, l⟩ rfl
  -- `first`, `top` and `last` are set; `bottom` is with the next line
  have hlate : Elsewhere (R := R) fun b => { b with bottom := g.bottom, ownCurs := g.ownCurs, peerCurss := g.peerCurss } :=
    ⟨fun _ => rfl, fun _ => rfl, fun _ _ => rfl, fun _ _ => rfl⟩
  have hpad : Sim (fun c c' => c = c'.withCurs g.ownCurs g.peerCurss)
      (padLines (n + 1) { c.on g with first := l, top := some l, last := some l } l)
      (padLines (n + 1) { c with first := l, top := some l, last := some l } l) := by
    refine (hlate.lineNewCnt { c with first := l, top := some l, last := some l } _ _).bind ?_
    rintro _ ⟨c', l'⟩ rfl
    exact padLines_withCurs _ _ n { c' with bottom := some l' } l'
  refine hpad.bind ?_
  rintro _ c' rfl
  refine (bcursorNew_withCurs _ _ c' 0 0).bind fun r r' hr => ?_
  have hcleared : { r.1 with peerCurss := List.replicate maxCursorNum none } =
      { r'.1 with peerCurss := List.replicate maxCursorNum none } := by rw [← hr]
  dsimp only
  rw [hcleared]
  exact .refl _

theorem bufferFromFileOn_eq (data : Bytes) (id width : Int) {height : Int} (hh : 2 ≤ height) (ui : Bool) (g : Garbage) :
    bufferFromFileOn (R := R) data id height width ui g = bufferFromFile data id height width ui := by
  rw [bufferFromFileOn, bufferEmptyOn_eq g id width hh]
  rfl

namespace Elsewhere

variable {f : Buffer R → Buffer R}

theorem readLine (hf : Elsewhere f) (o : JsonObject) (b : Buffer R) (id : Int) (prev : Option Ptr) :
    Sim (fun r r' => r = (f r'.1, r'.2)) (readLine o (f b) id prev) (readLine o b id prev) := by
  refine (hf.lineNew b id prev none).bind ?_
  rintro _ ⟨c, l⟩ rfl
  dsimp only
  split
  · exact .error
  · refine (hf.modifyLine c l _).bind ?_
    rintro _ c' rfl
    exact .ok rfl

theorem readLines (hf : Elsewhere f) (o : JsonObject) : ∀ (fuel : Nat) (b : Buffer R) (lit : Ptr) (id : Int),
    Sim (fun r r' => r = (f r'.1, r'.2)) (readLines o (f b) lit id fuel) (readLines o b lit id fuel) := by
  intro fuel
  induction fuel with
  | zero =>
      intro b lit id
      rw [CoEditor.readLines, CoEditor.readLines]
      split
      · exact .error
      · exact .ok rfl
  | succ fuel ih =>
      intro b lit id
      rw [CoEditor.readLines, CoEditor.readLines]
      split
      · refine (hf.readLine o b _ _).bind ?_
        rintro _ ⟨c, l⟩ rfl
        exact ih c l _
      · exact .ok rfl

end Elsewhere

/-- Every field has been set when a snapshot is read into it. -/
theorem bufferDeserializeOn_eq (serd : Bytes) (u : Bool) (g : Garbage) :
    bufferDeserializeOn (R := R) serd u g = bufferDeserialize serd u := by
  refine Sim.eq ?_
  unfold bufferDeserializeOn bufferDeserialize readBuffer
  dsimp only
  generalize jsonValueGetObject (jsonParseString serd) = o
  have hrest : Elsewhere (R := R) (·.onRest g) := ⟨fun _ => rfl, fun _ => rfl, fun _ _ => rfl, fun _ _ => rfl⟩
  have hchain : Sim (fun r r' => r = (r'.1.onRest g, r'.2)) (readChain o ((readAttrs (R := R) o).on g))
      (readChain o (readAttrs o)) := by
    unfold readChain
    refine ((elsewhere_on g).readLine o _ _ _).bind ?_
    rintro _ ⟨c, l⟩ rfl
    refine (hrest.readLine o { c with first := l } _ _).bind ?_
    rintro _ ⟨c', l'⟩ rfl
    exact hrest.readLines o _ c' l' _
  refine hchain.bind ?_
  rintro _ ⟨c, lit⟩ rfl
  have hmarks : Sim (fun c c' => c = c'.withCurs g.ownCurs g.peerCurss) (readMarks o (c.onRest g) lit) (readMarks o c lit) := by
    unfold readMarks
    dsimp only
    refine Sim.bind (.of_eq (blineFind_congr (by rfl) (by rfl) (by rfl) _)) ?_
    rintro bottom _ rfl
    refine Sim.bind (.of_eq (blineFind_congr (by rfl) (by rfl) (by rfl) _)) ?_
    rintro last _ rfl
    refine Sim.bind (.of_eq (blineFind_congr (by rfl) (by rfl) (by rfl) _)) ?_
    rintro top _ rfl
    exact .ok rfl
  refine hmarks.bind ?_
  rintro _ c' rfl
  have hown : Sim (fun r r' => { r with peerCurss := r'.peerCurss } = r') (readOwn o (c'.withCurs g.ownCurs g.peerCurss))
      (readOwn o c') := by
    unfold readOwn
    dsimp only
    split
    · exact .error
    · next hid =>
        rw [not_not.mp hid]
        exact (bcursorNew_withCurs _ _ c' _ _).map fun r r' hr => hr
  refine hown.bind fun r r' hr => ?_
  have hcleared : { r with peerCurss := List.replicate maxCursorNum none } =
      { r' with peerCurss := List.replicate maxCursorNum none } := by rw [← hr]
  rw [hcleared]
  exact .refl _

/-! ## Tests of `u` -/

/-- `u` is not set, and nothing has tested it. -/
def Untested (b : Buffer R) : Prop := b.u = .unset ∧ b.unsetRead = false

/-- `u` is not set, and something has tested it. -/
def Tested (b : Buffer R) : Prop := b.u = .unset ∧ b.unsetRead = true

namespace Untested

variable {b : Buffer R}

omit [Rope R] in
theorem modifyLine (h : Untested b) (p : Ptr) (f : Line R → Line R) : Yields Untested (b.modifyLine p f) := .read fun _ => .ok h

omit [Rope R] in
theorem modifyLineIf (h : Untested b) (f : Line R → Line R) (p : Option Ptr) : Yields Untested (b.modifyLineIf f p) := by
  cases p with
  | none => exact .ok h
  | some p => exact h.modifyLine p f

theorem lineNew (h : Untested b) (id : Int) (prev next : Option Ptr) :
    Yields (fun r => Untested r.1) (lineNew b id prev next) := by
  refine .read fun _ => .read fun _ => Yields.bind (P := Untested) ?_ fun _ h =>
    Yields.bind (P := Untested) (modifyLineIf h _ _) fun _ h => .ok h
  refine modifyLineIf ?_ _ _
  exact h

theorem lineNewCnt (h : Untested b) (prev next : Option Ptr) : Yields (fun r => Untested r.1) (lineNewCnt b prev next) :=
  lineNew (b := { b with lineIdCnt := b.lineIdCnt + 1 }) h _ _ _

theorem padLines : ∀ (n : Nat) {b : Buffer R} (pp : Ptr), Untested b → Yields Untested (padLines n b pp) := by
  intro n
  induction n with
  | zero => exact fun pp h => .ok h
  | succ n ih => exact fun pp h => (lineNewCnt h _ _).bind fun r h => ih r.2 h

theorem readLine (h : Untested b) (o : JsonObject) (id : Int) (prev : Option Ptr) :
    Yields (fun r => Untested r.1) (readLine o b id prev) := by
  refine (h.lineNew id prev none).bind ?_
  rintro ⟨b, l⟩ h
  dsimp only
  split
  · exact .error _
  · exact (modifyLine h l _).bind fun _ h => .ok h

theorem readLines (o : JsonObject) : ∀ (fuel : Nat) {b : Buffer R} (lit : Ptr) (id : Int), Untested b →
    Yields (fun r => Untested r.1) (readLines o b lit id fuel) := by
  intro fuel
  induction fuel with
  | zero =>
      intro b lit id h
      rw [CoEditor.readLines]
      split
      · exact .error _
      · exact .ok h
  | succ fuel ih =>
      intro b lit id h
      rw [CoEditor.readLines]
      split
      · exact (h.readLine o _ _).bind fun r h => ih r.2 _ h
      · exact .ok h

theorem readChain (h : Untested b) (o : JsonObject) : Yields (fun r => Untested r.1) (readChain o b) :=
  (h.readLine o _ none).bind fun r h =>
    (readLine (b := { r.1 with first := r.2 }) h o _ _).bind fun _ h => readLines o _ _ _ h

omit [Rope R] in
theorem readMarks (h : Untested b) (o : JsonObject) (lit : Ptr) : Yields Untested (readMarks o b lit) :=
  .read fun _ => .read fun _ => .read fun _ => .ok h

theorem bcursorNew (h : Untested b) (lid pos : Int) : Yields (fun r => Untested r.1) (bcursorNew b 0 lid pos) :=
  .read fun _ => .read fun _ => .ok h

theorem readOwn (h : Untested b) (o : JsonObject) : Yields Untested (readOwn o b) := by
  unfold CoEditor.readOwn
  dsimp only
  split
  · exact .error _
  · next hid =>
      rw [not_not.mp hid]
      exact (bcursorNew h _ _).map fun _ h => h

end Untested

/-- All but the lines. -/
def Buffer.bare (b : Buffer R) : Buffer R := { b with heap := .empty }

omit [Rope R] in
theorem Buffer.modifyLine_bare (b : Buffer R) (p : Ptr) (f : Line R → Line R) :
    Yields (fun c => c.bare = b.bare) (b.modifyLine p f) := .read fun _ => .ok rfl

omit [Rope R] in
theorem binitLoop_bare (own : Ptr) : ∀ (n : Nat) (b : Buffer R) (os : Bool) (rel : Crp) (lit : Option Ptr),
    Yields (fun c => c.bare = b.bare) (binitLoop b own n os rel lit) := by
  intro n
  induction n with
  | zero =>
      intro b os rel lit
      cases lit with
      | none => exact .ok rfl
      | some q => exact .error _
  | succ n ih =>
      intro b os rel lit
      cases lit with
      | none => exact .ok rfl
      | some q =>
          exact (b.modifyLine_bare q _).keep fun b => .read fun l => ih _ _ _ _

omit [Rope R] in
theorem binitOnscreenInfo_bare (b : Buffer R) : Yields (fun c => c.bare = b.bare) (binitOnscreenInfo b) := by
  exact .read fun own => (b.modifyLine_bare b.first _).keep fun b => .read fun l => binitLoop_bare _ _ _ _ _ _

omit [Rope R] in
theorem Untested.congr {b c : Buffer R} (h : Untested b) (hbare : c.bare = b.bare) : Untested c :=
  ⟨(congrArg Buffer.u hbare).trans h.1, (congrArg Buffer.unsetRead hbare).trans h.2⟩

theorem bufferEmpty_untested (id height width : Int) : Yields (Untested (R := R)) (bufferEmpty id height width) :=
  (Untested.lineNewCnt (b := bufferAlloc R id height width) ⟨rfl, rfl⟩ _ _).bind fun r h =>
    (Untested.padLines (b := { r.1 with first := r.2, top := some r.2, last := some r.2 }) _ r.2 h).bind fun _ h =>
      (h.bcursorNew 0 0).bind fun r h => by
        intro b hrun
        exact Untested.congr (b := { r.1 with peerCurss := List.replicate maxCursorNum none }) h
          (binitOnscreenInfo_bare _ _ hrun)

section
variable {b : Buffer R}

theorem tested_uiUpdate {b' : Buffer R} (hfixed : b'.fixed = b.fixed) (hu : b.u = .unset) (seen : Bool) :
    Tested (b'.uiUpdate seen) := by
  have hu' : b'.u = .unset := (congrArg (·.2.1) hfixed).trans hu
  simp only [Buffer.uiUpdate, hu']
  exact ⟨rfl, rfl⟩

theorem bcursorMove_tests (hu : b.u = .unset) (id : Int) (dir : CmoveDir) :
    Yields (fun r => Tested r.1) (bcursorMove b id dir) :=
  .read fun _ => .read fun c => .read fun cur => .read fun _ => (moveCurs_quiet b c cur dir).keeps.fixes.bind fun _ hfixed =>
    .ok (tested_uiUpdate hfixed hu _)

theorem bcursorInsertLine_tests (hu : b.u = .unset) (id : Int) : Yields (fun r => Tested r.1) (bcursorInsertLine b id) := by
  refine .read fun c => .read fun c => .read fun cur => .read fun l => ?_
  refine Yields.bind (P := fun r => r.1.fixed = b.fixed) ?_ fun _ hfixed => .read fun _ => .ok (tested_uiUpdate hfixed hu _)
  split
  · exact (insertAbove_ledger _ c cur l).fixes
  · exact (insertBelow_ledger _ id c cur l).fixes

/-- Inserting tests `u` even if the line is full. -/
theorem bcursorInsert_tests (hu : b.u = .unset) {id : Int} (hid : HasCurs b id) (chr : UInt8) :
    Yields (fun r => Tested r.1) (bcursorInsert b id chr) := by
  obtain ⟨c, hc⟩ := hid
  rw [bcursorInsert, hc, Except.ok_bind_eq]
  exact (cursorInsert_quiet b c chr).keeps.fixes.bind fun r hr => (Quiet.keeps (Yields.runIf (nudgeOthers_quiet · c 1) r.1)).fixes.bind fun _ hfixed =>
    .ok (tested_uiUpdate (hfixed.trans hr) hu _)

theorem loadByte_tests (hu : b.u = .unset) (hown : HasCurs b 0) (c : UInt8) : Yields Tested (loadByte b c) := by
  unfold loadByte
  split
  · exact (bcursorInsertLine_tests hu 0).map fun _ h => h
  · exact (bcursorInsert_tests hu hown c).map fun _ h => h

end

/-- Loading a file tests `u` before it is set, unless the file is empty. -/
theorem bufferFromFile_unsetRead (data : Bytes) (id width : Int) {n : Nat} (hn : 2 ≤ n) (ui : Bool) :
    Yields (fun b => b.unsetRead = false ↔ data = []) (bufferFromFile (R := R) data id n width ui) := by
  obtain ⟨b₀, hrun₀, h₀⟩ := bufferEmpty_exact (R := R) id width hn
  have hend : ∀ {b : Buffer R}, (b.unsetRead = false ↔ data = []) → Yields (fun b => b.unsetRead = false ↔ data = []) (do
      let c ← derefCurs (← bcursorFind b 0)
      let cur ← b.curs c
      let b := b.setCurs { cur with pos := 0 } c
      pure (if ui then { b with u := .ui } else { b with u := .null, serverMode := true })) := by
    intro b hb
    refine .read fun _ => .read fun c => .read fun cur => .ok ?_
    cases c <;> cases ui <;> exact hb
  have hunset₀ := bufferEmpty_untested id n width b₀ hrun₀
  rw [bufferFromFile, hrun₀, Except.ok_bind_eq]
  rcases data.eq_nil_or_concat' with rfl | ⟨init, c, rfl⟩
  · rw [List.foldlM_nil, Except.pure_eq_ok, Except.ok_bind_eq]
    exact hend (iff_of_true hunset₀.2 rfl)
  · -- the last byte finds `u` not set, as no edit sets it
    obtain ⟨b₁, hrun₁, h₁⟩ := loadBytes_exact init h₀
    have hu₁ : b₁.u = .unset := by
      have hfixed : b₁.fixed = b₀.fixed := Except.foldlM_invariant
        (fun c hfixed hc => ((loadByte_keeps _ c).fixes _ hc).trans hfixed) init rfl hrun₁
      exact (congrArg (·.2.1) hfixed).trans hunset₀.1
    obtain ⟨x, hx⟩ := h₁.sound.holds.own
    have hown : HasCurs b₁ 0 := (h₁.sound.hasCurs 0).mpr (by simp [hx])
    rw [List.foldlM_append, hrun₁, Except.ok_bind_eq, List.foldlM_cons, bind_assoc]
    refine (loadByte_tests hu₁ hown c).bind fun b₂ htested => ?_
    rw [List.foldlM_nil, Except.pure_eq_ok, Except.ok_bind_eq]
    refine Yields.bind (P := Tested) ?_ fun b₃ htested => hend (iff_of_false (by simp [htested.2]) (by simp))
    exact fun b₃ => Except.foldlM_invariant
      (fun _ htested hrun => (bcursorMove_tests htested.1 0 .up).map (fun _ h => h) _ hrun) _ htested

/-- `u` is not set, and has been tested for each peer cursor. -/
def TestedPerPeer (b : Buffer R) : Prop := b.u = .unset ∧ (b.unsetRead = true ↔ ∃ c, some c ∈ b.peerCurss)

theorem readPeer_tests {b : Buffer R} (h : TestedPerPeer b) (o : JsonObject) (i : Nat) : Yields TestedPerPeer (readPeer o b i) := by
  unfold readPeer
  split
  · refine Yields.map (P := fun r => TestedPerPeer r.1) ?_ fun _ h => h
    unfold bcursorNew
    refine .read fun l => ?_
    cases l with
    | none => exact .error _
    | some l =>
        refine .read fun _ => ?_
        dsimp only
        split
        · exact .ok h
        · split
          · exact .ok h
          · next k hk =>
              -- the cursor gets slot `k`, and `u` is tested
              obtain ⟨hlt, -⟩ := List.findIdx?_eq_some_iff_getElem.mp hk
              refine .ok ?_
              simp only [Buffer.uiUpdate, h.1]
              exact ⟨rfl, iff_of_true rfl ⟨_, List.mem_set hlt _⟩⟩
  · exact .ok h

/-- Reading a snapshot tests `u` before it is set, unless no peer cursor is read. -/
theorem bufferDeserialize_unsetRead (serd : Bytes) (u : Bool) :
    Yields (fun b => b.unsetRead = true ↔ ∃ c, some c ∈ b.peerCurss) (bufferDeserialize (R := R) serd u) := by
  unfold bufferDeserialize readBuffer
  dsimp only
  generalize jsonValueGetObject (jsonParseString serd) = o
  refine (Untested.readChain (b := readAttrs o) ⟨rfl, rfl⟩ o).bind fun r h => ?_
  refine (h.readMarks o r.2).bind fun b h => (h.readOwn o).bind fun b h => ?_
  have hcleared : TestedPerPeer { b with peerCurss := List.replicate maxCursorNum none } :=
    ⟨h.1, by simp [h.2, List.mem_replicate]⟩
  refine Yields.bind (P := TestedPerPeer) ?_ fun b h => ?_
  · exact fun b' => Except.foldlM_invariant (fun i h hrun => readPeer_tests h o i _ hrun) _ hcleared
  · refine (binitOnscreenInfo_bare b).bind fun c hbare => .ok ?_
    have hc : TestedPerPeer c.bare := by
      rw [hbare]
      exact h
    cases u <;> exact hc.2

omit [Rope R] in
theorem looksAtNoGarbage_iff {build : Garbage → Except Fault (Buffer R)} {b : Buffer R} (hb : ∀ g, build g = .ok b) :
    LooksAtNoGarbage build ↔ b.unsetRead = false := by
  constructor
  · rintro ⟨b', hb'⟩
    obtain ⟨hrun, hread⟩ := hb' zeroed
    rwa [← Except.ok.inj ((hb zeroed).symm.trans hrun)] at hread
  · exact fun hread => ⟨b, fun g => ⟨hb g, hread⟩⟩

theorem bufferFromFileOn_looks (data : Bytes) (id width : Int) {height : Int} (hh : 2 ≤ height) (ui : Bool) :
    LooksAtNoGarbage (bufferFromFileOn (R := R) data id height width ui) ↔ data = [] := by
  obtain ⟨n, rfl⟩ := Int.eq_ofNat_of_zero_le (Int.le_trans (by decide) hh)
  have hn : 2 ≤ n := by omega
  obtain ⟨b, hrun, -⟩ := bufferFromFile_exact (R := R) data id width hn ui
  rw [looksAtNoGarbage_iff fun g => (bufferFromFileOn_eq data id width hh ui g).trans hrun]
  exact bufferFromFile_unsetRead data id width hn ui b hrun

theorem bufferDeserializeOn_looks {b : Buffer R} (hb : Reachable b) {s : Bytes} (hs : bufferSerialize b = .ok s) (u : Bool) :
    LooksAtNoGarbage (bufferDeserializeOn (R := R) s u) ↔ ∀ x ∈ b.peerList, ¬ (0 < x.1 ∧ x.1 < maxCursorNum) := by
  obtain ⟨d, p, hrep, hsound, -⟩ := hb.sound
  obtain ⟨s', b', hs', hrun, hrep'⟩ := hrep.restore hsound.toGood (hsound.top_le_last hrep.bottom_lt) (hrep.fits hs) u
  obtain rfl := Except.ok.inj (hs.symm.trans hs')
  have hread : b'.unsetRead = true ↔ ∃ c, some c ∈ b'.peerCurss := bufferDeserialize_unsetRead s u b' hrun
  rw [looksAtNoGarbage_iff fun g => (bufferDeserializeOn_eq s u g).trans hrun, ← Bool.not_eq_true, hread]
  -- a peer cursor is read for each one that the snapshot holds
  have hmem := hrep.mem_restored hsound.toGood hrep'
  constructor
  · intro hnone x hx hid
    obtain ⟨o, ho, hcurs⟩ := List.mem_filterMap.mp ((hmem x).mpr ⟨hx, hid⟩)
    obtain ⟨c, rfl, -⟩ := Option.map_eq_some_iff.mp hcurs
    exact hnone ⟨c, ho⟩
  · rintro hall ⟨c, hc⟩
    obtain ⟨hx, hid⟩ := (hmem (b'.curs? c)).mp (List.mem_filterMap.mpr ⟨some c, hc, rfl⟩)
    exact hall _ hx hid

/-- A buffer is made without a look at fields that are not set exactly when it is made from an empty file or from
    a snapshot that holds no peer cursor. -/
theorem construction_looks :
    (∀ (data : Bytes) (id height width : Int) (ui : Bool), 2 ≤ height →
      (LooksAtNoGarbage (bufferFromFileOn (R := R) data id height width ui) ↔ data = [])) ∧
    ∀ (b : Buffer R) (s : Bytes) (u : Bool), Reachable b → bufferSerialize b = .ok s →
      (LooksAtNoGarbage (bufferDeserializeOn (R := R) s u) ↔ ∀ x ∈ b.peerList, ¬ (0 < x.1 ∧ x.1 < maxCursorNum)) :=
  ⟨fun data id _ width ui hh => bufferFromFileOn_looks data id width hh ui,
    fun _ _ u hb hs => bufferDeserializeOn_looks hb hs u⟩

end

theorem construction_looks_empty : LooksAtNoGarbage (bufferFromFileOn (R := ListRope) [] 1 2 6 false) ∧
    ∃ (b : Buffer ListRope) (s : Bytes), bufferFromFile (bytes "ab") 1 2 6 false = .ok b ∧ bufferSerialize b = .ok s ∧
      LooksAtNoGarbage (bufferDeserializeOn (R := ListRope) s true) := by
  have hrun : returns (bufferFromFile (R := ListRope) (bytes "ab") 1 2 6 false) (fun b =>
      returns (bufferSerialize b) (fun _ => true) && b.peerList.isEmpty) = true := by decide +kernel
  obtain ⟨b, hb, htest⟩ := exists_of_returns hrun
  obtain ⟨hs, hpeers⟩ := Bool.and_eq_true_iff.mp htest
  obtain ⟨s, hs, -⟩ := exists_of_returns hs
  refine ⟨(construction_looks.1 [] 1 2 6 false (by decide)).mpr rfl, b, s, hb, hs, ?_⟩
  exact (construction_looks.2 b s true (.load (by decide) hb) hs).mpr (by simp [List.isEmpty_iff.mp hpeers])

/-- Loading a file of one byte tests `u`. -/
theorem loading_tests_u : ¬ LooksAtNoGarbage (bufferFromFileOn (R := ListRope) (bytes "a") 1 2 6 false) := by
  rintro ⟨b, hb⟩
  have hrun : returns (bufferFromFileOn (R := ListRope) (bytes "a") 1 2 6 false zeroed) (·.unsetRead) = true := by
    decide +kernel
  obtain ⟨b', hb', hread⟩ := exists_of_returns hrun
  obtain ⟨hrun', hunread⟩ := hb zeroed
  rw [Except.ok.inj (hb'.symm.trans hrun'), hunread] at hread
  cases hread

end CoEditor
