-- SUMMARY: The buffer of a worker: its own cursor stays at the start, and so no call makes its window longer.
import CoEditor.Session.Invariants

/-!
# Hosted buffers

A worker loads a file without a user interface, and all calls are made for its
users. Its own cursor stays at the start of the first line, where every new
cursor is put.
-/

namespace CoEditor

variable {R : Type} [Rope R]

namespace Op

/-- The call is made for user `u`. -/
def By (u : Int) : Op → Prop
  | .copyOwn i | .free i | .move i _ | .insert i _ | .insertLine i | .del i => i = u
  | .new .. => False

theorem EditsAt.by {op : Op} {u : Int} (h : op.EditsAt u) : op.By u := by
  cases op with
  | new | copyOwn | free => exact h.elim
  | move | insert | insertLine | del => exact h

end Op

/-- The buffers of workers. -/
inductive Hosted : Buffer R → Prop where
  | load {data : Bytes} {id height width : Int} {b : Buffer R} : 3 ≤ height →
      bufferFromFile data id height width false = .ok b → Hosted b
  | step {b b' : Buffer R} {op : Op} {u : Int} {res : Bres} : Hosted b → op.By u → u ≠ 0 → op.Legal (HasCurs b) →
      op.run b = .ok (b', res) → Hosted b'

theorem Hosted.reachable {b : Buffer R} (h : Hosted b) : Reachable b := by
  induction h with
  | load h3 hrun => exact .load (by omega) hrun
  | step _ _ _ hlegal hrun ih => exact .step ih hlegal trivial hrun

/-! ## The own cursor -/

namespace Doc

/-- The own cursor is at the start, and every column is a column. -/
structure Home (d : Doc R) : Prop where
  serverMode : d.serverMode = true
  own : d.curs 0 = some ⟨0, 0⟩
  pos : ∀ i x, d.curs i = some x → 0 ≤ x.pos

theorem cut_nonneg (d : Doc R) (k : Nat) {pos : Int} (h : 0 ≤ pos) : 0 ≤ d.cut k pos := by
  unfold cut
  split <;> omega

theorem step_pos {d : Doc R} {x : Place} (h : 0 ≤ x.pos) (dir : CmoveDir) : 0 ≤ (d.step x dir).pos := by
  cases dir with
  | up | down =>
      simp only [step]
      split
      · exact cut_nonneg d _ h
      · exact h
  | left =>
      simp only [step]
      split
      · simp only
        omega
      · split
        · exact Int.natCast_nonneg _
        · exact h
  | right =>
      simp only [step]
      split
      · simp only
        omega
      · split
        · exact Int.le_refl 0
        · exact h

namespace Home

variable {d : Doc R} {u : Int}

omit [Rope R] in
/-- Cursors move, but not the own one and not before the start of a line. -/
theorem mapCurs (h : Home d) {f : Int → Place → Place} (hown : f 0 ⟨0, 0⟩ = ⟨0, 0⟩)
    (hpos : ∀ i x, d.curs i = some x → 0 ≤ (f i x).pos) : Home (d.mapCurs f) where
  serverMode := h.serverMode
  own := by rw [mapCurs_curs, h.own, Option.map_some, hown]
  pos := by
    intro i x hx
    obtain ⟨y, hy, rfl⟩ := Option.map_eq_some_iff.mp hx
    exact hpos i y hy

omit [Rope R] in
theorem put (h : Home d) (hu : u ≠ 0) {x : Place} (hx : 0 ≤ x.pos) : Home (d.put u x) where
  serverMode := h.serverMode
  own := by simp [Doc.put, hu.symm, h.own]
  pos := by
    intro i y hy
    simp only [Doc.put] at hy
    split at hy
    · cases hy
      exact hx
    · exact h.pos i y hy

omit [Rope R] in
theorem drop (h : Home d) (hu : u ≠ 0) : Home (d.drop u) where
  serverMode := h.serverMode
  own := by simp [Doc.drop, hu.symm, h.own]
  pos := by
    intro i y hy
    simp only [Doc.drop] at hy
    split at hy
    · cases hy
    · exact h.pos i y hy

omit [Rope R] in
/-- Only the cursors and the mode matter. -/
theorem of_eq (h : Home d) {e : Doc R} (hmode : e.serverMode = d.serverMode) (hcurs : e.curs = d.curs) : Home e :=
  ⟨hmode.trans h.serverMode, hcurs ▸ h.own, hcurs ▸ h.pos⟩

theorem move (h : Home d) (hu : u ≠ 0) (dir : CmoveDir) : Home (d.move u dir) := by
  refine h.mapCurs (if_neg (Ne.symm hu)) fun i x hx => ?_
  split
  · exact step_pos (h.pos i x hx) dir
  · exact h.pos i x hx

omit [Rope R] in
theorem shift (h : Home d) (hu : u ≠ 0) {cur : Place} {n : Int} (hn : 0 ≤ cur.pos + n) (hn' : -1 ≤ n) :
    Home (d.shift u cur n) := by
  refine h.mapCurs ?_ fun i x hx => ?_
  · rw [if_neg (Ne.symm hu), if_neg]
    rintro ⟨-, hlt⟩
    exact absurd hlt (by simp only; omega)
  · have := h.pos i x hx
    split
    · exact hn
    · split
      · simp only
        omega
      · exact this

theorem insert (h : Home d) (hu : u ≠ 0) (chr : UInt8) : Home (d.insert u chr) := by
  unfold Doc.insert
  split
  · exact h
  · next cur hcur =>
      have := h.pos u cur hcur
      split
      · exact h
      · have hmod : Home (d.modifyStr cur.row (Rope.insert · (sizeT cur.pos) (hstr chr))) := h.of_eq rfl rfl
        exact hmod.shift hu (by omega) (by decide)

theorem newLine (h : Home d) {k : Nat} (hk : 0 < k) : Home (d.newLine k) := by
  have hmap : Home (d.mapCurs fun _ x => { x with row := bump k x.row }) :=
    h.mapCurs (by simp [bump]; omega) fun i x hx => h.pos i x hx
  exact hmap.of_eq rfl rfl

theorem newBelow (h : Home d) (k : Nat) : Home (d.newBelow k) := by
  unfold Doc.newBelow
  split
  · exact (h.newLine (Nat.succ_pos k)).of_eq rfl rfl
  · exact h.newLine (Nat.succ_pos k)

/-- A line put in above the own cursor is the new first line, and the own cursor goes back up to it. -/
theorem newAbove (h : Home d) (k : Nat) : Home (d.newLine k).homeUp := by
  refine ⟨h.serverMode, ?_, ?_⟩
  · have hmode : (d.newLine k).serverMode = true := h.serverMode
    have hown : (d.newLine k).curs 0 = some ⟨bump k 0, 0⟩ := by simp [Doc.newLine, h.own]
    rw [homeUp, mapCurs_curs, hown, Option.map_some]
    by_cases hk : k = 0
    · subst hk
      simp [hmode, bump, Doc.step, cut]
    · have hbump : bump k 0 = 0 := by grind [bump]
      simp [hbump]
  · intro i x hx
    obtain ⟨y, hy, rfl⟩ := Option.map_eq_some_iff.mp hx
    obtain ⟨z, hz, rfl⟩ := Option.map_eq_some_iff.mp hy
    have := h.pos i z hz
    dsimp only
    split
    · exact step_pos (d := d.newLine k) (x := ⟨bump k z.row, z.pos⟩) this .up
    · exact this

theorem splitText (h : Home d) (k : Nat) (pos : Int) : Home (d.splitText k pos) := h.of_eq rfl rfl

theorem splitCurs (h : Home d) {cur : Place} (hcur : 0 ≤ cur.pos) : Home (d.splitCurs u cur) := by
  refine h.mapCurs (if_neg fun hafter => ?_) fun i x hx => ?_
  · have := hafter.2.2
    simp only at this
    omega
  · split
    · next hafter =>
        refine step_pos ?_ .down
        simp only
        omega
    · exact h.pos i x hx

theorem insertBelow (h : Home d) (hu : u ≠ 0) {cur : Place} (hcur : 0 ≤ cur.pos) : Home (d.insertBelow u cur) := by
  have hto : ∀ e : Doc R, Home e → Home (e.mapCurs fun i x => if i = u then ⟨cur.row + 1, 0⟩ else x) := by
    intro e he
    refine he.mapCurs (if_neg (Ne.symm hu)) fun i x hx => ?_
    split
    · exact Int.le_refl 0
    · exact he.pos i x hx
  have hnew := h.newBelow cur.row
  unfold Doc.insertBelow
  split
  · exact hto _ ((hnew.splitText cur.row cur.pos).splitCurs hcur)
  · exact hto _ hnew

theorem insertLine (h : Home d) (hu : u ≠ 0) : Home (d.insertLine u) := by
  unfold Doc.insertLine
  have hcount : Home (d.recount 1) := h.of_eq rfl rfl
  split
  · exact h
  · next cur hcur =>
      split
      · exact hcount.newAbove cur.row
      · exact hcount.insertBelow hu (h.pos u cur hcur)

theorem joinText (h : Home d) (k : Nat) : Home (d.joinText k) := by
  obtain ⟨f, hf⟩ := d.joinText_eq k
  rw [hf]
  exact h.of_eq rfl rfl

omit [Rope R] in
theorem raiseLast (h : Home d) (k : Nat) : Home (d.raiseLast k) := by
  unfold Doc.raiseLast
  split
  · exact h.of_eq rfl rfl
  · exact h

theorem joinCurs (h : Home d) (k n : Nat) : Home (d.joinCurs u k n) := by
  refine h.mapCurs (if_neg fun hbelow => ?_) fun i x hx => ?_
  · have := hbelow.2
    simp only at this
    omega
  · split
    · have := step_pos (d := d) (h.pos i x hx) .up
      simp only
      omega
    · exact h.pos i x hx

omit [Rope R] in
theorem eraseLine (h : Home d) (k : Nat) : Home (d.eraseLine k) := by
  have hmap : Home (d.mapCurs fun _ x => { x with row := unbump k x.row }) :=
    h.mapCurs (by simp [unbump]) fun i x hx => h.pos i x hx
  exact hmap.of_eq rfl rfl

theorem join (h : Home d) (hu : u ≠ 0) (k : Nat) : Home (d.join u k) := by
  have hcount : Home (d.recount (-1)) := h.of_eq rfl rfl
  have hput := hcount.put hu (x := ⟨k, d.len k⟩) (Int.natCast_nonneg _)
  exact (((hput.raiseLast k).joinText k).joinCurs k _).eraseLine (k + 1)

theorem del (h : Home d) (hu : u ≠ 0) : Home (d.del u) := by
  unfold Doc.del
  split
  · exact h
  · next cur hcur =>
      split
      · next hpos =>
          have hmod : Home (d.modifyStr cur.row (Rope.del · (sizeT (cur.pos - 1)) 1)) := h.of_eq rfl rfl
          exact hmod.shift hu (by omega) (by decide)
      · split
        · exact h
        · exact h.join hu _

/-- No call for a user moves the own cursor. -/
theorem effect (h : Home d) (hu : u ≠ 0) {op : Op} (hby : op.By u) {res : Bres} {e : Doc R}
    (heffect : op.Effect d res e) : Home e := by
  cases heffect with
  | new => exact hby.elim
  | newFull | copyOwnFull | freeOwn | insertNone => exact h
  | copyOwn hown => exact hby ▸ h.put (hby ▸ hu) (h.pos 0 _ hown)
  | free => exact hby ▸ h.drop (hby ▸ hu)
  | move => exact hby ▸ h.move (hby ▸ hu) _
  | insert => exact hby ▸ h.insert (hby ▸ hu) _
  | insertLine => exact hby ▸ h.insertLine (hby ▸ hu)
  | del => exact hby ▸ h.del (hby ▸ hu)

end Home

end Doc

/-! ## The window -/

/-- With the own cursor at the start no join makes the window longer. -/
theorem Page.Exact.not_stretches {p : Page R} (hp : p.Exact) (h3 : 3 ≤ p.height) (hhome : p.doc.Home) (op : Op) :
    ¬ op.Stretches p := by
  obtain ⟨n, -, hframed⟩ := hp.framed h3
  have hown := Page.doc_curs hp.toGood.distinct p.curs_own
  rw [hp.toGood.own_id, hhome.own] at hown
  have hrow : p.own.row = 0 := congrArg Place.row (Option.some.inj hown).symm
  have htop := hframed.view.top_le
  cases op with
  | del id =>
      rintro ⟨ref, c, -, -, -, -, -, hne, -⟩
      omega
  | new | copyOwn | free | move | insert | insertLine => exact fun h => h

/-- The buffer of a worker holds a document with the own cursor at its start, and shows exactly a full
    screen of it. -/
theorem Hosted.exact {b : Buffer R} (hb : Hosted b) : 3 ≤ b.height ∧ ∃ d, HoldsExact b d ∧ d.Home := by
  induction hb with
  | load h3 hrun =>
      rename_i data id height width b
      obtain ⟨n, rfl⟩ : ∃ n : Nat, height = n := ⟨height.toNat, by omega⟩
      obtain ⟨b', hrun', hholds⟩ := bufferFromFile_exact (R := R) data id width (n := n) (by omega) false
      obtain rfl := Except.ok.inj (hrun.symm.trans hrun')
      obtain ⟨hown, hothers⟩ := Doc.load_curs (R := R) data width n false
      refine ⟨?_, _, hholds, rfl, hown, fun i x hx => ?_⟩
      · obtain ⟨p, hrep, -, hdoc⟩ := hholds
        have hheight : p.height = (Doc.load (R := R) data width n false).height := by rw [← hdoc]; rfl
        rw [hrep.height, hheight, Doc.load_height]
        exact h3
      · by_cases hi : i = 0
        · rw [hi, hown] at hx
          obtain rfl := Option.some.inj hx
          exact Int.le_refl 0
        · rw [hothers i hi] at hx
          cases hx
  | step _ hby hu hlegal hrun ih =>
      obtain ⟨h3, d, ⟨p, hrep, hexact, rfl⟩, hhome⟩ := ih
      have hlegal' := (Op.Legal.congr hrep.hasCurs).mp hlegal
      have h3' : 3 ≤ p.height := hrep.height ▸ h3
      obtain ⟨q, hrep', hq⟩ := hrep.run_ok hexact.toGood hrun
      obtain ⟨hexact', heffect⟩ := hexact.run hlegal' (hexact.not_stretches h3' hhome _) hq
      refine ⟨?_, q.doc, ⟨q, hrep', hexact', rfl⟩, hhome.effect hu hby heffect⟩
      have hheight : q.height = p.height := heffect.height
      rw [hrep'.height, hheight]
      exact h3'

/-! ## The place of new cursors -/

/-- The own cursor of a worker is at the start of the first line, and the window with it; a cursor copied from it is
    where a client puts the cursor of a new user. -/
theorem home_cursor {b : Buffer R} (hb : Hosted b) : b.ownCurs = some ⟨0, b.first, 0⟩ ∧ b.top = some b.first ∧
    ∃ f, b.line b.first = .ok f ∧ ∀ id, bcursorCopyOwn b id = bcursorNew b id f.id 0 := by
  obtain ⟨h3, d, ⟨p, hrep, hexact, rfl⟩, hhome⟩ := hb.exact
  obtain ⟨f, hf, hfirst⟩ := hrep.first_row
  have hown := Page.doc_curs hexact.toGood.distinct p.curs_own
  rw [hexact.toGood.own_id, hhome.own] at hown
  obtain ⟨hrow, hpos⟩ := Place.mk.inj (Option.some.inj hown)
  obtain ⟨n, -, hframed⟩ := hexact.framed (hrep.height ▸ h3)
  have htop : p.top = 0 := by
    have := hframed.view.top_le
    omega
  have hcurs : b.ownCurs = some ⟨0, b.first, 0⟩ := by
    rw [hrep.own, Page.cursor_of_row (r := f) (by rw [← hrow]; exact hf), hexact.toGood.own_id, ← hpos, hfirst]
  have hline : b.line b.first = .ok (p.lineOf 0 f) := by
    rw [hfirst]
    exact hrep.line hf
  refine ⟨hcurs, ?_, _, hline, fun id => ?_⟩
  · rw [hrep.top, htop, hrep.first]
  · have hown : b.own = .ok ⟨0, b.first, 0⟩ := by rw [Buffer.own, hcurs]
    rw [bcursorCopyOwn, hown, Except.ok_bind_eq, hline, Except.ok_bind_eq]

/-- A user joins a document and puts a line in above its first one. -/
theorem home_cursor_ab : ∃ b : Buffer ListRope, Hosted b ∧ b.texts = [[], "ab".toList] ∧
    b.ownCurs = some ⟨0, b.first, 0⟩ ∧ b.top = some b.first ∧
      ∃ f, b.line b.first = .ok f ∧ ∀ id, bcursorCopyOwn b id = bcursorNew b id f.id 0 := by
  have htest : returns (bufferFromFile (R := ListRope) (bytes "ab") 1 3 6 false) (fun b =>
      decide ((Op.copyOwn 5).Legal (HasCurs b)) && returns (Op.run b (.copyOwn 5)) fun x =>
        returns (Op.run x.1 (.insertLine 5)) fun y => decide (y.1.texts = [[], "ab".toList])) = true := by decide +kernel
  obtain ⟨b, hb, htest⟩ := exists_of_returns htest
  obtain ⟨hlegal, htest⟩ := (Bool.and_eq_true _ _).mp htest
  obtain ⟨⟨b₁, res₁⟩, hrun₁, htest⟩ := exists_of_returns htest
  obtain ⟨⟨b₂, res₂⟩, hrun₂, htexts⟩ := exists_of_returns htest
  have hby₁ : (Op.copyOwn 5).By 5 := rfl
  have hjoined : Hosted b₁ := .step (.load (by decide) hb) hby₁ (by decide) (of_decide_eq_true hlegal) hrun₁
  have hby₂ : (Op.insertLine 5).By 5 := rfl
  have hlegal₂ : (Op.insertLine 5).Legal (HasCurs b₁) := trivial
  have hhosted : Hosted b₂ := hjoined.step hby₂ (by decide) hlegal₂ hrun₂
  exact ⟨b₂, hhosted, of_decide_eq_true htexts, home_cursor hhosted⟩

end CoEditor
