-- SUMMARY: Lines against the scratch pad and the row buffer: as long as every join has room, nothing is written past their ends.
import CoEditor.Session.Files
import CoEditor.Session.Painting
import CoEditor.Session.Places

/-!
# Room for lines

A line is written to `b->sp`, which has `SP_SIZE` bytes, and to `cstr`, which
has `width * height + 1`. Typing looks at the number of characters in a line,
joining looks at nothing. `Op.Spares` is what keeps the lines short enough:
where text is put into a line, the bytes of both have room together.
-/

namespace CoEditor

/-- A string of `n` bytes fits the scratch pad, and an array of `size` bytes. -/
def Room (size : Int) (n : Nat) : Prop := n + 1 ≤ spSize ∧ (n : Int) + 1 ≤ size

instance (size : Int) (n : Nat) : Decidable (Room size n) := inferInstanceAs (Decidable (_ ∧ _))

theorem Room.mono {size : Int} {m n : Nat} (h : Room size n) (hle : m ≤ n) : Room size m := by
  obtain ⟨hsp, hsize⟩ := h
  constructor <;> omega

variable {R : Type} [Rope R]

/-! ## Lengths of ropes -/

namespace Rope

/-- "Insert the given utf8 string into the rope at the specified position.": wherever that is, nothing else goes in. -/
def InsertsOnly (R : Type) [Rope R] : Prop :=
  ∀ (r : R) (pos : Nat) (s : Bytes), (0 : UInt8) ∉ s → (writeCstr (insert r pos s)).length ≤ (writeCstr r).length + s.length

theorem length_del_le (r : R) (pos num : Nat) : (writeCstr (del r pos num)).length ≤ (writeCstr r).length := by
  have hcut : Utf8.encode (chars r) = Utf8.encode ((chars r).take pos) ++
      (Utf8.encode (((chars r).drop pos).take num) ++ Utf8.encode ((chars r).drop (pos + num))) := by
    rw [← Utf8.encode_append, ← Utf8.encode_append, ← List.drop_drop, List.take_append_drop, List.take_append_drop]
  rw [writeCstr_eq, writeCstr_eq, chars_del, hcut, Utf8.encode_append]
  simp only [List.length_append]
  omega

@[simp] theorem length_new : (writeCstr (new : R)).length = 0 := by rw [writeCstr_eq, chars_new]; rfl

@[simp] theorem length_copy (r : R) : (writeCstr (copy r)).length = (writeCstr r).length := by
  rw [writeCstr_eq, writeCstr_eq, chars_copy]

/-- A rope behind another one. -/
theorem length_join (r s : R) :
    (writeCstr (insert r (charCount r) (writeCstr s))).length = (writeCstr r).length + (writeCstr s).length := by
  have h0 := zero_notMem_writeCstr s
  rw [writeCstr_eq s] at h0 ⊢
  rw [writeCstr_eq, writeCstr_eq, charCount_eq, chars_insert r _ _ (Nat.le_refl _) h0, List.take_length, List.drop_length,
    List.append_nil, Utf8.encode_append, List.length_append]

/-- One character goes in, or nothing if the byte is no character. -/
theorem length_insert_hstr (hrope : InsertsOnly R) (r : R) (pos : Nat) (chr : UInt8) :
    (writeCstr (insert r pos (hstr chr))).length ≤
      (writeCstr r).length + if chr.toNat < 128 then (hstr chr).length else 0 := by
  have h0 : (0 : UInt8) ∉ hstr chr := by
    unfold hstr
    split
    · simp
    · next h => simpa using Ne.symm h
  split
  · exact hrope r pos (hstr chr) h0
  · next hchr =>
      have hne : chr ≠ 0 := by
        rintro rfl
        exact hchr (by decide)
      have hinvalid : ∀ cs, hstr chr ≠ Utf8.encode cs := fun cs => by
        rw [hstr, if_neg hne]
        exact (Utf8.encode_ne_singleton (Nat.le_of_not_lt hchr) cs).symm
      rw [writeCstr_eq, writeCstr_eq, chars_insert_invalid r pos _ h0 hinvalid]
      exact Nat.le_refl _

end Rope

/-! ## Documents -/

namespace Doc

/-- The number of bytes of `cstr`. -/
def cstrSize (d : Doc R) : Int := d.width * d.height + 1

/-- Every line of the document has room, an empty one too. -/
structure Roomy (size : Int) (d : Doc R) : Prop where
  cstrSize : d.cstrSize = size
  empty : Room size 0
  lines : ∀ l ∈ d.lines, Room size (Rope.writeCstr l.2).length

namespace Roomy

variable {size : Int} {d e : Doc R}

theorem of_lines (h : Roomy size d) (hsize : e.cstrSize = d.cstrSize) (hlines : e.lines = d.lines) : Roomy size e :=
  ⟨hsize.trans h.cstrSize, h.empty, hlines ▸ h.lines⟩

theorem strAt (h : Roomy size d) (k : Nat) : Room size (Rope.writeCstr (d.strAt k)).length := by
  rw [Doc.strAt]
  cases hl : d.lines[k]? with
  | none =>
      rw [Option.map_none, Option.getD_none, Rope.length_new]
      exact h.empty
  | some l => exact h.lines l (List.mem_of_getElem? hl)

theorem modifyStr (h : Roomy size d) {k : Nat} {f : R → R}
    (hf : ∀ l, d.lines[k]? = some l → Room size (Rope.writeCstr (f l.2)).length) : Roomy size (d.modifyStr k f) := by
  refine ⟨h.cstrSize, h.empty, fun l hl => ?_⟩
  obtain ⟨i, hi⟩ := List.getElem?_of_mem hl
  rw [Doc.modifyStr, List.getElem?_modify, Option.map_eq_map, Option.map_eq_some_iff] at hi
  obtain ⟨m, hm, rfl⟩ := hi
  split
  · next hk => exact hf m (hk ▸ hm)
  · exact h.lines m (List.mem_of_getElem? hm)

theorem del (h : Roomy size d) (k pos num : Nat) : Roomy size (d.modifyStr k (Rope.del · pos num)) :=
  h.modifyStr fun l hl => (h.lines l (List.mem_of_getElem? hl)).mono (Rope.length_del_le l.2 pos num)

theorem newLine (h : Roomy size d) (k : Nat) : Roomy size (d.newLine k) := by
  refine ⟨h.cstrSize, h.empty, fun l hl => ?_⟩
  obtain rfl | hl := List.eq_or_mem_of_mem_insertIdx hl
  · rw [Rope.length_new]
    exact h.empty
  · exact h.lines l hl

theorem newBelow (h : Roomy size d) (k : Nat) : Roomy size (d.newBelow k) := by
  unfold Doc.newBelow
  split
  · exact (h.newLine (k + 1)).of_lines rfl rfl
  · exact h.newLine (k + 1)

theorem splitText (h : Roomy size d) (k : Nat) (pos : Int) : Roomy size (d.splitText k pos) := by
  unfold Doc.splitText
  dsimp only
  refine (h.del k _ _).modifyStr fun _ _ => (h.strAt k).mono ((Rope.length_del_le _ _ _).trans ?_)
  rw [Doc.strAt]
  cases d.lines[k]? with
  | none => exact Nat.le_refl _
  | some l => exact Nat.le_of_eq (Rope.length_copy l.2)

theorem insertLine (h : Roomy size d) (id : Int) : Roomy size (d.insertLine id) := by
  have hcount : Roomy size (d.recount 1) := h.of_lines rfl rfl
  unfold Doc.insertLine
  split
  · exact h
  · next cur _ =>
      split
      · exact (hcount.newLine cur.row).of_lines rfl rfl
      · have hbelow := hcount.newBelow cur.row
        unfold Doc.insertBelow
        dsimp only
        split
        · exact (hbelow.splitText cur.row cur.pos).of_lines rfl rfl
        · exact hbelow.of_lines rfl rfl

theorem insert (hrope : Rope.InsertsOnly R) (h : Roomy size d) {id : Int} {chr : UInt8}
    (hroom : chr.toNat < 128 → ∀ cur, d.curs id = some cur → sizeT (d.width - 1) ≤ d.len cur.row ∨
      Room size ((Rope.writeCstr (d.strAt cur.row)).length + (hstr chr).length)) : Roomy size (d.insert id chr) := by
  unfold Doc.insert
  split
  · exact h
  · next cur hcur =>
      split
      · exact h
      · next hfull =>
          have htyped : Roomy size (d.modifyStr cur.row (Rope.insert · (sizeT cur.pos) (hstr chr))) := by
            refine h.modifyStr fun l hl => Room.mono ?_ (Rope.length_insert_hstr hrope l.2 (sizeT cur.pos) chr)
            have hstrAt : d.strAt cur.row = l.2 := by rw [Doc.strAt, hl]; rfl
            split
            · next hascii => exact hstrAt ▸ (hroom hascii cur hcur).resolve_left hfull
            · exact h.lines l (List.mem_of_getElem? hl)
          exact htyped.of_lines rfl rfl

theorem join (h : Roomy size d) (id : Int) {k : Nat}
    (hroom : Room size ((Rope.writeCstr (d.strAt k)).length + (Rope.writeCstr (d.strAt (k + 1))).length)) :
    Roomy size (d.join id k) := by
  have hcount : Roomy size (((d.recount (-1)).put id ⟨k, d.len k⟩).raiseLast k) := by
    unfold raiseLast
    split <;> exact h.of_lines rfl rfl
  generalize hd₁ : ((d.recount (-1)).put id ⟨k, d.len k⟩).raiseLast k = d₁ at hcount
  have hlines : d₁.lines = d.lines := by
    rw [← hd₁]
    unfold raiseLast
    split <;> rfl
  have hstrAt : ∀ j, d₁.strAt j = d.strAt j := fun j => by rw [Doc.strAt, Doc.strAt, hlines]
  have hjoin : Roomy size (d₁.joinText k) := by
    unfold joinText
    dsimp only
    split
    · refine hcount.modifyStr fun l hl => ?_
      have hl' : d.strAt k = l.2 := by rw [← hstrAt, Doc.strAt, hl]; rfl
      rw [Rope.length_join, hstrAt, ← hl']
      exact hroom
    · exact hcount
  simp only [Doc.join, hd₁]
  exact ⟨hjoin.cstrSize, h.empty, fun l hl => hjoin.lines l (List.mem_of_mem_eraseIdx hl)⟩

theorem delete (h : Roomy size d) {id : Int} (hroom : ∀ cur, d.curs id = some cur → ¬ 0 < cur.pos → cur.row ≠ 0 →
    Room size ((Rope.writeCstr (d.strAt (cur.row - 1))).length + (Rope.writeCstr (d.strAt cur.row)).length)) :
    Roomy size (d.del id) := by
  unfold Doc.del
  split
  · exact h
  · next cur hcur =>
      split
      · exact (h.del cur.row _ 1).of_lines rfl rfl
      · next hpos =>
          split
          · exact h
          · next h0 =>
              refine h.join id ?_
              rw [Nat.sub_add_cancel (Nat.pos_of_ne_zero h0)]
              exact hroom cur hcur hpos h0

theorem restore (h : Roomy size d) (u : Bool) : Roomy size (d.restore u) := by
  refine ⟨h.cstrSize, h.empty, fun l hl => ?_⟩
  obtain ⟨m, hm, rfl⟩ := List.mem_map.mp hl
  rw [Rope.writeCstr_eq, Rope.chars_reread, ← Rope.writeCstr_eq]
  exact h.lines m hm

theorem rewind (h : Roomy size d) (n : Nat) : Roomy size (d.rewind n) := by
  unfold Doc.rewind
  exact List.foldlRecOn (List.range n) _ h fun e he _ _ => he.of_lines rfl rfl

end Roomy

end Doc

/-! ## Sessions with room -/

/-- Number of bytes in line `k`. -/
def Buffer.lineBytes (b : Buffer R) (k : Nat) : Nat := (b.content[k]?.map fun l => (Utf8.encode l.2).length).getD 0

/-- The call puts text into a line only where the bytes of both have room together. -/
def Op.Spares (b : Buffer R) : Op → Prop
  | .insert id chr => chr.toNat < 128 → ∀ x ∈ b.place id, sizeT (b.width - 1) ≤ b.lineLen x.row ∨
      Room b.cstrSize (b.lineBytes x.row + (hstr chr).length)
  | .del id => ∀ x ∈ b.place id, ¬ 0 < x.pos → x.row ≠ 0 →
      Room b.cstrSize (b.lineBytes (x.row - 1) + b.lineBytes x.row)
  | _ => True

instance (b : Buffer R) : DecidablePred (Op.Spares b)
  | .insert id chr => inferInstanceAs (Decidable (chr.toNat < 128 → ∀ x ∈ b.place id, _ ∨ _))
  | .del id => inferInstanceAs (Decidable (∀ x ∈ b.place id, ¬ _ → _ ≠ 0 → Room _ _))
  | .new .. | .copyOwn _ | .free _ | .move .. | .insertLine _ => .isTrue trivial

/-- So does every character that is typed while a file is loaded. -/
def SparesLoad : Bytes → Buffer R → Prop
  | [], _ => True
  | c :: data, b => (c ≠ 10 → (Op.insert 0 c).Spares b) ∧ ∀ b' ∈ (loadByte b c).toOption, SparesLoad data b'

instance decidableSparesLoad : ∀ (data : Bytes) (b : Buffer R), Decidable (SparesLoad data b)
  | [], _ => .isTrue trivial
  | _ :: data, _ =>
      have := decidableSparesLoad data
      inferInstanceAs (Decidable (_ ∧ _))

/-- The buffers that arise when every text that is put into a line has room there. -/
inductive Sparing : Buffer R → Prop where
  | load {data : Bytes} {id height width : Int} {ui : Bool} {b₀ b : Buffer R} : 2 ≤ height → 0 ≤ width →
      bufferEmpty id height width = .ok b₀ → SparesLoad data b₀ →
      bufferFromFile data id height width ui = .ok b → Sparing b
  | reload {b b' : Buffer R} {s : Bytes} {u : Bool} : Sparing b → bufferSerialize b = .ok s →
      bufferDeserialize s u = .ok b' → Sparing b'
  | step {b b' : Buffer R} {op : Op} {res : Bres} : Sparing b → op.Legal (HasCurs b) → op.Spares b →
      op.run b = .ok (b', res) → Sparing b'

theorem Sparing.reachable {b : Buffer R} (hb : Sparing b) : Reachable b := by
  induction hb with
  | load hheight _ _ _ hrun => exact .load hheight hrun
  | reload _ hs hrun ih => exact .reload ih hs hrun
  | step _ hlegal _ hrun ih => exact .step ih hlegal trivial hrun

/-- Typing ASCII characters never takes too much room: there are fewer of them in a line than the width. -/
theorem Op.spares_insert {b : Buffer R} {id : Int} {chr : UInt8} (hwidth : 1 ≤ b.width) (hsp : b.width ≤ spSize)
    (hheight : 1 ≤ b.height) (hascii : ∀ x ∈ b.place id, b.lineBytes x.row = b.lineLen x.row) : (Op.insert id chr).Spares b := by
  intro _ x hx
  refine or_iff_not_imp_left.mpr fun hfull => ?_
  obtain ⟨w, hw⟩ : ∃ w : Nat, b.width = w + 1 := ⟨(b.width - 1).toNat, by omega⟩
  rw [hw, Int.add_sub_cancel, sizeT_natCast] at hfull
  have hlen : (hstr chr).length ≤ 1 := by
    unfold hstr
    split <;> simp
  have harea : b.width * 1 ≤ b.width * b.height := Int.mul_le_mul_of_nonneg_left hheight (by omega)
  rw [hascii x hx]
  unfold Room Buffer.cstrSize
  constructor <;> omega

namespace Holds

variable {b : Buffer R} {d : Doc R}

theorem cstrSize (h : Holds b d) : b.cstrSize = d.cstrSize := by
  obtain ⟨p, hrep, -, rfl⟩ := h
  rw [Buffer.cstrSize, hrep.width, hrep.height]
  rfl

theorem lineBytes (h : Holds b d) (k : Nat) : b.lineBytes k = (Rope.writeCstr (d.strAt k)).length := by
  rw [Buffer.lineBytes, h.content, Doc.content, List.getElem?_map, Option.map_map, Doc.strAt]
  cases d.lines[k]? with
  | none => rw [Option.map_none, Option.map_none, Option.getD_none, Option.getD_none, Rope.length_new]
  | some l =>
      rw [Option.map_some, Option.map_some, Option.getD_some, Option.getD_some, Rope.writeCstr_eq]
      rfl

/-- A call that puts text only where there is room leaves room in every line. -/
theorem effect_roomy (hrope : Rope.InsertsOnly R) (h : Holds b d) (hd : d.Roomy b.cstrSize) {op : Op} (hop : op.Spares b)
    {res : Bres} {e : Doc R} (heffect : op.Effect d res e) : e.Roomy b.cstrSize := by
  cases heffect with
  | newFull | copyOwnFull | freeOwn | insertNone => exact hd
  | new | copyOwn | free | move => exact hd.of_lines rfl rfl
  | insertLine => exact hd.insertLine _
  | insert =>
      refine hd.insert hrope fun hascii cur hcur => ?_
      have hroom := hop hascii cur (by rw [h.place, hcur]; rfl)
      rwa [h.width, h.lineLen, h.lineBytes] at hroom
  | del =>
      refine hd.delete fun cur hcur hpos h0 => ?_
      have hroom := hop cur (by rw [h.place, hcur]; rfl) hpos h0
      rwa [h.lineBytes, h.lineBytes] at hroom

end Holds

/-- While a file is loaded the lines have room. -/
theorem Doc.Roomy.loadBytes (hrope : Rope.InsertsOnly R) {size : Int} (data : Bytes) : ∀ {b : Buffer R} {d : Doc R},
    HoldsExact b d → d.Roomy size → SparesLoad data b → (d.loadBytes data).Roomy size := by
  induction data with
  | nil => exact fun _ hd _ => hd
  | cons c data ih =>
      rintro b d h hd ⟨hc, hrest⟩
      obtain ⟨b₁, hrun, h₁⟩ := loadByte_exact h c
      refine ih h₁ ?_ (hrest b₁ (by rw [hrun]; rfl))
      have hsize : b.cstrSize = size := h.sound.holds.cstrSize.trans hd.cstrSize
      unfold Doc.loadByte
      split
      · exact hd.insertLine 0
      · next hne =>
          obtain ⟨x, hx⟩ := h.sound.holds.own
          exact hsize ▸ h.sound.holds.effect_roomy hrope (hsize.symm ▸ hd) (hc hne) (.insert (by simp [hx]))

/-- Every line of a session with room has room. -/
theorem Sparing.roomy (hrope : Rope.InsertsOnly R) {b : Buffer R} (hb : Sparing b) :
    ∃ d, HoldsSound b d ∧ d.Roomy b.cstrSize := by
  induction hb with
  | load hheight hwidth hempty hspares hrun =>
      rename_i data id height width ui b₀ b
      obtain ⟨n, rfl⟩ : ∃ n : Nat, height = n := ⟨height.toNat, by omega⟩
      obtain ⟨b₀', hempty', h₀⟩ := bufferEmpty_exact (R := R) id width (n := n) (by omega)
      obtain rfl := Except.ok.inj (hempty.symm.trans hempty')
      obtain ⟨b', hrun', h⟩ := bufferFromFile_exact (R := R) data id width (n := n) (by omega) ui
      obtain rfl := Except.ok.inj (hrun.symm.trans hrun')
      have hd₀ : (Doc.empty (R := R) width n).Roomy (width * n + 1) := by
        have hroom : Room (width * n + 1) 0 := ⟨by decide, by
          have harea := Int.mul_nonneg hwidth (Int.natCast_nonneg n)
          omega⟩
        refine ⟨rfl, hroom, fun l hl => ?_⟩
        obtain ⟨i, -, rfl⟩ := List.mem_map.mp hl
        rw [Rope.length_new]
        exact hroom
      have hd := ((hd₀.loadBytes hrope data h₀ hspares).rewind (data.count 10))
      have hload : (Doc.load (R := R) data width n ui).Roomy (width * n + 1) := by
        cases ui <;> exact hd.of_lines rfl rfl
      refine ⟨_, h.sound, ?_⟩
      rw [h.sound.holds.cstrSize, hload.cstrSize]
      exact hload
  | reload _ hs hrun ih =>
      obtain ⟨d, h, hd⟩ := ih
      have h' := h.reload hs hrun
      refine ⟨_, h', ?_⟩
      rw [h'.holds.cstrSize, (hd.restore _).cstrSize]
      exact hd.restore _
  | step _ hlegal hspares hrun ih =>
      obtain ⟨d, h, hd⟩ := ih
      obtain ⟨e, h', heffect⟩ := h.run _ ((Op.Legal.congr h.hasCurs).mp hlegal) hrun
      have he := h.holds.effect_roomy hrope hd hspares heffect
      refine ⟨e, h', ?_⟩
      rw [h'.holds.cstrSize, he.cstrSize]
      exact he

/-! ## Writing inside the arrays -/

section
variable {b : Buffer R}

theorem printf_inside (s : Bytes) : FaultsIn (· ≠ .overflow) (printf s) := by
  fun_induction printf s with
  | case1 => exact .ok _
  | case2 => exact FaultsIn.error_iff.mpr (by decide)
  | case3 => exact .ok _
  | case4 s ih => exact ih.map _
  | case5 => exact FaultsIn.error_iff.mpr (by decide)
  | case6 c d s hc ih => exact ih.map _

omit [Rope R] in
theorem Buffer.line_inside (b : Buffer R) (q : Ptr) : FaultsIn (· ≠ .overflow) (b.line q) := by
  unfold Buffer.line
  split
  · exact .ok _
  · exact FaultsIn.error_iff.mpr (by decide)

omit [Rope R] in
theorem Buffer.own_inside (b : Buffer R) : FaultsIn (· ≠ .overflow) b.own := by
  unfold Buffer.own
  split
  · exact .ok _
  · exact FaultsIn.error_iff.mpr (by decide)

omit [Rope R] in
theorem uiPeers_inside (inch : Inch) (b : Buffer R) (i : Nat) (q : Ptr) (calls : List UiCall) :
    FaultsIn (· ≠ .overflow) (uiPeers inch b i q calls) := by
  refine FaultsIn.foldlM (fun calls o => ?_) _ _
  cases o with
  | none => exact .ok _
  | some c => exact (b.line_inside c.ownLine).bind fun _ => .ok _

/-- Only a line that is too long for `cstr` is written past its end. -/
theorem Trail.uiRows_inside (inch : Inch) : ∀ {n : Nat} {lit : Option Ptr} {xs : List (Ptr × Line R)}, Trail b.heap lit xs →
    (∀ x ∈ xs, Room b.cstrSize (Rope.writeCstr x.2.str).length) → ∀ (i : Nat) (calls : List UiCall)
      (pos : Option (Int × Int)), FaultsIn (· ≠ .overflow) (CoEditor.uiRows inch b n i lit calls pos) := by
  intro n
  induction n with
  | zero => exact fun _ _ _ _ _ => .ok _
  | succ n ih =>
      intro lit xs ht hroom i calls pos
      cases ht with
      | nil => exact FaultsIn.error_iff.mpr (by decide)
      | @cons q l xs hl ht =>
          rw [List.forall_mem_cons] at hroom
          have hline : b.line q = .ok l := by simp [Buffer.line, hl]
          have hcstr : b.writeCstr l.str = .ok (Rope.writeCstr l.str) := by rw [Buffer.writeCstr, if_pos hroom.1.2]
          rw [CoEditor.uiRows]
          refine b.own_inside.bind fun own => ?_
          simp only [hline, hcstr, Except.ok_bind_eq]
          refine (printf_inside _).bind fun s => (uiPeers_inside inch b i q _).bind fun calls => ?_
          cases hnext : l.next with
          | none => exact .ok _
          | some r => exact ih (hnext ▸ ht) hroom.2 _ _ _

theorem Rep.uiUpdate_inside {p : Page R} (h : Rep b p) (hroom : ∀ x ∈ b.chain, Room b.cstrSize (Rope.writeCstr x.2.str).length)
    (inch : Inch) : FaultsIn (· ≠ .overflow) (CoEditor.uiUpdate inch b) := by
  have htrail : Trail b.heap b.top (b.chain.drop p.top) := h.top ▸ h.wellLinked.chain.2 p.top
  rw [h.uiUpdate_eq]
  refine (htrail.uiRows_inside inch (fun x hx => hroom x (List.mem_of_mem_drop hx)) _ _ _).bind ?_
  rintro ⟨calls, pos⟩
  cases pos with
  | none => exact FaultsIn.error_iff.mpr (by decide)
  | some pos => exact .ok _

/-- As long as every text that is put into a line has room there, every line fits the scratch pad and `cstr`, and no
    deletion, file, snapshot or paint is written past their ends. -/
theorem scratch_suffices (hrope : Rope.InsertsOnly R) (hb : Sparing b) :
    (∀ x ∈ b.chain, Room b.cstrSize (Rope.writeCstr x.2.str).length) ∧ (∀ id, bcursorDel b id ≠ .error .overflow) ∧
      bufferSave b ≠ .error .overflow ∧ bufferSerialize b ≠ .error .overflow ∧
      ∀ inch, uiUpdate inch b ≠ .error .overflow := by
  obtain ⟨d, hsound, hd⟩ := hb.roomy hrope
  have hchain : ∀ x ∈ b.chain, Room b.cstrSize (Rope.writeCstr x.2.str).length := by
    intro x hx
    have hmem : (x.2.id, Rope.chars x.2.str) ∈ d.content := hsound.holds.content ▸ List.mem_map_of_mem hx
    obtain ⟨l, hl, heq⟩ := List.mem_map.mp hmem
    rw [Rope.writeCstr_eq, ← (Prod.mk.inj heq).2, ← Rope.writeCstr_eq]
    exact hd.lines l hl
  have hfits : b.Fits := fun x hx => (hchain x hx).1
  have hsave : bufferSave b = .ok (stored b.texts) := by
    refine hsound.holds.bufferSave.mpr ⟨fun t ht => ?_, rfl⟩
    rw [hsound.holds.texts, Doc.texts] at ht
    obtain ⟨l, hl, rfl⟩ := List.mem_map.mp ht
    rw [FitsSp, ← Rope.writeCstr_eq]
    exact (hd.lines l (List.mem_of_mem_take hl)).1
  obtain ⟨p, hrep, hp, rfl⟩ := hsound
  refine ⟨hchain, fun id => ?_, ?_, ?_, fun inch h => hrep.uiUpdate_inside hchain inch _ h rfl⟩
  · have hjoin : p.JoinFits id := fun _ c _ _ _ _ => hrep.fits_iff.mp hfits c.row
    exact ((hrep.run hp.toGood (.del id)).error_iff .overflow).not.mpr (hp.toGood.bcursorDel_fits hjoin)
  · simp [hsave]
  · obtain ⟨s, b', hs, -⟩ := hrep.restore hp.toGood (hp.top_le_last hrep.bottom_lt) (hrep.fits_iff.mp hfits) true
    simp [hs]

end

theorem ListRope.insertsOnly : Rope.InsertsOnly ListRope := by
  intro r pos s _
  show (Utf8.encode (r.insert pos s).chars).length ≤ (Utf8.encode r.chars).length + s.length
  cases hdec : Utf8.decode (cstr s) with
  | none =>
      rw [insert_of_invalid r pos hdec]
      exact Nat.le_add_right _ _
  | some cs =>
      have hcs : (Utf8.encode cs).length ≤ s.length := by
        rw [Utf8.encode_decode hdec]
        exact (List.takeWhile_prefix _).length_le
      have hparts : (Utf8.encode r.chars).length = (Utf8.encode (r.chars.take pos)).length + (Utf8.encode (r.chars.drop pos)).length := by
        rw [← List.length_append, ← Utf8.encode_append, List.take_append_drop]
      rw [insert_of_decode r pos hdec, hparts]
      simp only [Utf8.encode_append, List.length_append]
      omega

/-- Two short lines are loaded and joined. -/
theorem scratch_suffices_abc : ∃ b : Buffer ListRope, Sparing b ∧ b.texts = ["abc".toList] ∧
    (∀ x ∈ b.chain, Room b.cstrSize (Rope.writeCstr x.2.str).length) ∧ (∀ id, bcursorDel b id ≠ .error .overflow) ∧
      bufferSave b ≠ .error .overflow ∧ bufferSerialize b ≠ .error .overflow ∧
      ∀ inch, uiUpdate inch b ≠ .error .overflow := by
  have htest : returns (bufferEmpty (R := ListRope) 1 3 3) (fun b₀ => decide (SparesLoad (bytes "ab\nc") b₀) &&
      returns (bufferFromFile (R := ListRope) (bytes "ab\nc") 1 3 3 true) fun b =>
        returns (Op.run b (.move 0 .down)) fun x => decide ((Op.del 0).Spares x.1) &&
          returns (Op.run x.1 (.del 0)) fun y => decide (y.1.texts = ["abc".toList])) = true := by
    decide +kernel
  obtain ⟨b₀, hempty, htest⟩ := exists_of_returns htest
  rw [Bool.and_eq_true, decide_eq_true_eq] at htest
  obtain ⟨hspares, htest⟩ := htest
  obtain ⟨b, hrun, htest⟩ := exists_of_returns htest
  obtain ⟨⟨b₁, res₁⟩, hmove, htest⟩ := exists_of_returns htest
  rw [Bool.and_eq_true, decide_eq_true_eq] at htest
  obtain ⟨hjoin, htest⟩ := htest
  obtain ⟨⟨b₂, res₂⟩, hdel, htexts⟩ := exists_of_returns htest
  have hlegal : (Op.move 0 .down).Legal (HasCurs b) ∧ (Op.del 0).Legal (HasCurs b₁) := ⟨trivial, trivial⟩
  have hfree : (Op.move 0 .down).Spares b := trivial
  have hload : Sparing b := .load (by decide) (by decide) hempty hspares hrun
  have hsparing : Sparing b₂ := .step (.step hload hlegal.1 hfree hmove) hlegal.2 hjoin hdel
  exact ⟨b₂, hsparing, of_decide_eq_true htexts, scratch_suffices ListRope.insertsOnly hsparing⟩

/-- Four lines of two characters are joined. The line that comes out is longer than `cstr`. -/
theorem joins_overflow : ∃ b : Buffer ListRope, Reachable b ∧ b.texts = ["abcdefgh".toList] ∧
    (∃ x ∈ b.chain, b.width * b.height + 1 < ((Rope.writeCstr x.2.str).length : Int) + 1) ∧
      uiUpdate blankScreen b = .error .overflow := by
  have htest : returns (bufferFromFile (R := ListRope) (bytes "ab\ncd\nef\ngh") 1 2 3 true) (fun b =>
      (replay b [.move 0 .down, .move 0 .down, .move 0 .down, .del 0, .move 0 .left, .move 0 .left, .del 0,
        .move 0 .left, .move 0 .left, .del 0]).any fun b => decide (b.texts = ["abcdefgh".toList] ∧
          (∃ x ∈ b.chain, b.width * b.height + 1 < ((Rope.writeCstr x.2.str).length : Int) + 1) ∧
          stops (uiUpdate blankScreen b) .overflow = true)) = true := by
    decide +kernel
  obtain ⟨b₀, hb₀, htest⟩ := exists_of_returns htest
  obtain ⟨b, hb, hP⟩ := (Option.any_eq_true _ _).mp htest
  obtain ⟨htexts, hlong, hstops⟩ := of_decide_eq_true hP
  exact ⟨b, (Reached.load (by decide) hb₀).replay hb, htexts, hlong, eq_error_of_stops hstops⟩

end CoEditor
