-- SUMMARY: Calls that have to do with different lines of a sheet can be made in either order, also when they break or join lines.
import CoEditor.Lib.Crossing
import CoEditor.Session.Sheets

/-!
# Calls apart

Two calls are apart if both move a cursor, or if all lines that one of them has
to do with are above those of the other. A sheet is then cut between these
lines: each call changes one of the parts as if the other one was not there.
-/

namespace CoEditor

namespace Op

/-- The call, whose cursor is at `x`, has to do with the line above. -/
def Above (x : Place) : Op → Prop
  | .move _ .up => True
  | .move _ .left | .del _ => x.pos ≤ 0
  | _ => False

/-- The call, whose cursor is at `x`, has to do with the line below. -/
def Below (s : Sheet) (x : Place) : Op → Prop
  | .move _ .down => True
  | .move _ .right => (s.text x.row).length ≤ x.pos
  | _ => False

def IsMove : Op → Prop
  | .move .. => True
  | _ => False

instance (x : Place) : DecidablePred (Above x)
  | .move _ .up => .isTrue trivial
  | .move _ .left | .del _ => inferInstanceAs (Decidable (_ ≤ _))
  | .move _ .down | .move _ .right | .new .. | .copyOwn _ | .free _ | .insert .. | .insertLine _ => .isFalse id

instance (s : Sheet) (x : Place) : DecidablePred (Below s x)
  | .move _ .down => .isTrue trivial
  | .move _ .right => inferInstanceAs (Decidable (_ ≤ _))
  | .move _ .up | .move _ .left | .new .. | .copyOwn _ | .free _ | .insert .. | .insertLine _ | .del _ => .isFalse id

instance : DecidablePred IsMove
  | .move .. => .isTrue trivial
  | .new .. | .copyOwn _ | .free _ | .insert .. | .insertLine _ | .del _ => .isFalse id

/-- All lines that call `op` has to do with are above those of call `op'`. -/
def Over (s : Sheet) (x y : Place) (op op' : Op) : Prop :=
  y.row < s.texts.length ∧ (if op.Below s x then x.row + 1 else x.row) < if op'.Above y then y.row - 1 else y.row

/-- The two calls can be made in either order. -/
def Apart (s : Sheet) (op op' : Op) : Prop :=
  op.cursor ≠ op'.cursor ∧ (op.IsMove ∧ op'.IsMove ∨
    ∃ x ∈ s.curs op.cursor, ∃ y ∈ s.curs op'.cursor, op.Over s x y op' ∨ op'.Over s y x op)

/-- Call `op` is apart from each of the calls `ops`, when these are made one after the other. -/
def ApartFrom (op : Op) : Sheet → List Op → Prop
  | _, [] => True
  | s, op' :: ops => op.Apart s op' ∧ ApartFrom op (s.apply op') ops

end Op

instance (s : Sheet) (x y : Place) (op op' : Op) : Decidable (op.Over s x y op') := inferInstanceAs (Decidable (_ ∧ _))

instance (s : Sheet) (op op' : Op) : Decidable (op.Apart s op') := inferInstanceAs (Decidable (_ ∧ (_ ∧ _ ∨ _)))

instance decidableApartFrom (op : Op) : ∀ (s : Sheet) (ops : List Op), Decidable (op.ApartFrom s ops)
  | _, [] => .isTrue trivial
  | s, op' :: ops => @instDecidableAnd _ _ _ (decidableApartFrom op (s.apply op') ops)

namespace Sheet

/-! ## One sheet on top of another -/

/-- The place that has `n` further lines above it. -/
def lower (n : Nat) (y : Place) : Place := { y with row := n + y.row }

/-- The lines of `a` and, below them, those of `b`. -/
def stack (a b : Sheet) : Sheet where
  width := a.width
  texts := a.texts ++ b.texts
  curs i := (a.curs i).or ((b.curs i).map (lower a.texts.length))

/-- No cursor is below the last line. -/
def Fits (a : Sheet) : Prop := ∀ i x, a.curs i = some x → x.row < a.texts.length

variable {s a b : Sheet} {op op' : Op} {x y : Place} {c k n : Nat} {v w : Int}

/-- A sheet can be cut anywhere. -/
theorem exists_stack (s : Sheet) (hc : c ≤ s.texts.length) : ∃ a b : Sheet, s = a.stack b ∧ a.texts.length = c ∧ a.Fits ∧
    b.width = a.width ∧ (∀ i x, s.curs i = some x → x.row < c → a.curs i = some x) ∧
    ∀ i x, s.curs i = some x → c ≤ x.row → a.curs i = none ∧ ∃ y, b.curs i = some y ∧ x = lower c y := by
  let a : Sheet := ⟨s.width, s.texts.take c, fun i => (s.curs i).bind fun x => if x.row < c then some x else none⟩
  let b : Sheet := ⟨s.width, s.texts.drop c, fun i => (s.curs i).bind fun x => if x.row < c then none else some ⟨x.row - c, x.pos⟩⟩
  have hlen : a.texts.length = c := by simp only [a, List.length_take, Nat.min_eq_left hc]
  have htop : ∀ i x, s.curs i = some x → x.row < c → a.curs i = some x := by
    intro i x hx hlt
    simp only [a, hx, Option.bind_some, if_pos hlt]
  have hbottom : ∀ i x, s.curs i = some x → c ≤ x.row → a.curs i = none ∧ b.curs i = some ⟨x.row - c, x.pos⟩ := by
    intro i x hx hle
    simp only [a, b, hx, Option.bind_some, if_neg (Nat.not_lt.mpr hle), and_self]
  have hlower : ∀ x : Place, c ≤ x.row → x = lower c ⟨x.row - c, x.pos⟩ := by
    intro x hle
    rw [lower, Nat.add_sub_cancel' hle]
  refine ⟨a, b, ?_, hlen, fun i x hx => ?_, rfl, htop, fun i x hx hle => ?_⟩
  · ext1
    · rfl
    · exact (List.take_append_drop c s.texts).symm
    · funext i
      simp only [stack, hlen]
      cases hx : s.curs i with
      | none => simp only [a, b, hx, Option.bind_none, Option.map_none, Option.or_none]
      | some x =>
          rcases Nat.lt_or_ge x.row c with hlt | hle
          · rw [htop i x hx hlt, Option.some_or]
          · obtain ⟨ha, hb⟩ := hbottom i x hx hle
            rw [ha, hb, Option.none_or, Option.map_some, ← hlower x hle]
  · obtain ⟨z, hz, hsome⟩ := Option.bind_eq_some_iff.mp hx
    split at hsome
    · next hlt =>
        obtain rfl := Option.some.inj hsome
        rwa [hlen]
    · cases hsome
  · obtain ⟨ha, hb⟩ := hbottom i x hx hle
    exact ⟨ha, _, hb, hlower x hle⟩

theorem stack_text_top (hk : k < a.texts.length) (b : Sheet) : (a.stack b).text k = a.text k := by
  rw [text, text, stack, List.getElem?_append_left hk]

theorem stack_text_bottom (a b : Sheet) (k : Nat) : (a.stack b).text (a.texts.length + k) = b.text k := by
  rw [text, text, stack, List.getElem?_append_right (Nat.le_add_right _ _), Nat.add_sub_cancel_left]

theorem edit_length {new : List (List Char)} {f : Int → Place → Place} (hk : k + n ≤ s.texts.length) :
    (s.edit k n new f).texts.length = s.texts.length - n + new.length := by
  simp only [edit, List.length_append, List.length_take, List.length_drop]
  omega

/-- An edit of the upper sheet. -/
theorem stack_edit_top {new : List (List Char)} {f g : Int → Place → Place} (hk : k + n ≤ a.texts.length)
    (ha : ∀ i y, a.curs i = some y → g i y = f i y)
    (hb : ∀ i y, a.curs i = none → g i (lower a.texts.length y) = lower (a.texts.length - n + new.length) y) :
    (a.stack b).edit k n new g = (a.edit k n new f).stack b := by
  ext1
  · rfl
  · simp only [edit, stack]
    rw [List.take_append_of_le_length (by omega), List.drop_append_of_le_length hk, ← List.append_assoc]
  · funext i
    simp only [stack, edit_length hk]
    show ((a.curs i).or _).map (g i) = ((a.curs i).map (f i)).or _
    cases hx : a.curs i with
    | none =>
        rw [Option.none_or, Option.map_none, Option.none_or, Option.map_map]
        exact Option.map_congr fun y _ => hb i y hx
    | some x => rw [Option.some_or, Option.map_some, Option.map_some, Option.some_or, ha i x hx]

/-- An edit of the lower sheet. -/
theorem stack_edit_bottom {new : List (List Char)} {f g : Int → Place → Place} (ha : ∀ i y, a.curs i = some y → g i y = y)
    (hb : ∀ i y, g i (lower a.texts.length y) = lower a.texts.length (f i y)) :
    (a.stack b).edit (a.texts.length + k) n new g = a.stack (b.edit k n new f) := by
  ext1
  · rfl
  · simp only [edit, stack]
    rw [List.take_length_add_append, Nat.add_assoc, List.drop_length_add_append, List.append_assoc, List.append_assoc, List.append_assoc]
  · funext i
    simp only [stack]
    show ((a.curs i).or _).map (g i) = (a.curs i).or (((b.curs i).map (f i)).map _)
    cases hx : a.curs i with
    | none =>
        rw [Option.none_or, Option.none_or, Option.map_map, Option.map_map]
        exact Option.map_congr fun y _ => hb i y
    | some x => rw [Option.some_or, Option.some_or, Option.map_some, ha i x hx]

/-! ## A call in one of two sheets -/

theorem stack_curs_top (h : a.curs v = some x) (b : Sheet) : (a.stack b).curs v = some x := by
  show (a.curs v).or _ = _
  rw [h, Option.some_or]

theorem stack_curs_bottom (ha : a.curs v = none) (hb : b.curs v = some y) :
    (a.stack b).curs v = some (lower a.texts.length y) := by
  show (a.curs v).or ((b.curs v).map _) = _
  rw [ha, hb, Option.none_or, Option.map_some]

/-- A call in the upper sheet, if it has nothing to do with the line below that. -/
theorem act_top (b : Sheet) (hx : a.curs op.cursor = some x) (hrow : x.row < a.texts.length)
    (hbelow : op.Below a x → x.row + 1 < a.texts.length) : (a.stack b).act x op = (a.act x op).stack b := by
  have htext := stack_text_top hrow b
  have hother : ∀ {i}, a.curs i = none → i ≠ op.cursor := by
    rintro i hi rfl
    cases hi.symm.trans hx
  cases op with
  | new | copyOwn | free => rfl
  | move v dir =>
      have hlen : (a.stack b).texts.length = a.texts.length + b.texts.length := List.length_append
      have hstep : (a.stack b).step x dir = a.step x dir := by
        have habove := stack_text_top (k := x.row - 1) (a := a) (by omega) b
        cases dir with
        | up => simp only [step, habove]
        | down =>
            have hlt := hbelow trivial
            simp only [step, hlen, stack_text_top hlt b, if_pos hlt, if_pos (Nat.lt_add_right _ hlt)]
        | left => simp only [step, habove]
        | right =>
            simp only [step, htext, hlen]
            split
            · rfl
            · next hpos =>
                have hlt := hbelow (Int.not_lt.mp hpos)
                rw [if_pos hlt, if_pos (Nat.lt_add_right _ hlt)]
      simp only [act, hstep]
      refine stack_edit_top (Nat.le_of_lt hrow) (fun i y _ => rfl) fun i y hi => ?_
      rw [if_neg (show i ≠ v from hother hi), List.length_nil]
      rfl
  | insert v chr =>
      simp only [act, htext]
      show (if sizeT (a.width - 1) ≤ _ then _ else _) = Sheet.stack (if _ then _ else _) b
      split
      · rfl
      · refine stack_edit_top hrow (fun i y _ => rfl) fun i y hi => ?_
        rw [if_neg (show i ≠ v from hother hi), List.length_singleton]
        grind [lower]
  | insertLine v =>
      simp only [act, htext]
      refine stack_edit_top hrow (fun i y _ => rfl) fun i y hi => ?_
      rw [if_neg (show i ≠ v from hother hi)]
      simp only [List.length_cons, List.length_nil]
      grind [lower, Doc.breakPlace]
  | del v =>
      have habove := stack_text_top (k := x.row - 1) (a := a) (by omega) b
      simp only [act, htext, habove]
      split
      · refine stack_edit_top hrow (fun i y _ => rfl) fun i y hi => ?_
        rw [if_neg (show i ≠ v from hother hi), List.length_singleton]
        grind [lower]
      · split
        · rfl
        · refine stack_edit_top (by omega) (fun i y _ => rfl) fun i y hi => ?_
          rw [if_neg (show i ≠ v from hother hi), List.length_singleton]
          grind [lower, Doc.joinPlace]

/-- A call in the lower sheet, if it has nothing to do with the line above that. -/
theorem act_bottom (hfits : a.Fits) (hwidth : b.width = a.width) (hx : b.curs op.cursor = some y) (ha : a.curs op.cursor = none)
    (habove : op.Above y → 0 < y.row) : (a.stack b).act (lower a.texts.length y) op = a.stack (b.act y op) := by
  have htext := stack_text_bottom a b y.row
  have hother : ∀ {i z}, a.curs i = some z → i ≠ op.cursor := by
    rintro i z hi rfl
    cases hi.symm.trans ha
  have hprev : 0 < y.row → a.texts.length + y.row ≠ 0 ∧ a.texts.length + y.row - 1 = a.texts.length + (y.row - 1) ∧
      (a.stack b).text (a.texts.length + (y.row - 1)) = b.text (y.row - 1) :=
    fun h => ⟨by omega, Nat.add_sub_assoc h _, stack_text_bottom a b _⟩
  cases op with
  | new | copyOwn | free => rfl
  | move v dir =>
      have hlen : (a.stack b).texts.length = a.texts.length + b.texts.length := List.length_append
      have hlast : a.texts.length + y.row + 1 < a.texts.length + b.texts.length ↔ y.row + 1 < b.texts.length := by omega
      have hnext := stack_text_bottom a b (y.row + 1)
      rw [← Nat.add_assoc] at hnext
      have hstep : (a.stack b).step (lower a.texts.length y) dir = lower a.texts.length (b.step y dir) := by
        cases dir with
        | up =>
            obtain ⟨hne, hrow, hup⟩ := hprev (habove trivial)
            simp only [step, lower, if_neg hne, if_neg (Nat.ne_of_gt (habove trivial)), hrow, hup]
        | down =>
            simp only [step, lower, hlen, hlast, hnext]
            split <;> rfl
        | left =>
            unfold step lower
            by_cases hpos : 0 < y.pos
            · simp only [if_pos hpos]
            · have hlt := habove (Int.not_lt.mp hpos)
              obtain ⟨hne, hrow, hup⟩ := hprev hlt
              simp only [if_neg hpos, if_neg hne, if_neg (Nat.ne_of_gt hlt), hrow, hup]
        | right =>
            simp only [step, lower, htext, hlen, hlast]
            split
            · rfl
            · split <;> rfl
      simp only [act, hstep]
      refine stack_edit_bottom (fun i z hi => if_neg (hother hi)) fun i z => ?_
      split <;> rfl
  | insert v chr =>
      simp only [act, lower, htext]
      show (if sizeT (a.width - 1) ≤ _ then _ else _) = a.stack (if _ then _ else _)
      rw [hwidth]
      split
      · rfl
      · refine stack_edit_bottom (fun i z hi => ?_) fun i z => ?_
        · rw [if_neg (show i ≠ v from hother hi)]
          exact if_neg fun h => Nat.not_lt_of_le (Nat.le_add_right _ y.row) (h.1 ▸ hfits i z hi)
        · grind [lower]
  | insertLine v =>
      simp only [act, lower, htext]
      refine stack_edit_bottom (fun i z hi => ?_) fun i z => ?_
      · have hrow := hfits i z hi
        rw [if_neg (show i ≠ v from hother hi), Doc.breakPlace, if_pos (by simp only; omega)]
      · grind [lower, Doc.breakPlace]
  | del v =>
      simp only [act, lower, htext]
      split
      · refine stack_edit_bottom (fun i z hi => ?_) fun i z => ?_
        · rw [if_neg (show i ≠ v from hother hi)]
          exact if_neg fun h => Nat.not_lt_of_le (Nat.le_add_right _ y.row) (h.1 ▸ hfits i z hi)
        · grind [lower]
      · next hpos =>
          have hlt := habove (Int.not_lt.mp hpos)
          obtain ⟨hne, hrow, hup⟩ := hprev hlt
          rw [if_neg hne, if_neg (Nat.ne_of_gt hlt), hrow, hup]
          refine stack_edit_bottom (fun i z hi => ?_) fun i z => ?_
          · have hrow := hfits i z hi
            rw [if_neg (show i ≠ v from hother hi), Doc.joinPlace, if_pos (by omega)]
          · grind [lower, Doc.joinPlace]

theorem Fits.edit (h : s.Fits) {new : List (List Char)} {f : Int → Place → Place} (hk : k + n ≤ s.texts.length)
    (hf : ∀ i x, s.curs i = some x → x.row < s.texts.length → (f i x).row < s.texts.length - n + new.length) :
    (s.edit k n new f).Fits := by
  intro i y hy
  obtain ⟨x, hx, rfl⟩ := Option.map_eq_some_iff.mp hy
  rw [edit_length hk]
  exact hf i x hx (h i x hx)

theorem step_row_lt (hx : x.row < s.texts.length) (dir : CmoveDir) : (s.step x dir).row < s.texts.length := by
  cases dir <;> simp only [step] <;> grind

/-- A call leaves every cursor in a line. -/
theorem Fits.act (h : s.Fits) (hx : x.row < s.texts.length) (op : Op) : (s.act x op).Fits := by
  cases op with
  | new | copyOwn | free => exact h
  | move v dir =>
      have hstep := step_row_lt hx dir
      refine h.edit (Nat.le_of_lt hx) fun i y _ hy => ?_
      simp only [List.length_nil]
      split <;> omega
  | insert v chr =>
      simp only [Sheet.act]
      split
      · exact h
      · refine h.edit hx fun i y _ hy => ?_
        simp only [List.length_singleton]
        grind
  | insertLine v =>
      refine h.edit hx fun i y _ hy => ?_
      simp only [List.length_cons, List.length_nil]
      grind [Doc.breakPlace]
  | del v =>
      simp only [Sheet.act]
      split
      · refine h.edit hx fun i y _ hy => ?_
        simp only [List.length_singleton]
        grind
      · split
        · exact h
        · refine h.edit (by omega) fun i y _ hy => ?_
          simp only [List.length_singleton]
          grind [Doc.joinPlace]

/-- A call moves cursors, and neither makes nor takes one away. -/
theorem act_curs (s : Sheet) (x : Place) (op : Op) : ∃ f : Int → Place → Place, ∀ i, (s.act x op).curs i = (s.curs i).map (f i) := by
  have hkeep : ∃ f : Int → Place → Place, ∀ i, s.curs i = (s.curs i).map (f i) := ⟨fun _ y => y, fun i => Option.map_id'.symm⟩
  cases op with
  | new | copyOwn | free => exact hkeep
  | move | insertLine => exact ⟨_, fun i => rfl⟩
  | insert =>
      simp only [act]
      split
      · exact hkeep
      · exact ⟨_, fun i => rfl⟩
  | del =>
      simp only [act]
      split
      · exact ⟨_, fun i => rfl⟩
      · split
        · exact hkeep
        · exact ⟨_, fun i => rfl⟩

theorem act_width (s : Sheet) (x : Place) (op : Op) : (s.act x op).width = s.width := by
  cases op with
  | new | copyOwn | free | move | insertLine => rfl
  | insert | del =>
      simp only [act]
      split
      · rfl
      · first | rfl | (split <;> rfl)

theorem apply_move (s : Sheet) (v : Int) (dir : CmoveDir) : s.apply (.move v dir) =
    { s with curs := fun i => if i = v then (s.curs v).map (s.step · dir) else s.curs i } := by
  cases hx : s.curs v with
  | none =>
      rw [apply_of_none hx]
      ext1
      · rfl
      · rfl
      · funext i
        simp only [Option.map_none]
        split
        · next hi => rw [hi, hx]
        · rfl
  | some x =>
      rw [apply_of_some hx]
      ext1
      · rfl
      · simp only [act, edit, List.append_nil, Nat.add_zero, List.take_append_drop]
      · funext i
        simp only [act, edit, Option.map_some]
        split
        · next hi => rw [hi, hx, Option.map_some]
        · exact Option.map_id'

end Sheet

/-! ## Two calls -/

namespace Op

variable {s : Sheet} {op op' : Op} {x y : Place}

theorem above_lower (n : Nat) (y : Place) (op : Op) : op.Above (Sheet.lower n y) ↔ op.Above y := by
  cases op with
  | move v dir => cases dir <;> rfl
  | new | copyOwn | free | insert | insertLine | del => rfl

theorem below_congr {t : Sheet} (h : t.text x.row = s.text x.row) (op : Op) : op.Below t x ↔ op.Below s x := by
  cases op with
  | move v dir => cases dir <;> simp only [Below, h]
  | new | copyOwn | free | insert | insertLine | del => rfl

/-- A call above another one can be made before or after it. -/
theorem Over.comm (h : op.Over s x y op') (hx : s.curs op.cursor = some x) (hy : s.curs op'.cursor = some y) :
    (s.apply op).apply op' = (s.apply op').apply op := by
  obtain ⟨hlt, hover⟩ := h
  -- the sheet is cut below the last line of the upper call
  obtain ⟨c, hc⟩ : ∃ c, c = (if op.Below s x then x.row + 1 else x.row) + 1 := ⟨_, rfl⟩
  have hxc : x.row < c ∧ (op.Below s x → x.row + 1 < c) := by
    split at hc <;> exact ⟨by omega, by grind⟩
  have hyc : c ≤ y.row ∧ (op'.Above y → c < y.row) := by
    rw [Nat.lt_iff_add_one_le, ← hc] at hover
    split at hover <;> exact ⟨by omega, by grind⟩
  obtain ⟨a, b, rfl, rfl, hfits, hwidth, htop, hbottom⟩ := s.exists_stack (c := c) (by omega)
  have hax := htop _ x hx hxc.1
  obtain ⟨hay, y, hby, rfl⟩ := hbottom _ y hy hyc.1
  have hbelow : op.Below a x → x.row + 1 < a.texts.length := fun hb =>
    hxc.2 ((below_congr (Sheet.stack_text_top hxc.1 b) op).mpr hb)
  have habove : op'.Above y → 0 < y.row := fun ha =>
    Nat.lt_add_right_iff_pos.mp (hyc.2 ((above_lower _ y op').mpr ha))
  have hay' : (a.act x op).curs op'.cursor = none := by
    obtain ⟨f, hf⟩ := a.act_curs x op
    rw [hf, hay, Option.map_none]
  have hwidth' : b.width = (a.act x op).width := by rw [Sheet.act_width, hwidth]
  rw [Sheet.apply_of_some hx, Sheet.apply_of_some hy, Sheet.act_top b hax hxc.1 hbelow, Sheet.act_bottom hfits hwidth hby hay habove,
    Sheet.apply_of_some (Sheet.stack_curs_bottom hay' hby), Sheet.apply_of_some (Sheet.stack_curs_top hax _),
    Sheet.act_bottom (hfits.act hxc.1 op) hwidth' hby hay' habove, Sheet.act_top _ hax hxc.1 hbelow]

/-- Moves of two cursors can be made in either order. -/
theorem IsMove.comm (h : op.IsMove) (h' : op'.IsMove) (hne : op.cursor ≠ op'.cursor) :
    (s.apply op).apply op' = (s.apply op').apply op := by
  cases op with
  | move v dir =>
      cases op' with
      | move w dir' =>
          rw [Sheet.apply_move, Sheet.apply_move, Sheet.apply_move, Sheet.apply_move]
          ext1
          · rfl
          · rfl
          · funext i
            have hstep : ∀ (curs : Int → Option Place) x dir, { s with curs }.step x dir = s.step x dir := by
              intro curs x dir
              cases dir <;> rfl
            have hvw : v ≠ w := hne
            simp only [hstep]
            grind
      | _ => cases h'
  | _ => cases h

/-- Calls that are apart can be made in either order. -/
theorem Apart.comm (h : op.Apart s op') : (s.apply op).apply op' = (s.apply op').apply op := by
  obtain ⟨hne, ⟨hmove, hmove'⟩ | ⟨x, hx, y, hy, hover | hover⟩⟩ := h
  · exact hmove.comm hmove' hne
  · exact hover.comm hx hy
  · exact (hover.comm hy hx).symm

/-- A call that is apart from other calls can be made before or after them. -/
theorem ApartFrom.commutes {ops : List Op} (h : op.ApartFrom s ops) : Commutes Sheet.apply op s ops := by
  have hpasses : Passes Sheet.apply op s ops := by
    induction ops generalizing s with
    | nil => trivial
    | cons op' ops ih => exact ⟨h.1.comm, ih h.2⟩
  exact hpasses.commutes

end Op

end CoEditor
