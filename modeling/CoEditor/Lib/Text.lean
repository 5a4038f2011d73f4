-- SUMMARY: Lines put together to a text, and the offsets of places in them.
import Mathlib.Algebra.GroupWithZero.Nat
import Mathlib.Algebra.Order.BigOperators.Group.List
import Mathlib.Algebra.Order.Group.Nat

/-!
# Lines and offsets

`joined sep ls` is the text of the lines `ls`, with `sep` between them. A place
in it is a line and a column; its offset counts what comes before it. Cut at a
place, the lines are `A ++ (u ++ v) :: B`, and an edit there is an edit of the
text at the offset of the place.
-/

namespace CoEditor

variable {α : Type}

/-- The text of the lines. -/
def joined (sep : α) (ls : List (List α)) : List α := [sep].intercalate ls

/-- The offset at which line `k` starts. -/
def lineStart (ls : List (List α)) (k : Nat) : Nat := ((ls.take k).map fun l => l.length + 1).sum

/-- The offset of column `pos` of line `k`. -/
def offset (ls : List (List α)) (k : Nat) (pos : Int) : Int := lineStart ls k + pos

/-- Line `k` has the column `pos`. -/
def HasColumn (ls : List (List α)) (k : Nat) (pos : Int) : Prop := ∃ l, ls[k]? = some l ∧ 0 ≤ pos ∧ pos ≤ l.length

/-! ## Starts of lines -/

@[simp] theorem lineStart_zero (ls : List (List α)) : lineStart ls 0 = 0 := by simp [lineStart]

theorem lineStart_cons_succ (l : List α) (ls : List (List α)) (k : Nat) :
    lineStart (l :: ls) (k + 1) = l.length + 1 + lineStart ls k := by simp [lineStart]

theorem lineStart_succ {ls : List (List α)} {k : Nat} {l : List α} (h : ls[k]? = some l) :
    lineStart ls (k + 1) = lineStart ls k + l.length + 1 := by
  rw [lineStart, List.take_add_one, h]
  simp [lineStart, Nat.add_assoc]

theorem lineStart_mono (ls : List (List α)) {j k : Nat} (h : j ≤ k) : lineStart ls j ≤ lineStart ls k := by
  have hsub : List.Sublist ((ls.take j).map fun l => l.length + 1) ((ls.take k).map fun l => l.length + 1) :=
    (List.take_sublist_take_left h).map _
  exact hsub.sum_le_sum fun _ _ => Nat.zero_le _

/-- What comes before a line. -/
theorem lineStart_append_left (A B : List (List α)) {k : Nat} (h : k ≤ A.length) :
    lineStart (A ++ B) k = lineStart A k := by
  rw [lineStart, List.take_append_of_le_length h, lineStart]

theorem lineStart_append_right (A B : List (List α)) (k : Nat) :
    lineStart (A ++ B) (A.length + k) = lineStart A A.length + lineStart B k := by
  rw [lineStart, List.take_length_add_append, List.map_append, List.sum_append, lineStart, lineStart, List.take_length]

/-! ## Order -/

section
variable {ls : List (List α)} {j k : Nat} {p q : Int}

theorem offset_lt_of_row_lt (hp : HasColumn ls j p) (hq : 0 ≤ q) (h : j < k) : offset ls j p < offset ls k q := by
  obtain ⟨l, hl, -, hle⟩ := hp
  have hsucc := lineStart_succ hl
  have hmono : lineStart ls (j + 1) ≤ lineStart ls k := lineStart_mono ls h
  unfold offset
  omega

/-- Places lie in the order of their offsets. -/
theorem offset_lt_iff (hp : HasColumn ls j p) (hq : HasColumn ls k q) :
    offset ls j p < offset ls k q ↔ j < k ∨ j = k ∧ p < q := by
  rcases Nat.lt_trichotomy j k with hlt | rfl | hgt
  · have := offset_lt_of_row_lt hp hq.choose_spec.2.1 hlt
    omega
  · unfold offset
    omega
  · have := offset_lt_of_row_lt hq hp.choose_spec.2.1 hgt
    omega

end

/-! ## Lists cut at an element -/

section
variable {β : Type}

theorem modify_cut (A : List β) (x : β) (B : List β) (f : β → β) : (A ++ x :: B).modify A.length f = A ++ f x :: B :=
  List.modifyTailIdx_add (List.modifyHead f) 0 A (x :: B)

theorem insertIdx_cut (A : List β) (x : β) (B : List β) : (A ++ B).insertIdx A.length x = A ++ x :: B :=
  List.modifyTailIdx_add (List.cons x) 0 A B

theorem insertIdx_cut_succ (A : List β) (x y : β) (B : List β) :
    (A ++ x :: B).insertIdx (A.length + 1) y = A ++ x :: y :: B :=
  List.modifyTailIdx_add (List.cons y) 1 A (x :: B)

theorem eraseIdx_cut_succ (A : List β) (x y : β) (B : List β) : (A ++ x :: y :: B).eraseIdx (A.length + 1) = A ++ x :: B := by
  rw [List.eraseIdx_append_of_length_le (Nat.le_succ _)]
  simp

theorem getElem?_cut (A : List β) (x : β) (B : List β) : (A ++ x :: B)[A.length]? = some x := by simp

end

/-! ## Cutting at a place -/

theorem joined_cons (sep : α) (l : List α) (B : List (List α)) : joined sep (l :: B) = l ++ B.flatMap (sep :: ·) := by
  induction B generalizing l with
  | nil => simp [joined]
  | cons m B ih =>
      have hstep : joined sep (l :: m :: B) = l ++ sep :: joined sep (m :: B) := by
        simp [joined, List.intercalate_cons_cons]
      rw [hstep, ih, List.flatMap_cons]
      rfl

theorem joined_append (sep : α) (A : List (List α)) (l : List α) (B : List (List α)) :
    joined sep (A ++ l :: B) = A.flatMap (· ++ [sep]) ++ (l ++ B.flatMap (sep :: ·)) := by
  induction A with
  | nil => exact joined_cons sep l B
  | cons m A ih =>
      obtain ⟨n, ns, hns⟩ := List.exists_cons_of_ne_nil (l := A ++ l :: B) (by simp)
      have hstep : joined sep (m :: (A ++ l :: B)) = m ++ sep :: joined sep (A ++ l :: B) := by
        rw [hns]
        simp [joined, List.intercalate_cons_cons]
      rw [List.cons_append, hstep, ih, List.flatMap_cons]
      simp

theorem length_flatMap_concat (sep : α) (A : List (List α)) :
    (A.flatMap (· ++ [sep])).length = lineStart A A.length := by
  rw [lineStart, List.take_length, List.length_flatMap]
  simp

/-- The offset at which lines are cut. -/
def cutOffset (A : List (List α)) (u : List α) : Nat := lineStart A A.length + u.length

theorem offset_cut (A : List (List α)) (u v : List α) (B : List (List α)) :
    offset (A ++ (u ++ v) :: B) A.length u.length = cutOffset A u := by
  rw [offset, lineStart_append_left A _ (Nat.le_refl _), cutOffset]
  omega

/-- The text before and after a cut. -/
theorem joined_cut (sep : α) (A : List (List α)) (u v : List α) (B : List (List α)) :
    (joined sep (A ++ (u ++ v) :: B)).take (cutOffset A u) = A.flatMap (· ++ [sep]) ++ u ∧
      (joined sep (A ++ (u ++ v) :: B)).drop (cutOffset A u) = v ++ B.flatMap (sep :: ·) := by
  have hlen : cutOffset A u = (A.flatMap (· ++ [sep]) ++ u).length := by
    rw [List.length_append, length_flatMap_concat, cutOffset]
  have htext : joined sep (A ++ (u ++ v) :: B) = A.flatMap (· ++ [sep]) ++ u ++ (v ++ B.flatMap (sep :: ·)) := by
    rw [joined_append]
    simp
  rw [htext, hlen]
  exact ⟨List.take_left, List.drop_left⟩

/-- To put `w` into a line is to put it into the text. -/
theorem joined_insert (sep : α) (A : List (List α)) (u w v : List α) (B : List (List α)) :
    joined sep (A ++ (u ++ w ++ v) :: B) =
      (joined sep (A ++ (u ++ v) :: B)).take (cutOffset A u) ++ w ++
        (joined sep (A ++ (u ++ v) :: B)).drop (cutOffset A u) := by
  obtain ⟨htake, hdrop⟩ := joined_cut sep A u v B
  rw [htake, hdrop, joined_append]
  simp

/-- To break a line is to put `sep` into the text. -/
theorem joined_break (sep : α) (A : List (List α)) (u v : List α) (B : List (List α)) :
    joined sep (A ++ u :: v :: B) =
      (joined sep (A ++ (u ++ v) :: B)).take (cutOffset A u) ++ sep ::
        (joined sep (A ++ (u ++ v) :: B)).drop (cutOffset A u) := by
  obtain ⟨htake, hdrop⟩ := joined_cut sep A u v B
  rw [htake, hdrop, joined_append, List.flatMap_cons]
  simp

theorem cutOffset_le (sep : α) (A : List (List α)) (u v : List α) (B : List (List α)) :
    cutOffset A u ≤ (joined sep (A ++ (u ++ v) :: B)).length := by
  rw [joined_append]
  simp only [List.length_append, length_flatMap_concat, cutOffset]
  omega

theorem eraseIdx_take_cons_drop {l : List α} {n : Nat} (h : n ≤ l.length) (c : α) :
    (l.take n ++ c :: l.drop n).eraseIdx n = l := by
  have hlen : (l.take n).length = n := List.length_take_of_le h
  rw [List.eraseIdx_append_of_length_le (by omega), hlen, Nat.sub_self, List.eraseIdx_cons_zero, List.take_append_drop]

/-- To take a character out of a line is to take it out of the text. -/
theorem joined_erase (sep : α) (A : List (List α)) (u : List α) (c : α) (v : List α) (B : List (List α)) :
    (joined sep (A ++ (u ++ [c] ++ v) :: B)).eraseIdx (cutOffset A u) = joined sep (A ++ (u ++ v) :: B) := by
  rw [joined_insert, List.append_assoc]
  exact eraseIdx_take_cons_drop (cutOffset_le sep A u v B) c

/-- To join two lines is to take the `sep` between them out of the text. -/
theorem joined_join (sep : α) (A : List (List α)) (u v : List α) (B : List (List α)) :
    (joined sep (A ++ u :: v :: B)).eraseIdx (cutOffset A u) = joined sep (A ++ (u ++ v) :: B) := by
  rw [joined_break]
  exact eraseIdx_take_cons_drop (cutOffset_le sep A u v B) sep

/-- The end of the last line is the end of the text. -/
theorem offset_end (sep : α) {ls : List (List α)} {k : Nat} {l : List α} (hl : ls[k]? = some l) (hk : k + 1 = ls.length) :
    offset ls k l.length = (joined sep ls).length := by
  obtain ⟨hlt, hget⟩ := List.getElem?_eq_some_iff.mp hl
  have hlen : (ls.take k).length = k := List.length_take_of_le (Nat.le_of_lt hlt)
  have hcut : ls = ls.take k ++ l :: [] := by
    rw [← List.drop_of_length_le (Nat.le_of_eq hk.symm), ← hget, ← List.drop_eq_getElem_cons hlt, List.take_append_drop]
  have htext := congrArg List.length (joined_append sep (ls.take k) l [])
  rw [← hcut, List.length_append, length_flatMap_concat, hlen, List.flatMap_nil, List.append_nil] at htext
  rw [htext, offset, lineStart, lineStart, List.take_take, Nat.min_self]
  exact (Int.natCast_add _ _).symm

theorem offset_le_length (sep : α) {ls : List (List α)} {k : Nat} {p : Int} (h : HasColumn ls k p) :
    offset ls k p ≤ (joined sep ls).length := by
  obtain ⟨l, hl, hp, hle⟩ := h
  have hlt := (List.getElem?_eq_some_iff.mp hl).1
  obtain ⟨m, hm⟩ : ∃ m, ls[ls.length - 1]? = some m := ⟨_, List.getElem?_eq_getElem (by omega)⟩
  have hend := offset_end sep hm (by omega)
  by_cases hk : k = ls.length - 1
  · subst hk
    obtain rfl := Option.some.inj (hl.symm.trans hm)
    unfold offset at hend ⊢
    omega
  · have hbefore := offset_lt_of_row_lt (q := m.length) ⟨l, hl, hp, hle⟩ (Int.natCast_nonneg _) (show k < ls.length - 1 by omega)
    omega

theorem offset_inj {ls : List (List α)} {j k : Nat} {p q : Int} (hp : HasColumn ls j p) (hq : HasColumn ls k q)
    (h : offset ls j p = offset ls k q) : j = k ∧ p = q := by
  have hlt := offset_lt_iff hp hq
  have hgt := offset_lt_iff hq hp
  omega

/-! ## Places after an edit -/

theorem lineStart_cut (A : List (List α)) (l : List α) (B : List (List α)) (k : Nat) :
    lineStart (A ++ l :: B) k = if k ≤ A.length then lineStart A k
      else lineStart A A.length + l.length + 1 + lineStart B (k - (A.length + 1)) := by
  split
  · next hk => exact lineStart_append_left A (l :: B) hk
  · next hk =>
      obtain ⟨j, rfl⟩ : ∃ j, k = A.length + (j + 1) := ⟨k - (A.length + 1), by omega⟩
      rw [lineStart_append_right, lineStart_cons_succ, show A.length + (j + 1) - (A.length + 1) = j by omega]
      omega

theorem lineStart_broken (A : List (List α)) (u v : List α) (B : List (List α)) (k : Nat) :
    lineStart (A ++ u :: v :: B) k = if k ≤ A.length then lineStart A k
      else if k = A.length + 1 then lineStart A A.length + u.length + 1
      else lineStart A A.length + u.length + 1 + v.length + 1 + lineStart B (k - (A.length + 2)) := by
  rw [lineStart_cut]
  split
  · rfl
  · split
    · next hk => rw [hk, Nat.sub_self, lineStart_zero]
    · obtain ⟨j, rfl⟩ : ∃ j, k = A.length + 2 + j := ⟨k - (A.length + 2), by omega⟩
      rw [show A.length + 2 + j - (A.length + 1) = j + 1 by omega, lineStart_cons_succ, Nat.add_sub_cancel_left]
      omega

section
variable {A B : List (List α)} {u v : List α} {k : Nat} {p : Int}

theorem hasColumn_cut (A : List (List α)) (u v : List α) (B : List (List α)) :
    HasColumn (A ++ (u ++ v) :: B) A.length u.length :=
  ⟨u ++ v, getElem?_cut A (u ++ v) B, Int.natCast_nonneg _, by simp⟩

/-- Which places come after the one at which lines are cut. -/
theorem cutOffset_lt_iff (h : HasColumn (A ++ (u ++ v) :: B) k p) :
    (cutOffset A u : Int) < offset (A ++ (u ++ v) :: B) k p ↔ A.length < k ∨ A.length = k ∧ (u.length : Int) < p := by
  rw [← offset_cut A u v B]
  exact offset_lt_iff (hasColumn_cut A u v B) h

theorem lt_cutOffset_iff (h : HasColumn (A ++ (u ++ v) :: B) k p) :
    offset (A ++ (u ++ v) :: B) k p < cutOffset A u ↔ k < A.length ∨ k = A.length ∧ p < (u.length : Int) := by
  rw [← offset_cut A u v B]
  exact offset_lt_iff h (hasColumn_cut A u v B)

/-- Where a place is when `w` was put in. -/
theorem offset_insert (w : List α) (h : HasColumn (A ++ (u ++ v) :: B) k p) :
    offset (A ++ (u ++ w ++ v) :: B) k (if A.length = k ∧ (u.length : Int) < p then p + w.length else p) =
      if (cutOffset A u : Int) < offset (A ++ (u ++ v) :: B) k p then offset (A ++ (u ++ v) :: B) k p + w.length
      else offset (A ++ (u ++ v) :: B) k p := by
  rw [if_congr (cutOffset_lt_iff h) rfl rfl]
  simp only [offset, lineStart_cut, List.length_append]
  grind

/-- Where a place is when a line was broken. -/
theorem offset_break (h : HasColumn (A ++ (u ++ v) :: B) k p) {k' : Nat} {p' : Int}
    (hplace : (k < A.length ∨ k = A.length ∧ p ≤ (u.length : Int)) ∧ k' = k ∧ p' = p ∨
      k = A.length ∧ (u.length : Int) ≤ p ∧ k' = k + 1 ∧ p' = p - u.length ∨ A.length < k ∧ k' = k + 1 ∧ p' = p) :
    ((cutOffset A u : Int) < offset (A ++ (u ++ v) :: B) k p →
      offset (A ++ u :: v :: B) k' p' = offset (A ++ (u ++ v) :: B) k p + 1) ∧
    (offset (A ++ (u ++ v) :: B) k p < cutOffset A u → offset (A ++ u :: v :: B) k' p' = offset (A ++ (u ++ v) :: B) k p) := by
  rw [cutOffset_lt_iff h, lt_cutOffset_iff h]
  simp only [offset, lineStart_broken A u v B, lineStart_cut A (u ++ v) B, List.length_append]
  rcases hplace with ⟨hplace, rfl, rfl⟩ | ⟨rfl, hle, rfl, rfl⟩ | ⟨hlt, rfl, rfl⟩
  · grind
  · grind
  · have hsub : k + 1 - (A.length + 2) = k - (A.length + 1) := by omega
    rw [hsub]
    grind

/-- Where a place is when the character before a cut was taken out. -/
theorem offset_erase {c : α} (h : HasColumn (A ++ (u ++ [c] ++ v) :: B) k p) :
    offset (A ++ (u ++ v) :: B) k (if A.length = k ∧ (u.length : Int) < p then p - 1 else p) =
      if (cutOffset A (u ++ [c]) : Int) ≤ offset (A ++ (u ++ [c] ++ v) :: B) k p then
        offset (A ++ (u ++ [c] ++ v) :: B) k p - 1
      else offset (A ++ (u ++ [c] ++ v) :: B) k p := by
  have hlt := lt_cutOffset_iff h
  simp only [List.length_append, List.length_singleton] at hlt
  simp only [offset, lineStart_cut, List.length_append, List.length_singleton] at hlt ⊢
  grind

/-- Where a place is when two lines were joined. -/
theorem offset_join (h : HasColumn (A ++ u :: v :: B) k p) {k' : Nat} {p' : Int}
    (hplace : k ≤ A.length ∧ k' = k ∧ p' = p ∨ k = A.length + 1 ∧ k' = A.length ∧ p' = p + u.length ∨
      A.length + 1 < k ∧ k' + 1 = k ∧ p' = p) :
    offset (A ++ (u ++ v) :: B) k' p' =
      if offset (A ++ u :: v :: B) (A.length + 1) 0 ≤ offset (A ++ u :: v :: B) k p then
        offset (A ++ u :: v :: B) k p - 1
      else offset (A ++ u :: v :: B) k p := by
  have hstart : HasColumn (A ++ u :: v :: B) (A.length + 1) 0 := ⟨v, by simp, Int.le_refl 0, Int.natCast_nonneg _⟩
  have hpos := h.choose_spec.2.1
  have hlt := offset_lt_iff h hstart
  simp only [offset, lineStart_broken A u v B, lineStart_cut A (u ++ v) B, List.length_append] at hlt ⊢
  rcases hplace with ⟨hle, rfl, rfl⟩ | ⟨rfl, rfl, rfl⟩ | ⟨hgt, rfl, rfl⟩
  · grind
  · grind
  · have hsub : k' + 1 - (A.length + 2) = k' - (A.length + 1) := by omega
    rw [hsub] at hlt ⊢
    grind

end

end CoEditor
