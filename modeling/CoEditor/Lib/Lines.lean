-- SUMMARY: Texts as sequences of lines, read one by one and extended at the end.
import Mathlib.Data.List.Forall2
import CoEditor.Lib.Utf8

/-!
# Lines of a text

`lines` cuts a text after every newline, as reading it line by line does; only
the last line may lack its newline. `Spells ls s` says what the lines are
without their newlines, and is kept up when a line is added at the end or lines
are left out.
-/

namespace CoEditor

/-- The lines of a text, each with its newline. -/
def lines : Bytes → List Bytes
  | [] => []
  | c :: s =>
      if c = 10 then [10] :: lines s
      else match lines s with
        | [] => [[c]]
        | l :: ls => (c :: l) :: ls

/-- The text is not empty and ends in a newline. -/
def Ended (s : Bytes) : Prop := s.getLast? = some 10

instance (s : Bytes) : Decidable (Ended s) := inferInstanceAs (Decidable (_ = _))

/-- Text `s` consists of the lines `ls`; the last one may have a newline or not. -/
def Spells (ls : List Bytes) (s : Bytes) : Prop := List.Forall₂ (fun l m => m = l ∨ m = l ++ [10]) ls (lines s)

instance (ls : List Bytes) (s : Bytes) : Decidable (Spells ls s) := inferInstanceAs (Decidable (List.Forall₂ _ _ _))

theorem exists_left_of_mem {α β : Type} {R : α → β → Prop} {as : List α} {bs : List β} (h : List.Forall₂ R as bs) {b : β}
    (hb : b ∈ bs) : ∃ a ∈ as, R a b := by
  induction h with
  | nil => cases hb
  | @cons a b' as bs hab _ ih =>
      rcases List.mem_cons.mp hb with rfl | hb
      · exact ⟨a, by simp, hab⟩
      · obtain ⟨a', ha', hab'⟩ := ih hb
        exact ⟨a', by simp [ha'], hab'⟩

@[simp] theorem ended_append_singleton (s : Bytes) (c : UInt8) : Ended (s ++ [c]) ↔ c = 10 := by
  simp [Ended]

@[simp] theorem lines_nil : lines [] = [] := rfl

theorem lines_newline (s : Bytes) : lines (10 :: s) = [10] :: lines s := rfl

/-- A line up to its newline. -/
theorem lines_line {l : Bytes} (hl : (10 : UInt8) ∉ l) (s : Bytes) : lines (l ++ 10 :: s) = (l ++ [10]) :: lines s := by
  induction l with
  | nil => rfl
  | cons c l ih =>
      rw [List.mem_cons, not_or] at hl
      rw [List.cons_append, lines, if_neg (Ne.symm hl.1), ih hl.2]
      rfl

/-- A last line without a newline. -/
theorem lines_last {l : Bytes} (hl : (10 : UInt8) ∉ l) (hne : l ≠ []) : lines l = [l] := by
  induction l with
  | nil => exact absurd rfl hne
  | cons c l ih =>
      rw [List.mem_cons, not_or] at hl
      rw [lines, if_neg (Ne.symm hl.1)]
      cases l with
      | nil => rfl
      | cons d l => rw [ih hl.2 (List.cons_ne_nil d l)]

theorem lines_flatten (s : Bytes) : (lines s).flatten = s := by
  induction s with
  | nil => rfl
  | cons c s ih =>
      rw [lines]
      split
      · next hc => rw [List.flatten_cons, ih, hc]; rfl
      · split
        · next hnil => rw [hnil] at ih; rw [← ih]; rfl
        · next l ls hls => rw [hls] at ih; rw [← ih]; rfl

theorem lines_eq_nil {s : Bytes} : lines s = [] ↔ s = [] := by
  refine ⟨fun h => ?_, fun h => h ▸ rfl⟩
  rw [← lines_flatten s, h]
  rfl

/-- What follows an ended text starts on a line of its own. -/
theorem lines_append_ended {s : Bytes} (hs : Ended s) (t : Bytes) : lines (s ++ t) = lines s ++ lines t := by
  induction s with
  | nil => cases hs
  | cons c s ih =>
      rw [List.cons_append, lines, lines]
      by_cases hnil : s = []
      · subst hnil
        have hc : c = 10 := by simpa [Ended] using hs
        simp [hc]
      · have hs' : Ended s := by rwa [Ended, List.getLast?_cons_of_ne_nil hnil] at hs
        rw [ih hs']
        split
        · rfl
        · have hne : lines s ≠ [] := fun h => hnil (lines_eq_nil.mp h)
          obtain ⟨l, ls, hls⟩ := List.exists_cons_of_ne_nil hne
          rw [hls]
          rfl

/-- Only the last line of a text can lack its newline. -/
theorem lines_ended {s : Bytes} : ∀ l ∈ (lines s).dropLast, Ended l := by
  induction s with
  | nil => simp
  | cons c s ih =>
      rw [lines]
      split
      · next hc =>
          by_cases hnil : lines s = []
          · simp [hnil]
          · rw [List.dropLast_cons_of_ne_nil hnil, List.forall_mem_cons]
            exact ⟨rfl, ih⟩
      · split
        · next hnil => simp
        · next l ls hls =>
            rw [hls] at ih
            cases ls with
            | nil => simp
            | cons m ls =>
                rw [List.dropLast_cons_of_ne_nil (List.cons_ne_nil m ls), List.forall_mem_cons] at ih ⊢
                have hne : l ≠ [] := by
                  rintro rfl
                  exact absurd ih.1 (by decide)
                exact ⟨by rw [Ended, List.getLast?_cons_of_ne_nil hne]; exact ih.1, ih.2⟩

/-- What follows a text that is not ended goes on with its last line. -/
theorem lines_append_open {s : Bytes} (hne : s ≠ []) (hs : ¬ Ended s) :
    ∃ ls l, lines s = ls ++ [l] ∧ (10 : UInt8) ∉ l ∧ ∀ t, lines (s ++ t) = ls ++ lines (l ++ t) := by
  induction s with
  | nil => exact absurd rfl hne
  | cons c s ih =>
      by_cases hnil : s = []
      · subst hnil
        have hc : (10 : UInt8) ∉ [c] := by
          rw [List.mem_singleton]
          rintro rfl
          exact hs rfl
        exact ⟨[], [c], lines_last hc (List.cons_ne_nil c []), hc, fun t => rfl⟩
      · have hs' : ¬ Ended s := by rwa [Ended, List.getLast?_cons_of_ne_nil hnil] at hs
        obtain ⟨ls, l, hls, hl, happend⟩ := ih hnil hs'
        by_cases hc : c = 10
        · refine ⟨[10] :: ls, l, ?_, hl, fun t => ?_⟩
          · rw [hc, lines_newline, hls]; rfl
          · rw [hc, List.cons_append, lines_newline, happend]; rfl
        · cases ls with
          | nil =>
              refine ⟨[], c :: l, ?_, ?_, fun t => ?_⟩
              · rw [lines, if_neg hc, hls]; rfl
              · simpa [Ne.symm hc] using hl
              · rw [List.cons_append, lines, if_neg hc, happend, List.nil_append, List.nil_append, List.cons_append, lines,
                  if_neg hc]
          | cons k ls =>
              refine ⟨(c :: k) :: ls, l, ?_, hl, fun t => ?_⟩
              · rw [lines, if_neg hc, hls]; rfl
              · rw [List.cons_append, lines, if_neg hc, happend]; rfl

/-- A newline after a text that is not ended ends its last line. -/
theorem exists_lines_append {s : Bytes} (hne : s ≠ []) (hs : ¬ Ended s) :
    ∃ ls l, lines s = ls ++ [l] ∧ (10 : UInt8) ∉ l ∧ ∀ t, lines (s ++ 10 :: t) = ls ++ (l ++ [10]) :: lines t := by
  obtain ⟨ls, l, hls, hl, happend⟩ := lines_append_open hne hs
  exact ⟨ls, l, hls, hl, fun t => by rw [happend, lines_line hl]⟩

/-- Pieces of text that each end in their only newline; only the last piece may do without. -/
inductive Pieces : List Bytes → Prop where
  | nil : Pieces []
  | last {l : Bytes} : (10 : UInt8) ∉ l → l ≠ [] → Pieces [l]
  | line {l : Bytes} {ls : List Bytes} : (10 : UInt8) ∉ l → Pieces ls → Pieces ((l ++ [10]) :: ls)

theorem pieces_lines (s : Bytes) : Pieces (lines s) := by
  induction s with
  | nil => exact .nil
  | cons c s ih =>
      rw [lines]
      split
      · exact .line (List.not_mem_nil) ih
      · next hc =>
          generalize lines s = ls at ih
          cases ih with
          | nil => exact .last (by simpa using Ne.symm hc) (List.cons_ne_nil c [])
          | last hl hne => exact .last (by simpa [Ne.symm hc] using hl) (List.cons_ne_nil c _)
          | @line l ls hl h =>
              have hcl : (10 : UInt8) ∉ c :: l := by simpa [Ne.symm hc] using hl
              exact .line hcl h

theorem Pieces.lines_flatten {ls : List Bytes} (h : Pieces ls) : lines ls.flatten = ls := by
  induction h with
  | nil => rfl
  | @last l hl hne => simpa using lines_last hl hne
  | @line l ls hl _ ih => rw [List.flatten_cons, List.append_assoc, List.singleton_append, lines_line hl, ih]

/-! ## Spelling out lines -/

theorem Spells.nil : Spells [] [] := List.Forall₂.nil

theorem Spells.eq_nil_iff {ls : List Bytes} {s : Bytes} (h : Spells ls s) : ls = [] ↔ s = [] := by
  rw [← lines_eq_nil, ← List.length_eq_zero_iff, List.Forall₂.length_eq h, List.length_eq_zero_iff]

/-- A line put before a text. -/
theorem Spells.cons {ls : List Bytes} {s l : Bytes} (h : Spells ls s) (hl : (10 : UInt8) ∉ l) :
    Spells (l :: ls) ((l ++ [10]) ++ s) := by
  rw [Spells, List.append_assoc, List.singleton_append, lines_line hl]
  exact .cons (.inr rfl) h

theorem Spells.single {l : Bytes} (hl : (10 : UInt8) ∉ l) (hne : l ≠ []) : Spells [l] l := by
  rw [Spells, lines_last hl hne]
  exact .cons (.inl rfl) .nil

/-- A line added to a text that is empty or not ended. -/
theorem Spells.append {ls : List Bytes} {s l : Bytes} (h : Spells ls s) (hs : ¬ Ended s) (hl : (10 : UInt8) ∉ l)
    (hne : l ≠ []) : Spells (ls ++ [l]) (if s = [] then l else s ++ 10 :: l) := by
  have hlast : lines l = [l] := lines_last hl hne
  by_cases hnil : s = []
  · obtain rfl := h.eq_nil_iff.mpr hnil
    rw [if_pos hnil, List.nil_append, Spells, hlast]
    exact .cons (.inl rfl) .nil
  · rw [if_neg hnil]
    obtain ⟨ms, m, hms, hm, happend⟩ := exists_lines_append hnil hs
    rw [Spells, happend, hlast]
    rw [Spells, hms] at h
    have hinit := List.forall₂_take_append ls ms [m] h
    obtain ⟨k, hk, hkm⟩ : ∃ k, ls.drop ms.length = [k] ∧ (m = k ∨ m = k ++ [10]) := by
      have hrest := List.forall₂_drop_append ls ms [m] h
      generalize ls.drop ms.length = ks at hrest
      cases hrest with
      | cons hkm hnil =>
          cases hnil
          exact ⟨_, rfl, hkm⟩
    have hended : m ++ [10] = k ∨ m ++ [10] = k ++ [10] := by
      rcases hkm with rfl | rfl
      · exact .inr rfl
      · exact absurd (by simp) hm
    rw [← List.take_append_drop ms.length ls, hk, List.append_assoc]
    exact List.rel_append hinit (.cons hended (.cons (.inl rfl) .nil))

end CoEditor
