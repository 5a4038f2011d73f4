-- SUMMARY: Cursors in range: where each operation puts the cursors, and that all of them keep the range.
import CoEditor.Doc.Text

/-!
# Cursors in range

A cursor is in range if its column is one of its line, the end included. From
cursors in range every operation at a cursor takes each cursor to a place that
is told by its own place and that of the acting one.
-/

namespace CoEditor

variable {R : Type} [Rope R]

namespace Doc

/-- Every cursor is at a column of its line. -/
def InRange (d : Doc R) : Prop := ∀ i x, d.curs i = some x → 0 ≤ x.pos ∧ x.pos ≤ d.len x.row

variable {d : Doc R} {id : Int}

/-- A cursor in range cuts its line in two. -/
theorem InRange.cut (h : InRange d) (hwf : d.Wf) {x : Place} (hx : d.curs id = some x) :
    ∃ A lid u v B, d.content = A ++ (lid, u ++ v) :: B ∧ x = ⟨A.length, (u.length : Nat)⟩ := by
  obtain ⟨hpos, hle⟩ := h id x hx
  have hrow := hwf.curs_le id x hx
  have hlt : x.row < d.content.length := by
    have := hwf.last_lt
    simp only [content, List.length_map]
    omega
  obtain ⟨n, hn⟩ : ∃ n : Nat, x.pos = n := ⟨x.pos.toNat, by omega⟩
  have hget := List.getElem?_eq_getElem hlt
  have hlen := len_eq d x.row
  rw [hget, Option.map_some, Option.getD_some] at hlen
  have hsplit : d.content = d.content.take x.row ++ d.content[x.row] :: d.content.drop (x.row + 1) := by
    rw [← List.drop_eq_getElem_cons hlt, List.take_append_drop]
  refine ⟨d.content.take x.row, d.content[x.row].1, d.content[x.row].2.take n, d.content[x.row].2.drop n,
    d.content.drop (x.row + 1), ?_, ?_⟩
  · rw [List.take_append_drop]
    exact hsplit
  · rw [List.length_take, List.length_take, Nat.min_eq_left (Nat.le_of_lt hlt), Nat.min_eq_left (by omega), ← hn]

/-! ## Moves -/

theorem cut_of_le (d : Doc R) {k : Nat} {pos : Int} (h0 : 0 ≤ pos) (h : pos ≤ d.len k) : d.cut k pos = pos := by
  rw [Doc.cut, if_neg]
  rw [sizeT_of_nonneg h0]
  omega

theorem cut_eq_min (d : Doc R) (k : Nat) {pos : Int} (h0 : 0 ≤ pos) : d.cut k pos = min pos (d.len k) := by
  rw [Doc.cut, sizeT_of_nonneg h0]
  split <;> omega

/-- A step stays in range. -/
theorem step_inRange {x : Place} (h0 : 0 ≤ x.pos) (h : x.pos ≤ d.len x.row) (dir : CmoveDir) :
    0 ≤ (d.step x dir).pos ∧ (d.step x dir).pos ≤ d.len (d.step x dir).row := by
  cases dir with
  | up | down =>
      simp only [step]
      split
      · rw [cut_eq_min _ _ h0]
        simp only
        omega
      · exact ⟨h0, h⟩
  | left =>
      simp only [step]
      split
      · simp only
        omega
      · split
        · simp only
          omega
        · exact ⟨h0, h⟩
  | right =>
      simp only [step]
      split
      · next hlt =>
          rw [sizeT_of_nonneg h0] at hlt
          simp only
          omega
      · split
        · simp only
          omega
        · exact ⟨h0, h⟩

theorem InRange.mapCurs (h : InRange d) {f : Int → Place → Place}
    (hf : ∀ i x, d.curs i = some x → 0 ≤ x.pos → x.pos ≤ d.len x.row → 0 ≤ (f i x).pos ∧ (f i x).pos ≤ d.len (f i x).row) :
    InRange (d.mapCurs f) := by
  intro i x hx
  obtain ⟨y, hy, rfl⟩ := Option.map_eq_some_iff.mp hx
  exact hf i y hy (h i y hy).1 (h i y hy).2

theorem InRange.move (h : InRange d) (id : Int) (dir : CmoveDir) : InRange (d.move id dir) := by
  refine h.mapCurs fun i x _ h0 hle => ?_
  split
  · exact step_inRange h0 hle dir
  · exact ⟨h0, hle⟩

theorem InRange.put (h : InRange d) (id : Int) {x : Place} (h0 : 0 ≤ x.pos) (hx : x.pos ≤ d.len x.row) :
    InRange (d.put id x) := by
  intro i y hy
  simp only [Doc.put] at hy
  split at hy
  · cases hy
    exact ⟨h0, hx⟩
  · exact h i y hy

theorem InRange.drop (h : InRange d) (id : Int) : InRange (d.drop id) := by
  intro i y hy
  simp only [Doc.drop] at hy
  split at hy
  · cases hy
  · exact h i y hy

/-! ## Lengths at a cut -/

section
variable {e : Doc R} {A B M N : List (Int × List Char)} {lid : Int} {u v : List Char}

/-- The lines before the ones that change keep their lengths. -/
theorem len_before (hd : d.content = A ++ M) (he : e.content = A ++ N) {k : Nat} (hk : k < A.length) :
    e.len k = d.len k := by
  rw [len_eq, len_eq, hd, he, List.getElem?_append_left hk, List.getElem?_append_left hk]

/-- So do the lines after them, wherever they are now. -/
theorem len_after (hd : d.content = A ++ M ++ B) (he : e.content = A ++ N ++ B) (k : Nat) :
    e.len (A.length + N.length + k) = d.len (A.length + M.length + k) := by
  have hget : ∀ L : List (Int × List Char), (A ++ L ++ B)[A.length + L.length + k]? = B[k]? := by
    intro L
    rw [List.getElem?_append_right (by rw [List.length_append]; omega), List.length_append]
    congr 1
    omega
  rw [len_eq, len_eq, hd, he, hget, hget]

/-- One line changes its length by `n`. -/
theorem len_modified (hd : d.content = A ++ (lid, u) :: B) (he : e.content = A ++ (lid, v) :: B) (k : Nat) :
    e.len k = if k = A.length then v.length else d.len k := by
  split
  · next hk => rw [hk, len_of_cut he]
  · next hk =>
      rcases Nat.lt_or_gt_of_ne hk with hlt | hgt
      · exact len_before hd he hlt
      · obtain ⟨j, rfl⟩ : ∃ j, k = A.length + 1 + j := ⟨k - (A.length + 1), by omega⟩
        rw [List.append_cons] at hd he
        exact len_after (M := [(lid, u)]) (N := [(lid, v)]) hd he j

/-! ## Characters -/

theorem insert_curs {cur : Place} (hcur : d.curs id = some cur) (hroom : ¬ sizeT (d.width - 1) ≤ d.len cur.row)
    (chr : UInt8) (i : Int) : (d.insert id chr).curs i = (d.curs i).map fun x =>
      if i = id then { cur with pos := cur.pos + 1 }
      else if cur.row = x.row ∧ cur.pos + 1 < x.pos then { x with pos := x.pos + 1 } else x := by
  simp only [insert, hcur, if_neg hroom]
  rfl

theorem InRange.insert (h : InRange d) (hwf : d.Wf) (id : Int) {chr : UInt8} (h0 : chr ≠ 0) (hascii : chr.toNat < 128) :
    InRange (d.insert id chr) := by
  cases hcur : d.curs id with
  | none =>
      simp only [Doc.insert, hcur]
      exact h
  | some cur =>
      obtain ⟨A, lid, u, v, B, hcut, rfl⟩ := h.cut hwf hcur
      have hlen := len_of_cut hcut
      by_cases hfull : sizeT (d.width - 1) ≤ d.len A.length
      · rw [insert_full hcur hfull]
        exact h
      · have hcontent := insert_content hcut hcur (by rwa [hlen] at hfull) h0 hascii
        have hlens := len_modified hcut hcontent
        intro i y hy
        rw [insert_curs hcur hfull, Option.map_eq_some_iff] at hy
        obtain ⟨x, hx, rfl⟩ := hy
        have hrange := h i x hx
        split
        · rw [hlens]
          simp
          omega
        · split
          · next hafter =>
              rw [hlens]
              simp only [← hafter.1, if_true]
              rw [← hafter.1, hlen] at hrange
              simp at hrange ⊢
              omega
          · rw [hlens]
            split
            · next hrow =>
                rw [hrow, hlen] at hrange
                simp at hrange ⊢
                omega
            · exact hrange

/-- What is no character moves the cursors all the same. -/
theorem InRange.insert_invalid (h : InRange d) (hwf : d.Wf) {cur : Place} (hcur : d.curs id = some cur)
    (hroom : ¬ sizeT (d.width - 1) ≤ d.len cur.row) {chr : UInt8} (hchr : chr = 0 ∨ 128 ≤ chr.toNat) :
    InRange (d.insert id chr) ↔ cur.pos < d.len cur.row ∧
      ∀ i x, i ≠ id → d.curs i = some x → x.row = cur.row → cur.pos + 1 < x.pos → x.pos < d.len cur.row := by
  obtain ⟨A, lid, u, v, B, hcut, hplace⟩ := h.cut hwf hcur
  have hcontent : (d.insert id chr).content = d.content := by
    rw [hplace] at hcur
    exact insert_invalid_content hcut hcur hchr
  have hlens : ∀ k, (d.insert id chr).len k = d.len k := fun k => by rw [len_eq, len_eq, hcontent]
  have hat : ∀ i x, d.curs i = some x → (d.insert id chr).curs i = some
      (if i = id then { cur with pos := cur.pos + 1 }
      else if cur.row = x.row ∧ cur.pos + 1 < x.pos then { x with pos := x.pos + 1 } else x) := by
    intro i x hx
    rw [insert_curs hcur hroom, hx, Option.map_some]
  constructor
  · refine fun hrange => ⟨?_, fun i x hi hx hrow hlt => ?_⟩
    · have := (hrange id _ (hat id cur hcur)).2
      simp only [if_true, hlens] at this
      omega
    · have := (hrange i _ (hat i x hx)).2
      simp only [if_neg hi, hrow, true_and, if_pos hlt, hlens] at this
      omega
  · rintro ⟨hlt, hothers⟩ i y hy
    rw [insert_curs hcur hroom, Option.map_eq_some_iff] at hy
    obtain ⟨x, hx, rfl⟩ := hy
    have hrange := h i x hx
    have hcurpos := (h id cur hcur).1
    rw [hlens]
    split
    · simp only
      omega
    · next hi =>
        split
        · next hafter =>
            have := hothers i x hi hx hafter.1.symm hafter.2
            simp only [← hafter.1]
            omega
        · exact hrange

/-! ## Line breaks -/

/-- Where a break at `cur` takes the other cursors. -/
def breakPlace (cur x : Place) : Place :=
  if x.row < cur.row then x
  else if cur.row < x.row then { x with row := x.row + 1 }
  else if cur.pos < x.pos ∨ cur.pos = 0 then ⟨x.row + 1, x.pos - cur.pos⟩
  else x

/-- A break at the start of a line takes all cursors on it down; the own cursor of a server is left out. -/
theorem newLine_homeUp_curs {cur : Place} (hcur : d.curs id = some cur) (hpos : cur.pos = 0) (i : Int)
    (hhome : ¬ (d.serverMode ∧ i = 0)) : ((d.recount 1).newLine cur.row).homeUp.curs i =
      (d.curs i).map fun x => if i = id then ⟨cur.row + 1, 0⟩ else breakPlace cur x := by
  have hstay : ((d.recount 1).newLine cur.row).homeUp.curs i = ((d.recount 1).newLine cur.row).curs i := by
    have hmode : ((d.recount 1).newLine cur.row).serverMode = d.serverMode := rfl
    rw [homeUp, mapCurs_curs]
    refine (Option.map_congr fun x _ => if_neg ?_).trans Option.map_id'
    rintro ⟨hi, hserver, -⟩
    exact hhome ⟨hmode ▸ hserver, hi⟩
  rw [hstay]
  show (d.curs i).map _ = _
  refine Option.map_congr fun x hx => ?_
  split
  · next hi =>
      rw [hi, hcur] at hx
      obtain rfl := Option.some.inj hx
      simp [bump, hpos]
  · obtain ⟨r, pos⟩ := x
    simp only [breakPlace, hpos, bump]
    grind

theorem newBelow_curs (d : Doc R) (k : Nat) (i : Int) :
    (d.newBelow k).curs i = (d.curs i).map fun x => ⟨bump (k + 1) x.row, x.pos⟩ := by
  unfold newBelow
  split <;> rfl

/-- A break inside a line takes the cursors behind it down with the text. -/
theorem InRange.splitCurs_curs (h : InRange d) (hwf : d.Wf) {A B : List (Int × List Char)} {lid : Int} {u v : List Char}
    (hcut : d.content = A ++ (lid, u ++ v) :: B) (hcur : d.curs id = some ⟨A.length, u.length⟩) (hu : u ≠ []) {i : Int}
    (hi : i ≠ id) : ((((d.recount 1).newBelow A.length).splitText A.length u.length).splitCurs id ⟨A.length, u.length⟩).curs i =
      (d.curs i).map (breakPlace ⟨A.length, u.length⟩) := by
  have hrow := hwf.curs_le id _ hcur
  have hnew := newBelow_content (d.recount 1) A.length
  rw [show (d.recount 1).content = d.content from rfl, hcut, insertIdx_cut_succ] at hnew
  generalize he : ((d.recount 1).newBelow A.length).splitText A.length u.length = e
  have hecurs : e.curs i = (d.curs i).map fun x => ⟨bump (A.length + 1) x.row, x.pos⟩ := by
    rw [← he]
    exact newBelow_curs (d.recount 1) A.length i
  have hecontent : e.content = A ++ (lid, u) :: (d.lineIdCnt, v) :: B := by
    rw [← he]
    exact splitText_content hnew
  have helen : e.len (A.length + 1) = v.length := by
    rw [List.append_cons] at hecontent
    have := len_of_cut hecontent
    rwa [List.length_append, List.length_singleton] at this
  have helines : A.length + 1 < e.lines.length := by
    have := congrArg List.length hecontent
    simp [content] at this
    omega
  have helast : e.last = d.last + 1 := by
    rw [← he]
    exact newBelow_last hrow
  rw [splitCurs, mapCurs_curs, hecurs, Option.map_map]
  refine Option.map_congr fun x hx => ?_
  have hrange := h i x hx
  obtain ⟨r, pos⟩ := x
  have hu : ¬ (u.length : Int) = 0 := by simpa using hu
  simp only [Function.comp_apply]
  by_cases hsame : r = A.length
  · subst hsame
    have hline := len_of_cut hcut
    simp only [hline, List.length_append] at hrange
    have hbump : bump (A.length + 1) A.length = A.length := by simp [bump]
    simp only [hbump, ne_eq, hi, not_false_eq_true, true_and, breakPlace, Nat.lt_irrefl, if_false, hu, or_false]
    split
    · simp only [step]
      rw [if_pos ⟨helines, by simp only at hrow; omega⟩, cut_of_le e (by omega) (by omega)]
    · rfl
  · have hother : ¬ (i ≠ id ∧ A.length = bump (A.length + 1) r ∧ (u.length : Int) < pos) := by
      rintro ⟨-, hr, -⟩
      simp only [bump] at hr
      split at hr
      · omega
      · exact hsame hr.symm
    rw [if_neg hother]
    simp only [breakPlace, bump]
    grind

/-- A break takes its cursor to the start of the line below, and the ones to its right along; only the own cursor of
    a server goes back up. -/
theorem InRange.insertLine_curs (h : InRange d) (hwf : d.Wf) {cur : Place} (hcur : d.curs id = some cur) (i : Int)
    (hhome : ¬ (d.serverMode ∧ i = 0 ∧ cur.pos = 0)) :
    (d.insertLine id).curs i = (d.curs i).map fun x => if i = id then ⟨cur.row + 1, 0⟩ else breakPlace cur x := by
  obtain ⟨A, lid, u, v, B, hcut, rfl⟩ := h.cut hwf hcur
  simp only [Doc.insertLine, hcur]
  by_cases hu : (u.length : Int) = 0
  · rw [if_pos hu]
    exact newLine_homeUp_curs hcur hu i fun hserver => hhome ⟨hserver.1, hserver.2, hu⟩
  · rw [if_neg hu]
    have hlen : (d.recount 1).len A.length = (u ++ v).length := len_of_cut hcut
    simp only [insertBelow, sizeT_natCast, hlen]
    by_cases hv : v = []
    · -- nothing is behind the cursor
      subst hv
      rw [if_neg (by simp), mapCurs_curs, newBelow_curs, Option.map_map]
      refine Option.map_congr fun x hx => ?_
      simp only [Function.comp_apply]
      split
      · rfl
      · have hrange := h i x hx
        obtain ⟨r, pos⟩ := x
        have hcol : r = A.length → pos ≤ u.length := by
          rintro rfl
          have hline := len_of_cut hcut
          simp at hline hrange
          omega
        simp only [breakPlace, bump]
        grind
    · rw [if_pos (by simpa using hv), mapCurs_curs]
      by_cases hi : i = id
      · have hsplit : (((d.recount 1).newBelow A.length).splitText A.length u.length).curs i =
            ((d.recount 1).newBelow A.length).curs i := rfl
        rw [splitCurs, mapCurs_curs, hsplit, newBelow_curs, Option.map_map, Option.map_map]
        exact Option.map_congr fun x _ => by simp only [Function.comp_apply, if_pos hi]
      · simp only [if_neg hi, Option.map_id']
        exact h.splitCurs_curs hwf hcut hcur (by simpa using hu) hi

/-- The lengths of the lines after a break. -/
theorem len_broken (hd : d.content = A ++ (lid, u ++ v) :: B) {lid₁ lid₂ : Int}
    (he : e.content = A ++ (lid₁, u) :: (lid₂, v) :: B) (k : Nat) : e.len k =
      if k < A.length then d.len k else if k = A.length then u.length
      else if k = A.length + 1 then v.length else d.len (k - 1) := by
  rcases Nat.lt_trichotomy k A.length with hlt | rfl | hgt
  · rw [if_pos hlt]
    exact len_before hd he hlt
  · rw [if_neg (Nat.lt_irrefl _), if_pos rfl, len_of_cut he]
  · rw [if_neg (by omega), if_neg (by omega)]
    split
    · next hk =>
        rw [List.append_cons] at he
        have hlen := len_of_cut he
        rw [List.length_append, List.length_singleton] at hlen
        rw [hk, hlen]
    · obtain ⟨j, rfl⟩ : ∃ j, k = A.length + 2 + j := ⟨k - (A.length + 2), by omega⟩
      have hsub : A.length + 2 + j - 1 = A.length + 1 + j := by omega
      rw [hsub]
      refine len_after (M := [(lid, u ++ v)]) (N := [(lid₁, u), (lid₂, v)]) (B := B) ?_ ?_ j
      · simpa using hd
      · simpa using he

theorem InRange.newLine (h : InRange d) (k : Nat) : InRange (d.newLine k) := by
  intro i y hy
  obtain ⟨x, hx, rfl⟩ := Option.map_eq_some_iff.mp hy
  have hlen : (d.newLine k).len (bump k x.row) = d.len x.row := by
    rw [len_eq, len_eq, newLine_content, getElem?_insertIdx_bump]
  simp only [hlen]
  exact h i x hx

theorem InRange.insertLine (h : InRange d) (hwf : d.Wf) (id : Int) : InRange (d.insertLine id) := by
  cases hcur : d.curs id with
  | none =>
      simp only [Doc.insertLine, hcur]
      exact h
  | some cur =>
      by_cases hpos : cur.pos = 0
      · simp only [Doc.insertLine, hcur, if_pos hpos]
        have hcount : InRange (d.recount 1) := h
        refine (hcount.newLine cur.row).mapCurs fun i x _ h0 hle => ?_
        split
        · exact step_inRange h0 hle .up
        · exact ⟨h0, hle⟩
      · obtain ⟨A, lid, u, v, B, hcut, rfl⟩ := h.cut hwf hcur
        have hu : u ≠ [] := by
          rintro rfl
          exact hpos rfl
        have hcontent := insertLine_content hcut hcur
        rw [if_neg hu, List.append_assoc] at hcontent
        have hlens := len_broken hcut hcontent
        have hline := len_of_cut hcut
        rw [List.length_append] at hline
        intro i y hy
        rw [h.insertLine_curs hwf hcur i (fun hhome => hpos hhome.2.2), Option.map_eq_some_iff] at hy
        obtain ⟨x, hx, rfl⟩ := hy
        have hrange := h i x hx
        rw [hlens]
        unfold breakPlace
        grind

/-! ## Deletions -/

theorem delChar_curs {cur : Place} (hcur : d.curs id = some cur) (hpos : 0 < cur.pos) (i : Int) :
    (d.del id).curs i = (d.curs i).map fun x =>
      if i = id then { cur with pos := cur.pos - 1 }
      else if cur.row = x.row ∧ cur.pos - 1 < x.pos then { x with pos := x.pos - 1 } else x := by
  simp only [del, hcur, if_pos hpos]
  rfl

/-- Where joining the line below line `k`, which has `n` characters, takes a cursor. -/
def joinPlace (k n : Nat) (x : Place) : Place :=
  if x.row ≤ k then x else if x.row = k + 1 then ⟨k, x.pos + n⟩ else { x with row := x.row - 1 }

/-- The cursors of a line go with it when it is joined to the line above. -/
theorem InRange.join_curs (h : InRange d) {x : Int × List Char} (hcut : d.content = A ++ (lid, u) :: x :: B) {cur : Place}
    (hcur : d.curs id = some cur) (i : Int) : (d.join id A.length).curs i = (d.curs i).map fun y =>
      if i = id then ⟨A.length, (u.length : Nat)⟩ else joinPlace A.length u.length y := by
  have hlen := len_of_cut hcut
  generalize he : ((((d.recount (-1)).put id ⟨A.length, d.len A.length⟩).raiseLast A.length).joinText A.length) = e
  have hecontent : e.content = A ++ (lid, u ++ x.2) :: x :: B := by
    rw [← he]
    exact joinText_content (by rw [raiseLast_content]; exact hcut)
  have helen : e.len A.length = u.length + x.2.length := by
    rw [len_of_cut hecontent, List.length_append]
  have hbelow : d.len (A.length + 1) = x.2.length := by
    rw [List.append_cons] at hcut
    have := len_of_cut hcut
    rwa [List.length_append, List.length_singleton] at this
  have hecurs : e.curs i = (d.curs i).map fun y => if i = id then ⟨A.length, (u.length : Nat)⟩ else y := by
    have hjoin : ∀ f : Doc R, (f.joinText A.length).curs = f.curs := by
      intro f
      obtain ⟨g, hg⟩ := f.joinText_eq A.length
      rw [hg]
      rfl
    have hraise : ∀ f : Doc R, (f.raiseLast A.length).curs = f.curs := by
      intro f
      unfold raiseLast
      split <;> rfl
    rw [← he, hjoin, hraise, hlen]
    simp only [Doc.put]
    split
    · next hi => rw [hi, hcur, Option.map_some]
    · exact Option.map_id'.symm
  show ((((d.recount (-1)).put id ⟨A.length, d.len A.length⟩).raiseLast A.length).joinText A.length |>.joinCurs id A.length
    (d.len A.length) |>.eraseLine (A.length + 1)).curs i = _
  rw [he]
  show ((e.curs i).map _).map _ = _
  rw [hecurs, Option.map_map, Option.map_map]
  refine Option.map_congr fun y hy => ?_
  have hrange := h i y hy
  obtain ⟨r, pos⟩ := y
  simp only [Function.comp_apply, joinPlace]
  by_cases hi : i = id
  · simp [hi, unbump]
  · by_cases hr : A.length + 1 = r
    · subst hr
      simp only [hbelow] at hrange
      have hstep : e.step ⟨A.length + 1, pos⟩ .up = ⟨A.length, pos⟩ := by
        have hcol : pos ≤ e.len A.length := by omega
        simp only [step, Nat.succ_ne_zero, ne_eq, not_false_eq_true, if_true, Nat.add_sub_cancel, cut_of_le e hrange.1 hcol]
      simp [hi, hstep, hlen, unbump]
    · simp only [hi, if_false, ne_eq, not_false_eq_true, true_and, hr]
      unfold unbump
      grind

/-- The line of a cursor that is not the first one, and the line above it. -/
theorem exists_join_cut (hwf : d.Wf) {cur : Place} (hcur : d.curs id = some cur) (hrow : cur.row ≠ 0) :
    ∃ A lid u x B, d.content = A ++ (lid, u) :: x :: B ∧ cur.row = A.length + 1 := by
  have hlt : cur.row < d.content.length := by
    have := hwf.curs_le id cur hcur
    have := hwf.last_lt
    simp only [content, List.length_map]
    omega
  obtain ⟨k, hk⟩ : ∃ k, cur.row = k + 1 := ⟨cur.row - 1, by omega⟩
  rw [hk] at hlt
  refine ⟨d.content.take k, d.content[k].1, d.content[k].2, d.content[k + 1], d.content.drop (k + 2), ?_, ?_⟩
  · rw [← List.drop_eq_getElem_cons hlt, ← List.drop_eq_getElem_cons (Nat.lt_of_succ_lt hlt), List.take_append_drop]
  · rw [List.length_take, Nat.min_eq_left (by omega), hk]

theorem InRange.join (h : InRange d) {x : Int × List Char} (hcut : d.content = A ++ (lid, u) :: x :: B) {cur : Place}
    (hcur : d.curs id = some cur) : InRange (d.join id A.length) := by
  have hcontent := join_content hcut id
  have hlens := len_broken hcontent hcut
  have hline := len_of_cut hcontent
  rw [List.length_append] at hline
  intro i z hz
  rw [h.join_curs hcut hcur, Option.map_eq_some_iff] at hz
  obtain ⟨y, hy, rfl⟩ := hz
  have hrange := h i y hy
  rw [hlens] at hrange
  unfold joinPlace
  split
  · rw [hline]
    simp
  · obtain ⟨r, pos⟩ := y
    simp only at hrange ⊢
    grind

theorem InRange.del (h : InRange d) (hwf : d.Wf) (id : Int) : InRange (d.del id) := by
  cases hcur : d.curs id with
  | none =>
      simp only [Doc.del, hcur]
      exact h
  | some cur =>
      by_cases hpos : 0 < cur.pos
      · obtain ⟨A, lid, u, v, B, hcut, rfl⟩ := h.cut hwf hcur
        obtain ⟨w, c, rfl⟩ : ∃ w c, u = w ++ [c] := by
          refine ⟨u.dropLast, u.getLast (by rintro rfl; exact absurd hpos (by simp)), ?_⟩
          exact (List.dropLast_append_getLast _).symm
        have hlens := len_modified hcut (delChar_content hcut hcur)
        have hline := len_of_cut hcut
        simp only [List.length_append, List.length_singleton] at hline hlens
        intro i y hy
        rw [delChar_curs hcur hpos, Option.map_eq_some_iff] at hy
        obtain ⟨x, hx, rfl⟩ := hy
        have hrange := h i x hx
        rw [hlens]
        simp only [List.length_append, List.length_singleton] at hrange ⊢
        grind
      · by_cases hrow : cur.row = 0
        · simp only [Doc.del, hcur, if_neg hpos, if_pos hrow]
          exact h
        · obtain ⟨A, lid, u, x, B, hcut, hk⟩ := exists_join_cut hwf hcur hrow
          have hk' : cur.row - 1 = A.length := by omega
          simp only [Doc.del, hcur, if_neg hpos, if_neg hrow, hk']
          exact h.join hcut hcur

end

end Doc

end CoEditor
