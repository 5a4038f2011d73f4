-- SUMMARY: What the operations do to the text of a document and to the offsets of the cursors in it.
import CoEditor.Doc.Range

/-!
# Offsets in documents

The text of a document is that of its lines up to `last`. An operation at a
cursor in range is an edit of this text at the offset of the cursor, and the
other cursors keep their places in the text.
-/

namespace CoEditor

variable {R : Type} [Rope R]

namespace Doc

/-- The text of the lines up to `last`, with newlines between them. -/
def text (d : Doc R) : List Char := joined '\n' d.texts

/-- The offset of a place in the text. -/
def offset (d : Doc R) (x : Place) : Int := CoEditor.offset d.texts x.row x.pos

/-- The offset of cursor `i`. -/
def offsetOf (d : Doc R) (i : Int) : Option Int := (d.curs i).map d.offset

variable {d e : Doc R} {A B M N : List (Int × List Char)} {lid id : Int} {u v : List Char}

/-- Lines up to `last` change to others. -/
theorem Wf.texts_splice (hwf : d.Wf) (hwf' : e.Wf) (hheight : e.height = d.height) (hd : d.content = A ++ M ++ B)
    (he : e.content = A ++ N ++ B) (hle : A.length + M.length ≤ d.last + 1) :
    ∃ B', d.texts = A.map Prod.snd ++ M.map Prod.snd ++ B' ∧ e.texts = A.map Prod.snd ++ N.map Prod.snd ++ B' := by
  have hlast := hwf.last
  have hlast' := hwf'.last
  have hlen : d.content.length = d.lines.length := by simp [content]
  have hlen' : e.content.length = e.lines.length := by simp [content]
  have hcut : ∀ (f : Doc R) (L : List (Int × List Char)) (n : Nat), f.content = A ++ L ++ B →
      f.last + 1 = (A ++ L).length + n → f.texts = A.map Prod.snd ++ L.map Prod.snd ++ (B.take n).map Prod.snd := by
    intro f L n hf hn
    rw [texts_eq, hf, hn, List.take_length_add_append, List.map_append, List.map_append]
  rw [hd, List.length_append, List.length_append] at hlen
  rw [he, List.length_append, List.length_append] at hlen'
  refine ⟨(B.take (d.last + 1 - (A ++ M).length)).map Prod.snd, hcut d M _ hd ?_, hcut e N _ he ?_⟩
  · rw [List.length_append]
    omega
  · rw [List.length_append, List.length_append]
    omega

/-- A cursor in range is at a place of the text. -/
theorem InRange.hasColumn (h : InRange d) (hwf : d.Wf) {i : Int} {x : Place} (hx : d.curs i = some x) :
    HasColumn d.texts x.row x.pos := by
  obtain ⟨A, lid, u, v, B, hcut, rfl⟩ := h.cut hwf hx
  have hrow := hwf.curs_le i _ hx
  refine ⟨u ++ v, ?_, by simp⟩
  rw [texts_eq, List.getElem?_map, List.getElem?_take_of_lt (Nat.lt_succ_of_le hrow), hcut, getElem?_cut]
  rfl

/-- Offset `0` is the start of the first line. -/
theorem InRange.offset_eq_zero (h : InRange d) (hwf : d.Wf) {i : Int} {x : Place} (hx : d.curs i = some x)
    (hoffset : d.offset x = 0) : x = ⟨0, 0⟩ := by
  obtain ⟨r, pos⟩ := x
  obtain ⟨l, hl, hpos, -⟩ := h.hasColumn hwf hx
  have hrow : r = 0 := by
    cases r with
    | zero => rfl
    | succ k =>
        have hlt := (List.getElem?_eq_some_iff.mp hl).1
        have hstart := lineStart_succ (List.getElem?_eq_getElem (Nat.lt_of_succ_lt hlt))
        simp only [offset, CoEditor.offset] at hoffset hpos
        omega
  subst hrow
  simp only [offset, CoEditor.offset, lineStart_zero] at hoffset
  rw [Place.mk.injEq]
  omega

/-! ## Characters -/

/-- One line up to `last` changes. -/
theorem Wf.texts_modified (hwf : d.Wf) (hwf' : e.Wf) (hheight : e.height = d.height) (hd : d.content = A ++ (lid, u) :: B)
    (he : e.content = A ++ (lid, v) :: B) (hle : A.length ≤ d.last) :
    ∃ A' B' : List (List Char), A'.length = A.length ∧ d.texts = A' ++ u :: B' ∧ e.texts = A' ++ v :: B' := by
  obtain ⟨B', htexts, htexts'⟩ := hwf.texts_splice hwf' hheight (M := [(lid, u)]) (N := [(lid, v)]) (B := B)
    (by simpa using hd) (by simpa using he) (Nat.succ_le_succ hle)
  exact ⟨A.map Prod.snd, B', List.length_map _, by simpa using htexts, by simpa using htexts'⟩

/-- Typing puts the character into the text; of the other cursors only one that is one column to the right of the
    acting one does not keep its place. -/
theorem InRange.insert_text (h : InRange d) (hwf : d.Wf) {cur : Place} (hcur : d.curs id = some cur)
    (hroom : ¬ sizeT (d.width - 1) ≤ d.len cur.row) {chr : UInt8} (h0 : chr ≠ 0) (hascii : chr.toNat < 128) :
    (d.insert id chr).text = d.text.take (d.offset cur).toNat ++ [Char.ofNat chr.toNat] ++ d.text.drop (d.offset cur).toNat ∧
    ∀ i x, d.curs i = some x → (d.insert id chr).offsetOf i = some (
      if i = id ∨ d.offset cur < d.offset x ∧ x ≠ ⟨cur.row, cur.pos + 1⟩ then d.offset x + 1 else d.offset x) := by
  obtain ⟨A, lid, u, v, B, hcut, rfl⟩ := h.cut hwf hcur
  have hrow := hwf.curs_le id _ hcur
  have hlen := len_of_cut hcut
  simp only at hroom hrow
  have hcontent := insert_content hcut hcur (by rwa [hlen] at hroom) h0 hascii
  obtain ⟨A', B', hA, htexts, htexts'⟩ := hwf.texts_modified (hwf.insert id chr) (insert_height ..) hcut hcontent hrow
  have hoffset : d.offset ⟨A.length, u.length⟩ = cutOffset A' u := by
    rw [offset, htexts, ← hA, offset_cut]
  refine ⟨?_, fun i ⟨r, pos⟩ hx => ?_⟩
  · rw [text, text, htexts, htexts', joined_insert, hoffset, Int.toNat_natCast]
  · have hcol : HasColumn (A' ++ (u ++ v) :: B') r pos := htexts ▸ h.hasColumn hwf hx
    have hmove := offset_insert [Char.ofNat chr.toNat] hcol
    have hlt := cutOffset_lt_iff hcol
    rw [offsetOf, insert_curs hcur hroom, hx, Option.map_some, Option.map_some]
    by_cases hi : i = id
    · rw [hi, hcur] at hx
      obtain ⟨rfl, rfl⟩ := Place.mk.inj (Option.some.inj hx)
      rw [if_pos hi, if_pos (.inl hi), offset, offset, htexts, htexts']
      simp only [CoEditor.offset, lineStart_cut, hA, Nat.le_refl, if_true]
      rw [Int.add_assoc]
    · rw [hoffset]
      simp only [offset, htexts, htexts', hA, List.length_singleton] at hmove hlt ⊢
      rw [if_neg hi]
      congr 1
      have hstay : r = A.length → CoEditor.offset (A' ++ (u ++ [Char.ofNat chr.toNat] ++ v) :: B') r pos =
          CoEditor.offset (A' ++ (u ++ v) :: B') r pos := by
        intro hr
        simp only [CoEditor.offset, lineStart_cut, hr, hA, Nat.le_refl, if_true]
      have hcol : (⟨r, pos⟩ : Place) = ⟨A.length, u.length + 1⟩ ↔ r = A.length ∧ pos = u.length + 1 := by simp
      clear hcontent hcut hroom
      grind

/-! ## Line breaks -/

/-- Two lines up to `last` take the place of one. -/
theorem Wf.texts_broken (hwf : d.Wf) (hwf' : e.Wf) (hheight : e.height = d.height) {lid₁ lid₂ : Int} {t : List Char}
    (hd : d.content = A ++ (lid, t) :: B) (he : e.content = A ++ (lid₁, u) :: (lid₂, v) :: B) (hle : A.length ≤ d.last) :
    ∃ A' B' : List (List Char), A'.length = A.length ∧ d.texts = A' ++ t :: B' ∧ e.texts = A' ++ u :: v :: B' := by
  obtain ⟨B', htexts, htexts'⟩ := hwf.texts_splice hwf' hheight (M := [(lid, t)]) (N := [(lid₁, u), (lid₂, v)]) (B := B)
    (by simpa using hd) (by simpa using he) (Nat.succ_le_succ hle)
  exact ⟨A.map Prod.snd, B', List.length_map _, by simpa using htexts, by simpa using htexts'⟩

theorem insertLine_broken (hcut : d.content = A ++ (lid, u ++ v) :: B) (hcur : d.curs id = some ⟨A.length, u.length⟩) :
    ∃ lid₁ lid₂, (d.insertLine id).content = A ++ (lid₁, u) :: (lid₂, v) :: B := by
  rw [insertLine_content hcut hcur]
  split
  · next hu => exact ⟨d.lineIdCnt, lid, by simp [hu]⟩
  · exact ⟨lid, d.lineIdCnt, by simp⟩

theorem breakPlace_cases (cur : Place) {x : Place} (h0 : 0 ≤ x.pos) :
    (x.row < cur.row ∨ x.row = cur.row ∧ x.pos ≤ cur.pos) ∧ breakPlace cur x = x ∨
      x.row = cur.row ∧ cur.pos ≤ x.pos ∧ breakPlace cur x = ⟨x.row + 1, x.pos - cur.pos⟩ ∨
      cur.row < x.row ∧ breakPlace cur x = ⟨x.row + 1, x.pos⟩ := by
  unfold breakPlace
  split
  · next hlt => exact .inl ⟨.inl hlt, rfl⟩
  · split
    · next hlt => exact .inr (.inr ⟨hlt, rfl⟩)
    · have hrow : x.row = cur.row := by omega
      split
      · exact .inr (.inl ⟨hrow, by omega, rfl⟩)
      · exact .inl ⟨.inr ⟨hrow, by omega⟩, rfl⟩

/-- A break puts a newline into the text. The acting cursor is then at the start of what was to its right, and the
    others keep their places, but for the own cursor of a server. -/
theorem InRange.insertLine_text (h : InRange d) (hwf : d.Wf) {cur : Place} (hcur : d.curs id = some cur) :
    (d.insertLine id).text = d.text.take (d.offset cur).toNat ++ '\n' :: d.text.drop (d.offset cur).toNat ∧
    (d.insertLine id).texts[cur.row + 1]? = d.texts[cur.row]?.map (·.drop cur.pos.toNat) ∧
    ∀ i x, d.curs i = some x → ¬ (d.serverMode ∧ i = 0 ∧ cur.pos = 0) → ∃ y, (d.insertLine id).curs i = some y ∧
      (i = id → y = ⟨cur.row + 1, 0⟩ ∧ (d.insertLine id).offset y = d.offset x + 1) ∧
      (i ≠ id → d.offset cur < d.offset x → (d.insertLine id).offset y = d.offset x + 1) ∧
      (i ≠ id → d.offset x < d.offset cur → y = x ∧ (d.insertLine id).offset y = d.offset x) := by
  have hcurs := fun i => h.insertLine_curs hwf hcur i
  obtain ⟨A, lid, u, v, B, hcut, rfl⟩ := h.cut hwf hcur
  have hrow := hwf.curs_le id _ hcur
  obtain ⟨lid₁, lid₂, hcontent⟩ := insertLine_broken hcut hcur
  obtain ⟨A', B', hA, htexts, htexts'⟩ := hwf.texts_broken (hwf.insertLine id) (insertLine_height ..) hcut hcontent hrow
  have hoffset : d.offset ⟨A.length, u.length⟩ = cutOffset A' u := by
    rw [offset, htexts, ← hA, offset_cut]
  refine ⟨?_, ?_, fun i ⟨r, pos⟩ hx hhome => ?_⟩
  · rw [text, text, htexts, htexts', joined_break '\n' A' u v, hoffset, Int.toNat_natCast]
  · rw [htexts, htexts', ← hA, getElem?_cut, List.getElem?_append_right (Nat.le_succ _)]
    simp
  · have hcol : HasColumn (A' ++ (u ++ v) :: B') r pos := htexts ▸ h.hasColumn hwf hx
    have hplaces : ∀ y, y = breakPlace ⟨A.length, u.length⟩ ⟨r, pos⟩ →
        (d.offset ⟨A.length, u.length⟩ < d.offset ⟨r, pos⟩ → (d.insertLine id).offset y = d.offset ⟨r, pos⟩ + 1) ∧
        (d.offset ⟨r, pos⟩ < d.offset ⟨A.length, u.length⟩ → y = ⟨r, pos⟩ ∧ (d.insertLine id).offset y = d.offset ⟨r, pos⟩) := by
      rintro y rfl
      have hbefore := lt_cutOffset_iff hcol
      have hplace : (r < A'.length ∨ r = A'.length ∧ pos ≤ (u.length : Int)) ∧
            (breakPlace ⟨A.length, u.length⟩ ⟨r, pos⟩).row = r ∧ (breakPlace ⟨A.length, u.length⟩ ⟨r, pos⟩).pos = pos ∨
          r = A'.length ∧ (u.length : Int) ≤ pos ∧ (breakPlace ⟨A.length, u.length⟩ ⟨r, pos⟩).row = r + 1 ∧
            (breakPlace ⟨A.length, u.length⟩ ⟨r, pos⟩).pos = pos - u.length ∨
          A'.length < r ∧ (breakPlace ⟨A.length, u.length⟩ ⟨r, pos⟩).row = r + 1 ∧
            (breakPlace ⟨A.length, u.length⟩ ⟨r, pos⟩).pos = pos := by
        rcases breakPlace_cases ⟨A.length, u.length⟩ (x := ⟨r, pos⟩) hcol.choose_spec.2.1 with
          ⟨hle, hy⟩ | ⟨hr, hle, hy⟩ | ⟨hlt, hy⟩
        · exact .inl ⟨hA.symm ▸ hle, by rw [hy], by rw [hy]⟩
        · exact .inr (.inl ⟨hA.symm ▸ hr, hle, by rw [hy], by rw [hy]⟩)
        · exact .inr (.inr ⟨hA.symm ▸ hlt, by rw [hy], by rw [hy]⟩)
      have hmove := offset_break hcol hplace
      rw [hoffset]
      simp only [offset, htexts, htexts', hA] at hmove hbefore ⊢
      refine ⟨hmove.1, fun hlt => ⟨?_, hmove.2 hlt⟩⟩
      have hplace := hbefore.mp hlt
      rcases breakPlace_cases ⟨A.length, u.length⟩ (x := ⟨r, pos⟩) hcol.choose_spec.2.1 with
        ⟨-, hy⟩ | ⟨hr, hle, -⟩ | ⟨hgt, -⟩
      · exact hy
      · simp only at hr hle
        omega
      · simp only at hgt
        omega
    refine ⟨_, by rw [hcurs i hhome, hx, Option.map_some], fun hi => ?_, fun hi => ?_, fun hi => ?_⟩
    · rw [hi, hcur] at hx
      obtain ⟨rfl, rfl⟩ := Place.mk.inj (Option.some.inj hx)
      rw [if_pos hi]
      refine ⟨rfl, ?_⟩
      simp only [offset, htexts, htexts', CoEditor.offset, lineStart_broken A' u v, lineStart_cut A' (u ++ v), hA]
      simp
    · exact (hplaces _ (if_neg hi)).1
    · exact (hplaces _ (if_neg hi)).2

/-! ## Deletions -/

theorem InRange.delChar_text (h : InRange d) (hwf : d.Wf) {cur : Place} (hcur : d.curs id = some cur) (hpos : 0 < cur.pos) :
    0 < d.offset cur ∧ (d.del id).text = d.text.eraseIdx ((d.offset cur).toNat - 1) ∧
    ∀ i x, d.curs i = some x → (d.del id).offsetOf i = some (
      if d.offset cur ≤ d.offset x then d.offset x - 1 else d.offset x) := by
  obtain ⟨A, lid, w, v, B, hcut, rfl⟩ := h.cut hwf hcur
  have hrow := hwf.curs_le id _ hcur
  obtain ⟨u, c, rfl⟩ : ∃ u c, w = u ++ [c] := by
    refine ⟨w.dropLast, w.getLast (by rintro rfl; exact absurd hpos (by simp)), ?_⟩
    exact (List.dropLast_append_getLast _).symm
  have hcontent := delChar_content hcut hcur
  obtain ⟨A', B', hA, htexts, htexts'⟩ := hwf.texts_modified (hwf.del id) (del_height ..) hcut hcontent hrow
  have hoffset : d.offset ⟨A.length, (u ++ [c]).length⟩ = cutOffset A' (u ++ [c]) := by
    rw [offset, htexts, ← hA, offset_cut]
  have hsucc : cutOffset A' (u ++ [c]) = cutOffset A' u + 1 := by
    simp [cutOffset, Nat.add_assoc]
  refine ⟨by omega, ?_, ?_⟩
  · rw [text, text, htexts, htexts', hoffset, Int.toNat_natCast, hsucc, Nat.add_sub_cancel, joined_erase]
  · rintro i ⟨r, pos⟩ hx
    have hcol : HasColumn (A' ++ (u ++ [c] ++ v) :: B') r pos := htexts ▸ h.hasColumn hwf hx
    have hmove := offset_erase hcol
    rw [offsetOf, delChar_curs hcur hpos, hx, Option.map_some, Option.map_some, hoffset]
    congr 1
    simp only [offset, htexts, htexts'] at hmove ⊢
    have hlen : ((u ++ [c]).length : Int) - 1 = u.length := by simp
    rw [← hmove, hA, hlen]
    by_cases hi : i = id
    · rw [hi, hcur] at hx
      obtain ⟨rfl, rfl⟩ := Place.mk.inj (Option.some.inj hx)
      have hlt : (u.length : Int) < ((u ++ [c]).length : Nat) := by simp
      rw [if_pos hi, if_pos ⟨rfl, hlt⟩, hlen]
    · rw [if_neg hi]
      split <;> rfl

theorem InRange.join_text (h : InRange d) (hwf : d.Wf) {cur : Place} (hcur : d.curs id = some cur) (hpos : ¬ 0 < cur.pos)
    (hrow : cur.row ≠ 0) : 0 < d.offset cur ∧ (d.del id).text = d.text.eraseIdx ((d.offset cur).toNat - 1) ∧
    ∀ i x, d.curs i = some x → (d.del id).offsetOf i = some (
      if d.offset cur ≤ d.offset x then d.offset x - 1 else d.offset x) := by
  have hle := hwf.curs_le id _ hcur
  have hrange := h id _ hcur
  have hwf' := hwf.del id
  have hheight := del_height d id
  obtain ⟨A, lid, u, ⟨lid', v⟩, B, hcut, hk⟩ := exists_join_cut hwf hcur hrow
  obtain ⟨r₀, p₀⟩ := cur
  obtain rfl : r₀ = A.length + 1 := hk
  obtain rfl : p₀ = 0 := by
    simp only at hpos hrange
    omega
  have hdel : d.del id = d.join id A.length := by
    simp only [Doc.del, hcur, if_neg hpos, if_neg hrow, Nat.add_sub_cancel]
  rw [hdel] at hwf' hheight ⊢
  have hcontent := join_content hcut id
  have hlast : A.length ≤ (d.join id A.length).last := by
    have hlen : d.content.length = d.lines.length := by simp [content]
    have hlen' : (d.join id A.length).content.length = (d.join id A.length).lines.length := by simp [content]
    have := hwf.last
    have := hwf'.last
    simp only [hcut, hcontent, List.length_append, List.length_cons] at hlen hlen'
    simp only at hle
    omega
  obtain ⟨A', B', hA, htexts', htexts⟩ := hwf'.texts_broken hwf hheight.symm hcontent hcut hlast
  have hstart : d.offset ⟨A.length + 1, 0⟩ = cutOffset A' u + 1 := by
    simp only [offset, htexts, CoEditor.offset, lineStart_broken, hA]
    simp [cutOffset, hA]
  refine ⟨by omega, ?_, ?_⟩
  · have hnat : (d.offset ⟨A.length + 1, 0⟩).toNat - 1 = cutOffset A' u := by omega
    rw [text, text, htexts, htexts', hnat, joined_join]
  · rintro i ⟨r, pos⟩ hx
    have hcol : HasColumn (A' ++ u :: v :: B') r pos := htexts ▸ h.hasColumn hwf hx
    rw [offsetOf, h.join_curs hcut hcur, hx, Option.map_some, Option.map_some]
    congr 1
    simp only [offset, htexts, htexts'] at hstart ⊢
    by_cases hi : i = id
    · rw [hi, hcur] at hx
      obtain ⟨rfl, rfl⟩ := Place.mk.inj (Option.some.inj hx)
      rw [if_pos hi, if_pos (Int.le_refl _), hstart, ← hA, offset_cut]
      omega
    · rw [if_neg hi, ← hA]
      refine offset_join hcol ?_
      unfold joinPlace
      grind

/-- Deleting takes the character before the cursor out of the text, and every cursor keeps its place. -/
theorem InRange.del_text (h : InRange d) (hwf : d.Wf) {cur : Place} (hcur : d.curs id = some cur)
    (hstart : ¬ (¬ 0 < cur.pos ∧ cur.row = 0)) : (d.del id).text = d.text.eraseIdx ((d.offset cur).toNat - 1) ∧
    ∀ i x, d.curs i = some x → (d.del id).offsetOf i = some (
      if d.offset cur ≤ d.offset x then d.offset x - 1 else d.offset x) := by
  by_cases hpos : 0 < cur.pos
  · exact (h.delChar_text hwf hcur hpos).2
  · exact (h.join_text hwf hcur hpos fun hrow => hstart ⟨hpos, hrow⟩).2

/-! ## Moves -/

theorem InRange.step_left (h : InRange d) (hwf : d.Wf) {i : Int} {x : Place} (hx : d.curs i = some x) :
    d.offset (d.step x .left) = if d.offset x = 0 then 0 else d.offset x - 1 := by
  have hcol := h.hasColumn hwf hx
  have hpos := (h i x hx).1
  simp only [step]
  split
  · simp only [offset, CoEditor.offset]
    omega
  · split
    · next hrow =>
        obtain ⟨k, hk⟩ : ∃ k, x.row = k + 1 := ⟨x.row - 1, by omega⟩
        have hlast := hwf.curs_le i x hx
        have hget := texts_getElem? (d := d) (k := k) (by omega)
        obtain ⟨l, hl⟩ : ∃ l, d.lines[k]? = some l := ⟨_, List.getElem?_eq_getElem (by have := hwf.last_lt; omega)⟩
        rw [hl, Option.map_some] at hget
        have hlen : d.len k = (Rope.chars l.2).length := by
          rw [Doc.len, hl, Option.map_some, Option.getD_some, Rope.charCount_eq]
        have hstart := lineStart_succ hget
        simp only [offset, CoEditor.offset, hk, Nat.add_sub_cancel, hlen]
        omega
    · next hrow =>
        have hrow : x.row = 0 := not_not.mp hrow
        simp only [offset, CoEditor.offset, hrow, lineStart_zero]
        omega

theorem InRange.step_right (h : InRange d) (hwf : d.Wf) {i : Int} {x : Place} (hx : d.curs i = some x) :
    d.offset (d.step x .right) = if d.offset x = d.text.length then d.offset x else d.offset x + 1 := by
  have hcol := h.hasColumn hwf hx
  have hmove := (h.move i .right).hasColumn (hwf.move i .right) (i := i) (x := d.step x .right) (by
    simp [Doc.move, hx])
  have hle : d.offset (d.step x .right) ≤ d.text.length := offset_le_length '\n' hmove
  obtain ⟨hpos, hlen⟩ := h i x hx
  have hlast := hwf.curs_le i x hx
  have hlt := hwf.last_lt
  obtain ⟨l, hl⟩ : ∃ l, d.lines[x.row]? = some l := ⟨_, List.getElem?_eq_getElem (by omega)⟩
  have hget := texts_getElem? hlast
  rw [hl, Option.map_some] at hget
  have hchars : d.len x.row = (Rope.chars l.2).length := by
    rw [Doc.len, hl, Option.map_some, Option.getD_some, Rope.charCount_eq]
  simp only [step, sizeT_of_nonneg hpos] at hle ⊢
  by_cases hin : x.pos.toNat < d.len x.row
  · rw [if_pos hin] at hle ⊢
    simp only [offset, CoEditor.offset] at hle ⊢
    omega
  · rw [if_neg hin] at hle ⊢
    by_cases hend : x.row = d.last
    · have htext : d.offset x = d.text.length := by
        have hlines := texts_length (Nat.lt_of_succ_lt hlt)
        have hcols : x.pos = (Rope.chars l.2).length := by omega
        rw [offset, hcols]
        exact offset_end '\n' hget (by omega)
      rw [if_neg fun h => h.2 hend, if_pos htext]
    · have hdown : x.row + 1 < d.lines.length ∧ x.row ≠ d.last := ⟨by omega, hend⟩
      have hstart := lineStart_succ hget
      rw [if_pos hdown] at hle ⊢
      simp only [offset, CoEditor.offset] at hle ⊢
      omega

/-- A step to the left is undone by one to the right. -/
theorem InRange.left_right (h : InRange d) (hwf : d.Wf) {i : Int} {x : Place} (hx : d.curs i = some x)
    (hstart : d.offset x ≠ 0) : d.step (d.step x .left) .right = x := by
  have hmoved : (d.move i .left).curs i = some (d.step x .left) := by simp [Doc.move, hx]
  have hrange := h.move i .left
  have hwf' := hwf.move i .left
  have hback := (hrange.move i .right).hasColumn (hwf'.move i .right) (i := i) (x := d.step (d.step x .left) .right) (by
    simp [Doc.move, hx]
    rfl)
  have hcol := h.hasColumn hwf hx
  have hle : d.offset x ≤ d.text.length := offset_le_length '\n' hcol
  have hleft := h.step_left hwf hx
  have hright : d.offset (d.step (d.step x .left) .right) = if d.offset (d.step x .left) = d.text.length then
      d.offset (d.step x .left) else d.offset (d.step x .left) + 1 := hrange.step_right hwf' hmoved
  rw [if_neg hstart] at hleft
  rw [hleft, if_neg (by omega), Int.sub_add_cancel] at hright
  obtain ⟨hrow, hpos⟩ := offset_inj hback hcol hright
  exact (Place.mk.injEq ..).mpr ⟨hrow, hpos⟩

/-- A step to the right is undone by one to the left. -/
theorem InRange.right_left (h : InRange d) (hwf : d.Wf) {i : Int} {x : Place} (hx : d.curs i = some x)
    (hend : d.offset x ≠ d.text.length) : d.step (d.step x .right) .left = x := by
  have hmoved : (d.move i .right).curs i = some (d.step x .right) := by simp [Doc.move, hx]
  have hrange := h.move i .right
  have hwf' := hwf.move i .right
  have hback := (hrange.move i .left).hasColumn (hwf'.move i .left) (i := i) (x := d.step (d.step x .right) .left) (by
    simp [Doc.move, hx]
    rfl)
  have hcol := h.hasColumn hwf hx
  have hnonneg : 0 ≤ d.offset x := by
    have := hcol.choose_spec.2.1
    simp only [offset, CoEditor.offset]
    omega
  have hright := h.step_right hwf hx
  have hleft : d.offset (d.step (d.step x .right) .left) = if d.offset (d.step x .right) = 0 then 0 else
      d.offset (d.step x .right) - 1 := hrange.step_left hwf' hmoved
  rw [if_neg hend] at hright
  rw [hright, if_neg (by omega), Int.add_sub_cancel] at hleft
  obtain ⟨hrow, hpos⟩ := offset_inj hback hcol hleft
  exact (Place.mk.injEq ..).mpr ⟨hrow, hpos⟩

end Doc

end CoEditor
