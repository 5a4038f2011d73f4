-- SUMMARY: The lines of a document as character lists, and what the operations do to them at a cursor in range.
import CoEditor.Doc.Wf
import CoEditor.Lib.Text

/-!
# Texts of documents

`content` lists the ids and the characters of all lines, `texts` the characters
of the lines up to `last`. Cut at a cursor, the content is
`A ++ (lid, u ++ v) :: B` with the cursor between `u` and `v`; every operation
at this cursor has one result in these terms.
-/

namespace CoEditor

variable {R : Type} [Rope R]

namespace Doc

def content (d : Doc R) : List (Int × List Char) := d.lines.map fun l => (l.1, Rope.chars l.2)

/-- The texts of the lines up to `last`. -/
def texts (d : Doc R) : List (List Char) := (d.lines.take (d.last + 1)).map fun l => Rope.chars l.2

variable {d : Doc R}

/-! ## Lines -/

theorem texts_length (h : d.last < d.lines.length) : d.texts.length = d.last + 1 := by
  simp only [texts, List.length_map, List.length_take]
  omega

theorem texts_getElem? {k : Nat} (hk : k ≤ d.last) :
    d.texts[k]? = d.lines[k]?.map fun l => Rope.chars l.2 := by
  rw [texts, List.getElem?_map, List.getElem?_take_of_lt (Nat.lt_succ_of_le hk)]

/-- The texts from line `k` on. -/
theorem texts_drop {k : Nat} {l : Int × R} (hk : k ≤ d.last) (hl : d.lines[k]? = some l) :
    d.texts.drop k = Rope.chars l.2 :: d.texts.drop (k + 1) := by
  have hget := texts_getElem? hk
  rw [hl, Option.map_some] at hget
  obtain ⟨hlt, hrow⟩ := List.getElem?_eq_some_iff.mp hget
  rw [List.drop_eq_getElem_cons hlt, hrow]

/-- A change of one line is a change of its text. -/
theorem modifyStr_texts {k : Nat} {f : R → R} {g : List Char → List Char}
    (hfg : ∀ l, d.lines[k]? = some l → Rope.chars (f l.2) = g (Rope.chars l.2)) :
    (d.modifyStr k f).texts = d.texts.modify k g := by
  apply List.ext_getElem?
  intro i
  simp only [texts, modifyStr, List.getElem?_map, List.getElem?_take, List.getElem?_modify]
  by_cases hki : k = i
  · subst hki
    split
    · cases hl : d.lines[k]? with
      | none => simp
      | some l => simp [hfg l hl]
    · simp
  · simp [hki]

/-- A new line up to one below `last` is an empty text. -/
theorem newLine_texts {k : Nat} (hk : k ≤ d.last + 1) (hlt : d.last < d.lines.length) :
    ({ d.newLine k with last := d.last + 1 } : Doc R).texts = d.texts.insertIdx k [] := by
  have hlen : (d.lines.take (d.last + 1)).length = d.last + 1 := by simp; omega
  have hlines : (d.lines.insertIdx k (d.lineIdCnt, Rope.new)).take (d.last + 1 + 1) =
      (d.lines.take (d.last + 1)).insertIdx k (d.lineIdCnt, Rope.new) := by
    apply List.ext_getElem?
    intro i
    rw [List.getElem?_take, List.getElem?_insertIdx, List.getElem?_insertIdx]
    simp only [List.getElem?_take, hlen]
    grind
  rw [texts]
  simp only [newLine]
  rw [hlines, List.map_insertIdx, texts, Rope.chars_new]

/-! ## Content -/

theorem texts_eq (d : Doc R) : d.texts = (d.content.take (d.last + 1)).map Prod.snd := by
  simp [texts, content, List.map_take, Function.comp_def]

theorem len_eq (d : Doc R) (k : Nat) : d.len k = ((d.content[k]?).map fun l => l.2.length).getD 0 := by
  rw [len, content, List.getElem?_map]
  cases d.lines[k]? <;> simp

@[simp] theorem mapCurs_content (d : Doc R) (f : Int → Place → Place) : (d.mapCurs f).content = d.content := rfl

@[simp] theorem shift_content (d : Doc R) (id : Int) (cur : Place) (n : Int) : (d.shift id cur n).content = d.content := rfl

theorem raiseLast_content (d : Doc R) (k : Nat) : (d.raiseLast k).content = d.content := by
  unfold raiseLast
  split <;> rfl

theorem modifyStr_content {k : Nat} {f : R → R} {g : List Char → List Char}
    (hfg : ∀ l, d.lines[k]? = some l → Rope.chars (f l.2) = g (Rope.chars l.2)) :
    (d.modifyStr k f).content = d.content.modify k fun l => (l.1, g l.2) := by
  apply List.ext_getElem?
  intro i
  simp only [content, modifyStr, List.getElem?_map, List.getElem?_modify]
  by_cases hki : k = i
  · subst hki
    cases hl : d.lines[k]? with
    | none => simp
    | some l => simp [hfg l hl]
  · simp [hki]

theorem newLine_content (d : Doc R) (k : Nat) : (d.newLine k).content = d.content.insertIdx k (d.lineIdCnt, []) := by
  simp [content, newLine, List.map_insertIdx]

theorem newBelow_content (d : Doc R) (k : Nat) :
    (d.newBelow k).content = d.content.insertIdx (k + 1) (d.lineIdCnt, []) := by
  rw [← newLine_content]
  unfold newBelow
  split <;> rfl

/-! ## Operations at a cut -/

section
variable {A B : List (Int × List Char)} {lid : Int} {u v : List Char} {id : Int}

/-- The line that is cut. -/
theorem line_of_cut {x : Int × List Char} (hcut : d.content = A ++ x :: B) :
    ∃ r, d.lines[A.length]? = some (x.1, r) ∧ Rope.chars r = x.2 := by
  have hget := getElem?_cut A x B
  rw [← hcut, content, List.getElem?_map, Option.map_eq_some_iff] at hget
  obtain ⟨⟨i, r⟩, hr, rfl⟩ := hget
  exact ⟨r, hr, rfl⟩

theorem len_of_cut {x : Int × List Char} (hcut : d.content = A ++ x :: B) : d.len A.length = x.2.length := by
  rw [len_eq, hcut, getElem?_cut]
  rfl

theorem modifyStr_cut (hcut : d.content = A ++ (lid, u) :: B) {f : R → R}
    (hf : ∀ r, Rope.chars r = u → Rope.chars (f r) = v) : (d.modifyStr A.length f).content = A ++ (lid, v) :: B := by
  obtain ⟨r, hr, hchars⟩ := line_of_cut hcut
  rw [modifyStr_content (g := fun _ => v), hcut, modify_cut]
  intro l hl
  obtain rfl := Option.some.inj (hr.symm.trans hl)
  exact hf r hchars

/-- A line that is full takes no character. -/
theorem insert_full {chr : UInt8} {cur : Place} (hcur : d.curs id = some cur)
    (hfull : sizeT (d.width - 1) ≤ d.len cur.row) : d.insert id chr = d := by
  simp only [insert, hcur, if_pos hfull]

theorem insert_content (hcut : d.content = A ++ (lid, u ++ v) :: B) (hcur : d.curs id = some ⟨A.length, u.length⟩)
    (hroom : ¬ sizeT (d.width - 1) ≤ (u ++ v).length) {chr : UInt8} (h0 : chr ≠ 0) (hascii : chr.toNat < 128) :
    (d.insert id chr).content = A ++ (lid, u ++ [Char.ofNat chr.toNat] ++ v) :: B := by
  have hlen := len_of_cut hcut
  simp only [insert, hcur, hlen, if_neg hroom]
  rw [shift_content]
  refine modifyStr_cut hcut fun r hr => ?_
  rw [sizeT_natCast, hstr, if_neg h0, ← Utf8.encode_ofNat hascii, Rope.chars_insert, hr, List.take_left, List.drop_left]
  · rw [hr, List.length_append]
    omega
  · rw [Utf8.encode_ofNat hascii]
    simpa using Ne.symm h0

/-- What is no character is not inserted. -/
theorem insert_invalid_content (hcut : d.content = A ++ (lid, u ++ v) :: B)
    (hcur : d.curs id = some ⟨A.length, u.length⟩) {chr : UInt8} (hchr : chr = 0 ∨ 128 ≤ chr.toNat) :
    (d.insert id chr).content = d.content := by
  simp only [insert, hcur]
  split
  · rfl
  · rw [hcut, shift_content]
    refine modifyStr_cut hcut fun r hr => ?_
    rw [sizeT_natCast, ← hr]
    rcases hchr with rfl | hchr
    · exact Rope.chars_insert_nil r (by rw [hr, List.length_append]; omega)
    · have h0 : chr ≠ 0 := by
        rintro rfl
        exact absurd hchr (by decide)
      rw [hstr, if_neg h0]
      exact Rope.chars_insert_invalid r _ _ (by simpa using Ne.symm h0) fun cs => (Utf8.encode_ne_singleton hchr cs).symm

/-- What is right of the cut goes to the line below. -/
theorem splitText_content {x : Int × List Char} (hcut : d.content = A ++ (lid, u ++ v) :: x :: B) :
    (d.splitText A.length u.length).content = A ++ (lid, u) :: (x.1, v) :: B := by
  obtain ⟨r, hr, hchars⟩ := line_of_cut hcut
  have hcopy : (d.lines[A.length]?.map fun l => Rope.copy l.2).getD Rope.new = Rope.copy r := by
    rw [hr]
    rfl
  have hlen : u.length ≤ (Rope.chars r).length := by
    rw [hchars]
    simp
  simp only [splitText, hcopy, sizeT_natCast]
  have hleft : (d.modifyStr A.length fun s => Rope.del s u.length
      (sizeSub (Rope.charCount (Rope.copy r)) u.length)).content = A ++ (lid, u) :: x :: B := by
    refine modifyStr_cut hcut fun s hs => ?_
    rw [Rope.chars_del, hs, Rope.charCount_eq, Rope.chars_copy, sizeSub_of_le hlen, hchars]
    simp
  rw [List.append_cons] at hleft
  have hright := modifyStr_cut hleft (v := v) (f := fun _ => Rope.del (Rope.copy r) 0 u.length) fun s _ => by
    rw [Rope.chars_del, Rope.chars_copy, hchars]
    simp
  rw [List.length_append, List.length_singleton] at hright
  rw [hright, ← List.append_cons]

theorem insertLine_content (hcut : d.content = A ++ (lid, u ++ v) :: B) (hcur : d.curs id = some ⟨A.length, u.length⟩) :
    (d.insertLine id).content =
      A ++ (if u = [] then [(d.lineIdCnt, []), (lid, v)] else [(lid, u), (d.lineIdCnt, v)]) ++ B := by
  simp only [insertLine, hcur]
  by_cases hu : u = []
  · subst hu
    rw [if_pos (by simp), if_pos rfl]
    have hnew := newLine_content (d.recount 1) A.length
    rw [show (d.recount 1).content = d.content from rfl, hcut, insertIdx_cut] at hnew
    exact hnew.trans (by simp [recount])
  · have hpos : ¬ (u.length : Int) = 0 := by simpa using hu
    rw [if_neg hpos, if_neg hu, List.append_assoc]
    have hbelow := newBelow_content (d.recount 1) A.length
    rw [show (d.recount 1).content = d.content from rfl, hcut, insertIdx_cut_succ] at hbelow
    have hlen : (d.recount 1).len A.length = (u ++ v).length := len_of_cut hcut
    simp only [insertBelow, sizeT_natCast, hlen]
    by_cases hv : v = []
    · subst hv
      rw [if_neg (by simp)]
      exact hbelow.trans (by simp [recount])
    · rw [if_pos (by simpa using hv)]
      exact splitText_content hbelow

/-! ## Deleting -/

theorem delChar_content {c : Char} (hcut : d.content = A ++ (lid, u ++ [c] ++ v) :: B)
    (hcur : d.curs id = some ⟨A.length, (u ++ [c]).length⟩) : (d.del id).content = A ++ (lid, u ++ v) :: B := by
  have hpos : (0 : Int) < ((u ++ [c]).length : Nat) := by simp
  simp only [del, hcur, if_pos hpos, delChar]
  rw [shift_content]
  refine modifyStr_cut hcut fun r hr => ?_
  have hcol : ((u ++ [c]).length : Int) - 1 = u.length := by simp
  rw [hcol, sizeT_natCast, Rope.chars_del, hr, List.append_assoc, List.take_left, ← List.drop_drop, List.drop_left]
  rfl

/-- The text of a line is put behind that of the line above it. -/
theorem joinText_content {x : Int × List Char} (hcut : d.content = A ++ (lid, u) :: x :: B) :
    (d.joinText A.length).content = A ++ (lid, u ++ x.2) :: x :: B := by
  have hbelow := hcut
  rw [List.append_cons] at hbelow
  obtain ⟨r, hr, hchars⟩ := line_of_cut hbelow
  rw [List.length_append, List.length_singleton] at hr
  have hstr : Rope.writeCstr (d.strAt (A.length + 1)) = Utf8.encode x.2 := by
    rw [strAt, hr, Option.map_some, Option.getD_some, Rope.writeCstr_eq, hchars]
  have hnul : (0 : UInt8) ∉ Utf8.encode x.2 := by
    rw [Utf8.zero_mem_encode, ← hchars]
    exact Rope.noNul r
  simp only [joinText, hstr]
  split
  · refine modifyStr_cut hcut fun s hs => ?_
    rw [Rope.charCount_eq, Rope.chars_insert s _ x.2 (Nat.le_refl _) hnul, List.take_length, List.drop_length, hs,
      List.append_nil]
  · next hempty =>
      have hnil : x.2 = [] := Utf8.encode_injective (List.length_eq_zero_iff.mp (by omega))
      rw [hcut, hnil, List.append_nil]

theorem join_content {x : Int × List Char} (hcut : d.content = A ++ (lid, u) :: x :: B) (id : Int) :
    (d.join id A.length).content = A ++ (lid, u ++ x.2) :: B := by
  have herase : ∀ e : Doc R, (e.eraseLine (A.length + 1)).content = e.content.eraseIdx (A.length + 1) := by
    intro e
    simp [content, eraseLine, List.eraseIdx_map]
  simp only [join, herase, joinCurs, mapCurs_content]
  rw [joinText_content (by rw [raiseLast_content]; exact hcut), eraseIdx_cut_succ]

end

end Doc

end CoEditor
