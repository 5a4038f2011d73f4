-- SUMMARY: What creating and deleting documents leaves alone: the accounts, the rest of the list, the other documents.
import CoEditor.Registry.Atomic

/-!
# Requests on documents

The name of a document is used as a path next to the registries, so a request
can reach any file. The entries of the list are taken here with their whole
names, colons included.
-/

namespace CoEditor

open Decimal

/-! ## The entries of the list -/

/-- The entry on a line; blank lines have none. -/
def readEntry (l : Bytes) : Option FileEntry :=
  let t := terminateNull l
  if t = [] then none else some (atoi (t.takeWhile (· ≠ ch ':')), (t.dropWhile (· ≠ ch ':')).drop 1)

def entriesOf (s : Bytes) : List FileEntry := (lines s).filterMap readEntry

/-- A name that was typed, with an id. -/
def FileEntry.Typed (e : FileEntry) : Prop := 0 < e.1 ∧ IsTyped e.2

/-- The line is blank, or it is that of an entry. -/
def IsListed (l : Bytes) : Prop := l = [10] ∨ ∃ e : FileEntry, e.Typed ∧ (l = e.line ∨ l = e.line ++ [10])

/-- The lines of a list that requests have made. -/
def WellListed (s : Bytes) : Prop := ∀ l ∈ lines s, IsListed l

namespace FileEntry

variable {e : FileEntry}

theorem Typed.notMem (h : e.Typed) : (10 : UInt8) ∉ e.line ∧ (0 : UInt8) ∉ e.line := by
  have hcolon : (10 : UInt8) ≠ ch ':' ∧ (0 : UInt8) ≠ ch ':' := by decide
  obtain ⟨-, -, hnl, hnul⟩ := isField_digits e.1
  exact ⟨by simp [FileEntry.line, entry, hnl, h.2.notMem.1, hcolon], by simp [FileEntry.line, entry, hnul, h.2.notMem.2, hcolon]⟩

theorem readEntry_line (h : e.Typed) {l : Bytes} (hl : l = e.line ∨ l = e.line ++ [10]) : readEntry l = some e := by
  have ht : terminateNull l = e.line := by
    rcases hl with rfl | rfl
    · exact terminateNull_eq_self h.notMem.1
    · rw [terminateNull_newline, terminateNull_eq_self h.notMem.1]
  have hall := decide_ne_of_notMem (isField_digits e.1).2.1
  rw [readEntry, ht, FileEntry.line, if_neg (entry_ne_nil _ _), entry, List.takeWhile_append_of_pos hall,
    List.dropWhile_append_of_pos hall]
  simp

theorem fields_typed (h : e.Typed) {l : Bytes} (hl : l = e.line ∨ l = e.line ++ [10]) : (fields l).1 = some (digits e.1) := by
  have hstrtok : ∀ rest, strtok (e.line ++ rest) = some (digits e.1, e.2 ++ rest) := by
    intro rest
    rw [FileEntry.line, entry, List.append_assoc, List.cons_append]
    exact strtok_token (isField_digits e.1).1 (isField_digits e.1).2.1 _
  rcases hl with rfl | rfl
  · have hline := hstrtok []
    rw [List.append_nil] at hline
    rw [fields, cString_eq_self h.notMem.2, hline]
  · rw [fields, cString_eq_self (by simp [h.notMem.2]), hstrtok]

end FileEntry

theorem readEntry_blank : readEntry [10] = none := by decide

theorem IsListed.notMem {l : Bytes} (h : IsListed l) : (0 : UInt8) ∉ l := by
  rcases h with rfl | ⟨e, he, rfl | rfl⟩
  · decide
  · exact he.notMem.2
  · simp [he.notMem.2]

/-- A line with its newline is blank or an entry. -/
theorem IsListed.of_newline {l : Bytes} (h : IsListed (l ++ [10])) :
    l = [] ∨ ∃ e : FileEntry, e.Typed ∧ l = e.line := by
  rcases h with heq | ⟨e, he, heq | heq⟩
  · exact .inl (by simpa using heq)
  · exact absurd (heq ▸ by simp) he.notMem.1
  · exact .inr ⟨e, he, List.append_cancel_right heq⟩

theorem wellListed_line {l s : Bytes} (hl : (10 : UInt8) ∉ l) (h : IsListed (l ++ [10])) (hs : WellListed s) :
    WellListed (l ++ [10] ++ s) := by
  rw [WellListed, List.append_assoc, List.singleton_append, lines_line hl, List.forall_mem_cons]
  exact ⟨h, hs⟩

theorem entriesOf_line {l : Bytes} (hl : (10 : UInt8) ∉ l) (s : Bytes) :
    entriesOf (l ++ [10] ++ s) = (readEntry (l ++ [10])).toList ++ entriesOf s := by
  rw [entriesOf, List.append_assoc, List.singleton_append, lines_line hl, List.filterMap_cons]
  cases readEntry (l ++ [10]) <;> rfl

/-- A text of one line that is blank or an entry. -/
theorem entriesOf_last {e : FileEntry} (he : e.Typed) : WellListed e.line ∧ entriesOf e.line = [e] := by
  have hlines := lines_last he.notMem.1 (entry_ne_nil _ _)
  refine ⟨?_, ?_⟩
  · intro l hl
    rw [hlines, List.mem_singleton] at hl
    exact .inr ⟨e, he, .inl hl⟩
  · rw [entriesOf, hlines, List.filterMap_cons, FileEntry.readEntry_line he (.inl rfl)]
    rfl

/-! ## Writing the list back -/

/-- What is written back of a list are its other entries. -/
theorem writeBack_entries {id : Int} {n : Nat} {ls : List Bytes} (hpieces : Pieces ls) :
    ∀ {k : Nat} {text : Bytes}, k + ls.length = n → (∀ l ∈ ls, IsListed l) → writeBack id n k ls = .ok text →
      WellListed text ∧ entriesOf text = (ls.filterMap readEntry).filter (·.1 ≠ id) := by
  induction hpieces with
  | nil =>
      intro k text _ _ hrun
      obtain rfl := Except.ok.inj hrun
      exact ⟨by simp [WellListed], rfl⟩
  | @last l hl hne =>
      intro k text hn hlisted hrun
      obtain ⟨t, rest, ht, hrest, rfl⟩ := writeBack_cons hrun
      obtain rfl := Except.ok.inj hrest
      have hlisted := hlisted l (by simp)
      rcases hlisted with rfl | ⟨e, he, rfl | rfl⟩
      · exact absurd (by simp) hl
      · obtain rfl := Option.some.inj ((FileEntry.fields_typed he (.inl rfl)).symm.trans ht)
        rw [atoi_digits, List.append_nil, List.filterMap_cons, FileEntry.readEntry_line he (.inl rfl)]
        by_cases hid : e.1 = id
        · rw [if_pos hid]
          simp [hid, WellListed, entriesOf]
        · rw [if_neg hid, if_pos (by simpa using hn), cString_eq_self he.notMem.2, terminateNull_eq_self hl]
          obtain ⟨hwell, hentries⟩ := entriesOf_last he
          exact ⟨hwell, by simp [hentries, hid]⟩
      · exact absurd (by simp) hl
  | @line l ls hl hls ih =>
      intro k text hn hlisted hrun
      obtain ⟨t, rest, ht, hrest, rfl⟩ := writeBack_cons hrun
      rw [List.length_cons] at hn
      obtain ⟨hline, hlisted⟩ := List.forall_mem_cons.mp hlisted
      obtain ⟨hwell, hentries⟩ := ih (by omega) hlisted hrest
      rw [cString_eq_self hline.notMem, terminateNull_newline, terminateNull_eq_self hl]
      have hlast : k + 1 = n → ls = [] ∧ rest = [] := by
        intro hk
        obtain rfl : ls = [] := List.length_eq_zero_iff.mp (by omega)
        exact ⟨rfl, (Except.ok.inj hrest).symm⟩
      rcases hline.of_newline with rfl | ⟨e, he, rfl⟩
      · -- a blank line
        have hblank : readEntry ([] ++ [10]) = none := readEntry_blank
        rw [List.filterMap_cons, hblank]
        split
        · exact ⟨hwell, hentries⟩
        · split
          · next hk =>
              obtain ⟨rfl, rfl⟩ := hlast hk
              exact ⟨by simp [WellListed], rfl⟩
          · refine ⟨wellListed_line hl hline hwell, ?_⟩
            rw [entriesOf_line hl, hblank]
            exact hentries
      · obtain rfl := Option.some.inj ((FileEntry.fields_typed he (.inr rfl)).symm.trans ht)
        rw [atoi_digits, List.filterMap_cons, FileEntry.readEntry_line he (.inr rfl)]
        by_cases hid : e.1 = id
        · rw [if_pos hid]
          exact ⟨hwell, by simp [hid, hentries]⟩
        · rw [if_neg hid]
          split
          · next hk =>
              obtain ⟨rfl, rfl⟩ := hlast hk
              obtain ⟨hwell, hentries⟩ := entriesOf_last he
              rw [List.append_nil]
              exact ⟨hwell, by simp [hentries, hid]⟩
          · refine ⟨wellListed_line hl hline hwell, ?_⟩
            rw [entriesOf_line hl, FileEntry.readEntry_line he (.inr rfl), hentries]
            simp [hid]

/-! ## Adding an entry -/

/-- An entry that is put on a new line, or into an empty list. -/
theorem WellListed.append {s : Bytes} (h : WellListed s) {e : FileEntry} (he : e.Typed) :
    WellListed (if s = [] then e.line else s ++ 10 :: e.line) ∧
      entriesOf (if s = [] then e.line else s ++ 10 :: e.line) = entriesOf s ++ [e] := by
  obtain ⟨hwell, hentries⟩ := entriesOf_last he
  split
  · next hnil =>
      subst hnil
      exact ⟨hwell, hentries⟩
  · next hne =>
      by_cases hended : Ended s
      · have hlines : lines (s ++ 10 :: e.line) = lines s ++ [10] :: lines e.line := by
          rw [lines_append_ended hended, lines_newline]
        refine ⟨?_, ?_⟩
        · intro l hl
          rw [hlines, List.mem_append, List.mem_cons] at hl
          rcases hl with hl | rfl | hl
          · exact h l hl
          · exact .inl rfl
          · exact hwell l hl
        · rw [entriesOf, hlines, List.filterMap_append, List.filterMap_cons, readEntry_blank]
          exact congrArg _ hentries
      · obtain ⟨ls, l, hls, hl, happend⟩ := exists_lines_append hne hended
        have hlast : IsListed l := h l (by rw [hls]; simp)
        obtain ⟨e', he', rfl⟩ : ∃ e' : FileEntry, e'.Typed ∧ l = e'.line := by
          rcases hlast with rfl | ⟨e', he', heq | rfl⟩
          · exact absurd (by simp) hl
          · exact ⟨e', he', heq⟩
          · exact absurd (by simp) hl
        refine ⟨?_, ?_⟩
        · intro m hm
          rw [happend, List.mem_append, List.mem_cons] at hm
          rcases hm with hm | rfl | hm
          · exact h m (by rw [hls]; simp [hm])
          · exact .inr ⟨e', he', .inr rfl⟩
          · exact hwell m hm
        · rw [entriesOf, entriesOf, hls, happend, List.filterMap_append, List.filterMap_append, List.filterMap_cons,
            FileEntry.readEntry_line he' (.inr rfl), List.filterMap_cons, FileEntry.readEntry_line he' (.inl rfl)]
          have hrest : (lines e.line).filterMap readEntry = [e] := hentries
          simp [hrest]

/-! ## Frames -/

namespace Disk

/-- What is read from a file; nothing if it is missing. -/
def text (d : Disk) (name : Bytes) : Bytes := ((d.get name).map Inode.content).getD []

/-- The documents on the list. -/
def documents (d : Disk) : List FileEntry := entriesOf (d.text filesTxt)

end Disk

/-- The file is neither removed nor written. -/
def Preserved (d d' : Disk) (name : Bytes) : Prop :=
  ∀ fp, d.get name = some fp → ∃ fp', d'.get name = some fp' ∧ fp'.content = fp.content

/-- The accounts are as before, and so are all documents but those that are gone. -/
structure Spares (d d' : Disk) (gone : FileEntry → Prop) : Prop where
  users : d'.text userdataTxt = d.text userdataTxt
  documents : ∀ e ∈ d.documents, ¬ gone e → Preserved d d' e.2

namespace FileOp

/-- Make the call; `fails` says which system calls fail. -/
def call (fails : SysCall → Bool) (d : Disk) : FileOp → Except Fault (Disk × Int)
  | create name => createFile fails d (some name)
  | delete id => deleteFile fails d id

/-- A document gets a name that can be typed. -/
def Typed : FileOp → Prop
  | create name => IsTyped name
  | delete _ => True

/-- The call changes its own entries and its own document only. -/
def Frame (d d' : Disk) (res : Int) : FileOp → Prop
  | create name => Spares d d' (fun _ => False) ∧ (d'.documents = d.documents ∨ d'.documents = d.documents ++ [(res, name)])
  | delete id => Spares d d' (fun e => e.1 = id) ∧
      (d'.documents = d.documents ∨ d'.documents = d.documents.filter fun e => e.1 ≠ id)

/-- A name under which a file is created leads to no account, list or document with text in it. What is
    deleted leads to no account, list or other document, and no other document is the temporary list. -/
def Harmless (fails : SysCall → Bool) (d : Disk) : FileOp → Prop
  | create name => fails .fopenFiles = false → fails .creat = false → (∀ l ∈ lines (d.text filesTxt), (fields l).2 ≠ some name) →
      (d.canon name = d.canon filesTxt → d.text filesTxt = []) ∧
      (d.canon name = d.canon userdataTxt → d.text userdataTxt = []) ∧
      ∀ e ∈ d.documents, d.get e.2 ≠ none →
        d.canon e.2 ≠ d.canon filesTxt ∧ (d.canon e.2 = d.canon name → d.text e.2 = [])
  | delete id =>
      if fails .rename then d.putAside fails = none ∨ fails .fopenFiles = true
      else fails .fopenTemp = false ∧ fails .fopenFiles = false ∧
        (∀ e ∈ d.documents, e.1 ≠ id → d.get e.2 ≠ none →
          d.canon e.2 ≠ d.canon filesTxt ∧ d.canon e.2 ≠ d.canon filesTempTxt) ∧
        (fails .removeFile = false → ∀ name, getFileName d id = .ok (some name) →
          (d.canon name = d.canon userdataTxt → d.get userdataTxt = none) ∧
          (d.canon name = d.canon filesTxt → ∀ e ∈ d.documents, e.1 = id) ∧
          ∀ e ∈ d.documents, e.1 ≠ id → d.get e.2 ≠ none → d.canon e.2 ≠ d.canon name)

end FileOp

section
variable {d d' : Disk} {s : Bytes} {fails : SysCall → Bool}

theorem Preserved.of_eq {name : Bytes} (h : d'.get name = d.get name) : Preserved d d' name :=
  fun fp hfp => ⟨fp, h.trans hfp, rfl⟩

theorem Disk.text_congr {name : Bytes} (h : (d'.get name).map Inode.content = (d.get name).map Inode.content) :
    d'.text name = d.text name := by rw [Disk.text, Disk.text, h]

/-- Every file has the content that it had. -/
def Unwritten (d d' : Disk) : Prop := ∀ name, d'.text name = d.text name ∧ Preserved d d' name

theorem Unwritten.refl (d : Disk) : Unwritten d d := fun _ => ⟨rfl, .of_eq rfl⟩

/-- A file that is written with what is in it. -/
theorem Unwritten.set (h : Unwritten d d') {name : Bytes} {fp : Inode} (hfp : fp.content = d'.text name) :
    Unwritten d (d'.set name (some fp)) := by
  intro x
  obtain ⟨htext, hpreserved⟩ := h x
  rw [Disk.text, Preserved, Disk.get_set]
  split
  · next hcanon =>
      have hx : d'.text name = d.text x := by rw [← htext, Disk.text, Disk.text, Disk.get, Disk.get, hcanon]
      refine ⟨hfp.trans hx, fun y hy => ⟨fp, rfl, ?_⟩⟩
      rw [hfp, hx, Disk.text, hy]
      rfl
  · exact ⟨htext, hpreserved⟩

theorem Unwritten.spares (h : Unwritten d d') (gone : FileEntry → Prop) : Spares d d' gone ∧ d'.documents = d.documents :=
  ⟨⟨(h userdataTxt).1, fun e _ _ => (h e.2).2⟩, congrArg entriesOf (h filesTxt).1⟩

/-! ## Creating -/

/-- The ways in which `createFile` returns. -/
theorem createFile_returns {name : Bytes} {res : Int} (hrun : createFile fails d (some name) = .ok (d', res)) :
    Unwritten d d' ∨
      fails .fopenFiles = false ∧ fails .creat = false ∧ (∀ l ∈ lines (d.text filesTxt), (fields l).2 ≠ some name) ∧
      ∃ id, findFile (some name) 0 (lines (d.text filesTxt)) = .ok (false, id) ∧ res = id + 1 ∧
        ∃ fp, fp.content = d.text filesTxt ∧
        d' = ((d.set filesTxt (some fp)).creat name).append filesTxt
          (if id = 0 then entry (digits (id + 1)) name else 10 :: entry (digits (id + 1)) name) := by
  unfold createFile at hrun
  split at hrun
  · obtain ⟨rfl, -⟩ := Prod.mk.inj (Except.ok.inj hrun)
    exact .inl (.refl d)
  · next hopen =>
      have htext : ((d.get filesTxt).getD (.closed [])).content = d.text filesTxt := by
        unfold Disk.text
        cases d.get filesTxt <;> rfl
      have hopened := (Unwritten.refl d).set htext
      obtain ⟨-, -, hrun⟩ := Except.bind_eq_ok.mp hrun
      obtain ⟨⟨val, id⟩, hfind, hrun⟩ := Except.bind_eq_ok.mp hrun
      rw [htext] at hfind
      cases val with
      | true =>
          obtain ⟨rfl, -⟩ := Prod.mk.inj (Except.ok.inj hrun)
          exact .inl hopened
      | false =>
          simp only [Bool.false_eq_true, if_false, derefStr, Except.pure_eq_ok, Except.ok_bind_eq] at hrun
          split at hrun
          · obtain ⟨rfl, -⟩ := Prod.mk.inj (Except.ok.inj hrun)
            exact .inl (hopened.set (htext.trans (hopened filesTxt).1.symm))
          · next hcreat =>
              obtain ⟨rfl, rfl⟩ := Prod.mk.inj (Except.ok.inj hrun)
              refine .inr ⟨by simpa using hopen, by simpa using hcreat, fun l hl he => ?_, id, hfind, rfl, _, htext, rfl⟩
              have := (findFile_val hfind).mpr ⟨l, hl, he⟩
              cases this

/-- A name that is on the list is not created again. -/
theorem createFile_taken {filename : Option Bytes} {res : Int} {fp : Inode} (hfile : d.get filesTxt = some fp)
    (htaken : ∃ l ∈ lines fp.content, (fields l).2 = filename) (hrun : createFile fails d filename = .ok (d', res)) :
    d'.get filesTxt = d.get filesTxt := by
  unfold createFile at hrun
  split at hrun
  · rw [(Prod.mk.inj (Except.ok.inj hrun)).1]
  · obtain ⟨-, -, hrun⟩ := Except.bind_eq_ok.mp hrun
    obtain ⟨⟨val, id⟩, hfind, hrun⟩ := Except.bind_eq_ok.mp hrun
    rw [hfile, Option.getD_some] at hfind
    obtain rfl := (findFile_val hfind).mpr htaken
    obtain ⟨rfl, -⟩ := Prod.mk.inj (Except.ok.inj hrun)
    rw [Disk.get_set_self, hfile, Option.getD_some]

/-- Without a name nothing is created. -/
theorem createFile_null {res : Int} (hrun : createFile fails d none = .ok (d', res)) : d' = d := by
  unfold createFile at hrun
  split at hrun
  · exact (Prod.mk.inj (Except.ok.inj hrun)).1.symm
  · obtain ⟨-, -, hrun⟩ := Except.bind_eq_ok.mp hrun
    obtain ⟨⟨val, id⟩, hfind, hrun⟩ := Except.bind_eq_ok.mp hrun
    cases val with
    | true =>
        cases hlines : lines ((d.get filesTxt).getD (.closed [])).content with
        | nil =>
            rw [hlines] at hfind
            cases hfind
        | cons l ls =>
            rw [hlines, findFile_cons] at hfind
            obtain ⟨hit, hhit, -⟩ := Except.bind_eq_ok.mp hfind
            obtain ⟨-, -, hhit⟩ := Except.bind_eq_ok.mp hhit
            rw [isEquivalentStrings_null (by simp)] at hhit
            cases hhit
    | false => cases hrun

/-- The id on the last line; it is `0` for an empty list only. -/
theorem WellListed.findFile (h : WellListed s) {filename : Option Bytes} {id : Int}
    (hfind : findFile filename 0 (lines s) = .ok (false, id)) : 0 ≤ id ∧ (id = 0 ↔ s = []) := by
  by_cases hnil : s = []
  · subst hnil
    obtain ⟨-, rfl⟩ := Prod.mk.inj (Except.ok.inj hfind)
    exact ⟨Int.le_refl 0, by simp⟩
  · have hne : lines s ≠ [] := fun h => hnil (by rw [← lines_flatten s, h]; rfl)
    obtain ⟨ls, l, hls⟩ := (lines s).eq_nil_or_concat'.resolve_left hne
    have hmem : l ∈ lines s := by simp [hls]
    have hlast := findFile_last (hls ▸ hfind)
    rcases h l hmem with rfl | ⟨e, he, hl⟩
    · exact absurd fields_blank (fun hblank => findFile_fields hfind _ hmem (by rw [hblank]))
    · rw [FileEntry.fields_typed he hl, Option.map_some, atoi_digits] at hlast
      obtain rfl := Option.some.inj hlast
      have hpos := he.1
      exact ⟨by omega, iff_of_false (by omega) hnil⟩

/-- The file at each name after a document was created. -/
theorem Disk.created_get (d : Disk) (fp : Inode) (name t x : Bytes) :
    (((d.set filesTxt (some fp)).creat name).append filesTxt t).get x =
      if d.canon x = d.canon filesTxt then
        some { fp with content := (if d.canon name = d.canon filesTxt then [] else fp.content) ++ t }
      else if d.canon x = d.canon name then some { (d.get name).getD (.closed []) with content := [] }
      else d.get x := by
  simp only [Disk.append, Disk.creat, Disk.get_set, Disk.set_canon]
  by_cases hname : d.canon name = d.canon filesTxt
  · by_cases hx : d.canon x = d.canon filesTxt
    · simp [hname, hx]
    · simp [hname, hx]
  · by_cases hx : d.canon x = d.canon filesTxt
    · simp [hname, Ne.symm hname, hx]
    · simp [hname, hx]

/-- Creating a document adds its entry and empties no file with text in it. -/
theorem create_frame {name : Bytes} {res : Int} (hlist : WellListed (d.text filesTxt)) (hname : IsTyped name)
    (hok : (FileOp.create name).Harmless fails d) (hrun : createFile fails d (some name) = .ok (d', res)) :
    (FileOp.create name).Frame d d' res ∧ WellListed (d'.text filesTxt) := by
  rcases createFile_returns hrun with hsame | ⟨hopen, hcreat, hnew, id, hfind, rfl, fp, hfp, rfl⟩
  · obtain ⟨hspares, hdocs⟩ := hsame.spares fun _ => False
    exact ⟨⟨hspares, .inl hdocs⟩, by rwa [(hsame filesTxt).1]⟩
  · obtain ⟨hfiles, husers, hdocs⟩ := hok hopen hcreat hnew
    obtain ⟨hid, hzero⟩ := hlist.findFile hfind
    have he : FileEntry.Typed (id + 1, name) := ⟨by omega, hname⟩
    obtain ⟨hwell, hentries⟩ := hlist.append he
    have hget := d.created_get fp name (if id = 0 then entry (digits (id + 1)) name else 10 :: entry (digits (id + 1)) name)
    generalize ((d.set filesTxt (some fp)).creat name).append filesTxt
      (if id = 0 then entry (digits (id + 1)) name else 10 :: entry (digits (id + 1)) name) = d' at hget ⊢
    have htext : d'.text filesTxt = if d.text filesTxt = [] then FileEntry.line (id + 1, name)
        else d.text filesTxt ++ 10 :: FileEntry.line (id + 1, name) := by
      have hkept : (if d.canon name = d.canon filesTxt then [] else fp.content) = d.text filesTxt := by
        split
        · next hcanon => exact (hfiles hcanon).symm
        · exact hfp
      rw [Disk.text, hget, if_pos rfl, Option.map_some, Option.getD_some, hkept]
      simp only [hzero]
      split
      · next hnil => rw [hnil, List.nil_append, FileEntry.line]
      · rfl
    refine ⟨⟨⟨?_, fun e hmem _ fp₀ hfp₀ => ?_⟩, .inr ?_⟩, htext ▸ hwell⟩
    · rw [Disk.text, hget, if_neg d.users_ne_files]
      split
      · next hcanon => exact (husers hcanon.symm).symm
      · rfl
    · obtain ⟨hapart, hempty⟩ := hdocs e hmem (by simp [hfp₀])
      rw [hget, if_neg hapart]
      split
      · next hcanon =>
          have hnil := hempty hcanon
          rw [Disk.text, hfp₀] at hnil
          exact ⟨_, rfl, hnil.symm⟩
      · exact ⟨fp₀, hfp₀, rfl⟩
    · rw [Disk.documents, htext, hentries]
      rfl

/-! ## Deleting -/

/-- The list has been written back, and of the other files those at which `P` holds are removed. -/
theorem rewritten_frame {id res : Int} {t : Inode} {text : Bytes} (hlist : WellListed (d.text filesTxt))
    (hput : d.putAside fails = some t) (hcontent : t.content = d.text filesTxt)
    (hwrite : writeBack id (lines t.content).length 0 (lines t.content) = .ok text) (P : Bytes → Prop)
    (hstays : ∀ x, ¬ P x → d'.get x = ((d.rewritten fails text).clear fails).get x) (hgone : ∀ x, P x → d'.get x = none)
    (husers : P userdataTxt → d.get userdataTxt = none) (hfiles : P filesTxt → ∀ e ∈ d.documents, e.1 = id)
    (hdocs : ∀ e ∈ d.documents, e.1 ≠ id → d.get e.2 ≠ none →
      ¬ P e.2 ∧ d.canon e.2 ≠ d.canon filesTxt ∧ d.canon e.2 ≠ d.canon filesTempTxt) :
    (FileOp.delete id).Frame d d' res ∧ WellListed (d'.text filesTxt) := by
  rw [hcontent] at hwrite
  obtain ⟨hwell, hentries⟩ := writeBack_entries (pieces_lines _) (Nat.zero_add _) hlist hwrite
  have hother : ∀ x, ¬ P x → d.canon x ≠ d.canon filesTxt → d.canon x ≠ d.canon filesTempTxt → d'.get x = d.get x := by
    intro x hx hxfiles hxtemp
    rw [hstays x hx, Disk.cleared_get hput, if_neg hxfiles, if_neg hxtemp]
  have hnew : WellListed (d'.text filesTxt) ∧ d'.documents = d.documents.filter (·.1 ≠ id) := by
    unfold Disk.documents
    by_cases hP : P filesTxt
    · have hnil : d'.text filesTxt = [] := by rw [Disk.text, hgone _ hP]; rfl
      have hall : (entriesOf (d.text filesTxt)).filter (·.1 ≠ id) = [] := by
        rw [List.filter_eq_nil_iff]
        intro e hmem
        simpa using hfiles hP e hmem
      rw [hnil, hall]
      exact ⟨by simp [WellListed], rfl⟩
    · have htext : d'.text filesTxt = text := by
        rw [Disk.text, hstays _ hP, Disk.cleared_get hput, if_pos rfl]
        rfl
      rw [htext]
      exact ⟨hwell, hentries⟩
  refine ⟨⟨⟨?_, fun e hmem hid fp hfp => ?_⟩, .inr hnew.2⟩, hnew.1⟩
  · by_cases hP : P userdataTxt
    · rw [Disk.text, Disk.text, hgone _ hP, husers hP]
    · rw [Disk.text, hother _ hP d.users_ne_files d.users_ne_temp, Disk.text]
  · obtain ⟨hP, hapart, htemp⟩ := hdocs e hmem hid (by simp [hfp])
    exact ⟨fp, (hother _ hP hapart htemp).trans hfp, rfl⟩

/-- If the list could not be renamed and one of the two lists cannot be opened, at most the list put aside stays
    open. -/
theorem deleteFile_unrenamed {id res : Int} (hrename : fails .rename = true)
    (hfails : d.putAside fails = none ∨ fails .fopenFiles = true) (hrun : deleteFile fails d id = .ok (d', res)) :
    d' = d ∨ ∃ t, d.get filesTempTxt = some t ∧ d' = d.set filesTempTxt (some { t with locked := true }) := by
  have hreturns := deleteFile_returns (fun _ hfiles => hfails.imp_right fun h => by rw [hfiles] at h; cases h) hrun
  simp only [hrename, if_true] at hreturns
  rcases hreturns with ⟨-, rfl, -⟩ | ⟨t, hput, -, ⟨-, rfl, -⟩ | ⟨hfiles, -⟩⟩
  · exact .inl rfl
  · have ht := Disk.of_putAside hput
    rw [hrename, if_pos rfl] at ht
    exact .inr ⟨t, ht, rfl⟩
  · rcases hfails with h | h
    · rw [h] at hput
      cases hput
    · rw [h] at hfiles
      cases hfiles

/-- There is no list. -/
theorem rename_frame {id res : Int} (hnone : d.get filesTxt = none) :
    (FileOp.delete id).Frame d (d.rename filesTxt filesTempTxt) res ∧
      WellListed ((d.rename filesTxt filesTempTxt).text filesTxt) := by
  have hnil : d.text filesTxt = [] := by rw [Disk.text, hnone]; rfl
  have hnil' : (d.rename filesTxt filesTempTxt).text filesTxt = [] := by
    rw [Disk.text, Disk.rename, Disk.get_set_self]
    rfl
  have hdocs : d.documents = [] := by rw [Disk.documents, hnil]; rfl
  refine ⟨⟨⟨?_, fun e hmem => ?_⟩, .inl ?_⟩, by simp [hnil', WellListed]⟩
  · rw [Disk.text, Disk.rename, Disk.get_set_ne _ (by simpa using d.users_ne_files),
      Disk.get_set_ne _ d.users_ne_temp, Disk.text]
  · rw [hdocs] at hmem
    cases hmem
  · rw [hdocs, Disk.documents, hnil']
    rfl

/-- Deleting a document takes its entry out, and removes no other file that is in use. -/
theorem delete_frame {id res : Int} (hlist : WellListed (d.text filesTxt)) (hok : (FileOp.delete id).Harmless fails d)
    (hrun : deleteFile fails d id = .ok (d', res)) :
    (FileOp.delete id).Frame d d' res ∧ WellListed (d'.text filesTxt) := by
  cases hrename : fails .rename with
  | true =>
      rw [FileOp.Harmless, if_pos hrename] at hok
      have hsame : Unwritten d d' := by
        rcases deleteFile_unrenamed hrename hok hrun with rfl | ⟨t, ht, rfl⟩
        · exact .refl _
        · exact (Unwritten.refl d).set (by rw [Disk.text, ht]; rfl)
      obtain ⟨hspares, hdocs⟩ := hsame.spares (·.1 = id)
      exact ⟨⟨hspares, .inl hdocs⟩, by rwa [(hsame filesTxt).1]⟩
  | false =>
      simp only [FileOp.Harmless, hrename, Bool.false_eq_true, if_false] at hok
      obtain ⟨htemp, hfiles, hdocs, hremoved⟩ := hok
      have hput : d.putAside fails = d.get filesTxt := by
        rw [Disk.putAside, htemp, hrename]
        rfl
      have hreturns := deleteFile_returns (fun h _ => by rw [hrename] at h; cases h) hrun
      simp only [hrename, Bool.false_eq_true, if_false] at hreturns
      rcases hreturns with ⟨hnone, rfl, -⟩ | ⟨t, ht, -, ⟨h, -⟩ | ⟨-, filename, text, hname, hwrite, hremove⟩⟩
      · exact rename_frame (hput ▸ hnone)
      · rw [hfiles] at h
        cases h
      · have hcontent : t.content = d.text filesTxt := by
          rw [Disk.text, ← hput, ht]
          rfl
        have hremove : removeFiles fails (d.rewritten fails text) filename = (d', res) := by
          rw [Disk.rewritten, hrename]
          exact hremove
        rcases removeFiles_cases (d.rewritten fails text) filename with
          ⟨name, rfl, hremoves, -, heq⟩ | ⟨-, hdisk, hcanon, -⟩
        · -- the file that the name leads to is gone
          obtain ⟨rfl, -⟩ := Prod.mk.inj (heq.symm.trans hremove)
          obtain ⟨husers, hlisted, hothers⟩ := hremoved hremoves name hname
          have hcanon : ∀ x, ((d.rewritten fails text).clear fails).canon x = d.canon x := fun x => by
            rw [Disk.clear_canon, Disk.rewritten_canon]
          refine rewritten_frame hlist ht hcontent hwrite (fun x => d.canon name = d.canon x) (fun x hx => ?_)
            (fun x hx => ?_) husers hlisted fun e hmem hid hthere => ?_
          · rw [Disk.get_set_ne _ (by rw [hcanon, hcanon]; exact Ne.symm hx)]
          · rw [Disk.get_set, hcanon, hcanon, if_pos hx.symm]
          · exact ⟨fun h => hothers e hmem hid hthere h.symm, hdocs e hmem hid hthere⟩
        · obtain rfl : (removeFiles fails (d.rewritten fails text) filename).1 = d' := congrArg Prod.fst hremove
          exact rewritten_frame hlist ht hcontent hwrite (fun _ => False) (fun x _ => by rw [Disk.get, Disk.get, hdisk, hcanon])
            (fun _ h => h.elim) (fun h => h.elim) (fun h => h.elim)
            fun e hmem hid hthere => ⟨not_false, hdocs e hmem hid hthere⟩

/-- A harmless call changes its own entries and its own document only, and leaves a list of entries. -/
theorem FileOp.Harmless.frame {op : FileOp} {res : Int} (hok : op.Harmless fails d) (hname : op.Typed)
    (hlist : WellListed (d.text filesTxt)) (hrun : op.call fails d = .ok (d', res)) :
    op.Frame d d' res ∧ WellListed (d'.text filesTxt) := by
  cases op with
  | create name => exact create_frame hlist hname hok hrun
  | delete id => exact delete_frame hlist hok hrun

theorem FileOp.Frame.users {op : FileOp} {res : Int} (h : op.Frame d d' res) : d'.text userdataTxt = d.text userdataTxt := by
  cases op with
  | create name => exact h.1.users
  | delete id => exact h.1.users

end

end CoEditor
