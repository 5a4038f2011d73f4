-- SUMMARY: What creating and deleting documents does to the entries of the list, and what is sent of it.
import Mathlib.Logic.Relation
import CoEditor.Registry.Requests

/-!
# Entries of the list of documents

`createFile` compares the name it is given with the second field of a line,
which has the newline of the line in it; the names that it can find are those
on a last line without newline.
-/

namespace CoEditor

open Decimal

/-- What `createFile` writes to the list, if `id` is on the last line. -/
def newEntry (id : Int) (name : Bytes) : Bytes :=
  if id = 0 then entry (digits (id + 1)) name else 10 :: entry (digits (id + 1)) name

theorem newEntry_ne_nil (id : Int) (name : Bytes) : newEntry id name ≠ [] := by
  unfold newEntry
  split
  · exact entry_ne_nil _ _
  · exact List.cons_ne_nil _ _

section
variable {d : Disk} {s name : Bytes} {es : List FileEntry} {fails : SysCall → Bool}

theorem Disk.set_same {fp : Option Inode} (h : d.get name = fp) : d.set name fp = d := by
  have hfile : (d.set name fp).file = d.file := by
    funext path
    show (if path = d.canon name then fp else d.file path) = d.file path
    split
    · next hpath => rw [← h, hpath]; rfl
    · rfl
  show { d with file := (d.set name fp).file } = d
  rw [hfile]

/-- The disk and the result that `createFile` returns after it has read the list. -/
theorem createFile_eq {fp : Inode} {val : Bool} {id : Int} (hfile : d.get filesTxt = some fp) (hlock : fp.locked = false)
    (hopen : fails .fopenFiles = false) (hfind : findFile (some name) 0 (lines fp.content) = .ok (val, id)) :
    createFile fails d (some name) = .ok (
      if val then (d, -1)
      else if fails .creat then (d.set filesTxt (some { fp with locked := true, pending := newEntry id name }), -3)
      else (((d.set filesTxt (some fp)).creat name).append filesTxt (newEntry id name), id + 1)) := by
  have hflock : flock fp = .ok () := by rw [flock, if_neg (by simp [hlock])]; rfl
  simp only [createFile, hopen, Bool.false_eq_true, if_false, hfile, Option.getD_some, hflock, Except.ok_bind_eq, hfind,
    Disk.set_same hfile]
  cases val with
  | true => rfl
  | false =>
      simp only [Bool.false_eq_true, if_false, derefStr, Except.pure_eq_ok, Except.ok_bind_eq]
      cases fails .creat <;> rfl

/-- What a call that succeeds has read and done. -/
theorem createFile_success {fp : Inode} {d' : Disk} {res : Int} (hfile : d.get filesTxt = some fp) (hlock : fp.locked = false)
    (hrun : createFile fails d (some name) = .ok (d', res)) (hres : 0 < res) :
    ∃ id, findFile (some name) 0 (lines fp.content) = .ok (false, id) ∧ res = id + 1 ∧
      d' = ((d.set filesTxt (some fp)).creat name).append filesTxt (newEntry id name) := by
  cases hopen : fails .fopenFiles with
  | true =>
      rw [createFile, if_pos hopen] at hrun
      obtain ⟨-, rfl⟩ := Prod.mk.inj (Except.ok.inj hrun)
      exact absurd hres (by decide)
  | false =>
      cases hfind : findFile (some name) 0 (lines fp.content) with
      | error e =>
          have hflock : flock fp = .ok () := by rw [flock, if_neg (by simp [hlock])]; rfl
          simp only [createFile, hopen, Bool.false_eq_true, if_false, hfile, Option.getD_some, hflock, Except.ok_bind_eq,
            hfind] at hrun
          cases hrun
      | ok r =>
          obtain ⟨val, id⟩ := r
          rw [createFile_eq hfile hlock hopen hfind] at hrun
          cases val with
          | true =>
              obtain ⟨-, rfl⟩ := Prod.mk.inj (Except.ok.inj hrun)
              exact absurd hres (by decide)
          | false =>
              cases hcreat : fails .creat with
              | true =>
                  rw [hcreat] at hrun
                  obtain ⟨-, rfl⟩ := Prod.mk.inj (Except.ok.inj hrun)
                  exact absurd hres (by decide)
              | false =>
                  rw [hcreat] at hrun
                  obtain ⟨rfl, rfl⟩ := Prod.mk.inj (Except.ok.inj hrun)
                  exact ⟨id, rfl, rfl, rfl⟩

/-! ## Names that are taken -/

/-- Only on a last line without newline is a name found. -/
theorem field_on_last {ls : List Bytes} (hpieces : Pieces ls) :
    ∀ {es : List FileEntry}, List.Forall₂ (fun e l => l = FileEntry.line e ∨ l = FileEntry.line e ++ [10]) es ls →
      (∀ e ∈ es, IsField e.2) → (10 : UInt8) ∉ name →
      ((∃ l ∈ ls, (fields l).2 = some name) ↔ ¬ Ended ls.flatten ∧ es.getLast?.map Prod.snd = some name) := by
  induction hpieces with
  | nil =>
      intro es h _ _
      cases h
      simp
  | @last l hl hne =>
      intro es h hnames _
      obtain ⟨e, rfl, hel⟩ : ∃ e, es = [e] ∧ (l = e.line ∨ l = e.line ++ [10]) := by
        cases h with
        | cons hel hnil =>
            cases hnil
            exact ⟨_, rfl, hel⟩
      obtain rfl : l = e.line := hel.resolve_right fun h => hl (by simp [h])
      have he : IsField e.2 := hnames e (by simp)
      have hended : ¬ Ended e.line := fun h => hl (List.mem_of_getLast? h)
      have hsnd : (fields e.line).2 = some e.2 :=
        congrArg Prod.snd (fields_eq (isField_digits e.1) he.1 he.2.1 he.2.2.2)
      simp [hsnd, hended]
  | @line l ls hl hpieces ih =>
      intro es h hnames hname
      cases h with
      | @cons e _ es _ hel hrest =>
          have he : IsField e.2 := hnames e (by simp)
          have hline : l ++ [10] = e.line ++ [10] :=
            hel.resolve_left fun h => newline_notMem_line he (h ▸ by simp)
          -- the newline is part of the field that is compared
          have hsnd : (fields (l ++ [10])).2 ≠ some name := by
            rw [hline, FileEntry.line, fields_eq_newline (isField_digits e.1) he.2.1 he.2.2.2]
            intro h
            exact hname (by rw [← Option.some.inj h]; simp)
          have hih := ih hrest (fun e he => hnames e (by simp [he])) hname
          rw [List.exists_mem_cons_iff, List.flatten_cons, or_iff_right hsnd, hih]
          cases hrest with
          | nil => simp [Ended]
          | @cons e' l' es ls' _ _ =>
              have hne : (l' :: ls').flatten ≠ [] := by
                intro hnil
                cases hpieces with
                | last _ hne => exact hne (by simpa using hnil)
                | line _ _ => simp at hnil
              rw [Ended, Ended, List.getLast?_append_of_ne_nil _ hne, List.getLast?_cons_cons]

/-- A name on the list is refused, and nothing changes; another name is not refused, and no document that is listed
    loses what is in it. -/
structure Refuses (es : List FileEntry) (d d' : Disk) (name : Bytes) (res : Int) : Prop where
  listed : name ∈ es.map Prod.snd → res = -1 ∧ d' = d
  unlisted : name ∉ es.map Prod.snd → res ≠ -1
  documents : ∀ e ∈ es, d.text e.2 <+: d'.text e.2

/-- What the list, the documents and the system calls must be like for that. -/
structure Refusable (fails : SysCall → Bool) (es : List FileEntry) (s : Bytes) (d : Disk) (name : Bytes) : Prop where
  listed : name ∈ es.map Prod.snd → fails .fopenFiles = false ∧ ¬ Ended s ∧ es.getLast?.map Prod.snd = some name
  unlisted : name ∉ es.map Prod.snd → fails .fopenFiles = false → fails .creat = false →
    es.getLast?.map Prod.fst ≠ some (-2) ∧ ∀ e ∈ es, d.canon e.2 = d.canon name → d.text e.2 = []

theorem Disk.text_of_get {fp : Inode} (h : d.get name = some fp) : d.text name = fp.content := by rw [Disk.text, h]; rfl

/-- The text at each name after a document was created. -/
theorem Disk.created_text (d : Disk) (s name t x : Bytes) :
    (((d.set filesTxt (some (.closed s))).creat name).append filesTxt t).text x =
      if d.canon x = d.canon filesTxt then (if d.canon name = d.canon filesTxt then [] else s) ++ t
      else if d.canon x = d.canon name then [] else d.text x := by
  rw [Disk.text, d.created_get]
  split
  · rfl
  · split
    · rfl
    · rfl

/-- A list starts with an entry, not with a newline. -/
theorem list_head (hspells : Spells (es.map FileEntry.line) s) (hnames : ∀ e ∈ es, IsField e.2) (t : Bytes) :
    s ≠ 10 :: t := by
  rintro rfl
  rw [Spells, lines_newline, List.forall₂_map_left_iff] at hspells
  cases hspells with
  | @cons e _ es _ hel _ =>
      have hnl := newline_notMem_line (hnames e (by simp))
      rcases hel with hel | hel
      · exact hnl (by rw [← hel]; simp)
      · exact entry_ne_nil _ _ (List.append_left_injective [10] hel).symm

/-- A list is not the start of what is written after it. -/
theorem not_prefix_newEntry (hspells : Spells (es.map FileEntry.line) s) (hnames : ∀ e ∈ es, IsField e.2)
    (hname : IsField name) (hne : es ≠ []) : ¬ s <+: newEntry ((es.getLast?.map Prod.fst).getD 0) name := by
  have hs : s ≠ [] := fun h => hne (by simpa using hspells.eq_nil_iff.mpr h)
  obtain ⟨c, t, rfl⟩ := List.exists_cons_of_ne_nil hs
  intro hstart
  rw [newEntry] at hstart
  split at hstart
  · next hzero =>
      -- without a newline there is one entry, whose id is not that of the new one
      obtain ⟨u, hu⟩ := hstart
      have hnl : (10 : UInt8) ∉ c :: t := by
        intro hmem
        refine newline_notMem_entry (isField_digits 1).2.2.1 hname.2.2.1 ?_
        rw [hzero] at hu
        exact hu ▸ List.mem_append_left u hmem
      rw [Spells, lines_last hnl hs, List.forall₂_map_left_iff] at hspells
      cases hspells with
      | @cons e _ es _ hel hnil =>
          cases hnil
          have hid : e.1 = 0 := by simpa using hzero
          rcases hel with hel | hel
          · have hdigits : digits 0 = [48] ∧ digits 1 = [49] := by decide
            rw [hel, hzero, FileEntry.line, hid, entry, entry, Int.zero_add, hdigits.1, hdigits.2] at hu
            exact absurd (List.cons.inj hu).1 (by decide)
          · exact hnl (by rw [hel]; simp)
  · obtain ⟨rfl, -⟩ := List.cons_prefix_cons.mp hstart
    exact list_head hspells hnames t rfl

/-- The case in which the document is created. -/
theorem created_refuses_iff (hfile : d.get filesTxt = some (.closed s)) (hspells : Spells (es.map FileEntry.line) s)
    (hnames : ∀ e ∈ es, IsField e.2) (hname : IsField name)
    (hnot : ¬ (¬ Ended s ∧ es.getLast?.map Prod.snd = some name)) (hopen : fails .fopenFiles = false)
    (hcreat : fails .creat = false) {id : Int} (hid : id = (es.getLast?.map Prod.fst).getD 0) :
    Refuses es d (((d.set filesTxt (some (.closed s))).creat name).append filesTxt (newEntry id name)) name (id + 1) ↔
      Refusable fails es s d name := by
  have htext : d.text filesTxt = s := Disk.text_of_get hfile
  have hcreated := d.created_text s name (newEntry id name)
  have hsame : ∀ {x}, d.canon x = d.canon filesTxt → d.text x = s := by
    intro x hx
    rw [← htext, Disk.text, Disk.text, Disk.get, hx]
    rfl
  have hnone : es ≠ [] → ¬ s <+: newEntry id name := hid ▸ not_prefix_newEntry hspells hnames hname
  constructor
  · refine fun h => ⟨fun hl => ?_, fun _ _ _ => ⟨fun hlast => ?_, fun e he hcanon => ?_⟩⟩
    · have hne : es ≠ [] := fun h => by rw [h] at hl; cases hl
      have hsame := hcreated filesTxt
      rw [(h.listed hl).2, if_pos rfl, htext] at hsame
      split at hsame
      · exact absurd (hsame ▸ List.prefix_rfl) (hnone hne)
      · exact absurd (List.self_eq_append_right.mp hsame) (newEntry_ne_nil _ _)
    · rw [hlast] at hid
      exact h.unlisted ‹_› (by rw [hid]; rfl)
    · have hdoc := h.documents e he
      rw [hcreated] at hdoc
      by_cases hfiles : d.canon e.2 = d.canon filesTxt
      · rw [if_pos hfiles, if_pos (hcanon ▸ hfiles), hsame hfiles, List.nil_append] at hdoc
        exact absurd hdoc (hnone (List.ne_nil_of_mem he))
      · rw [if_neg hfiles, if_pos hcanon] at hdoc
        exact List.prefix_nil.mp hdoc
  · intro h
    have hnew : name ∉ es.map Prod.snd := fun hl => absurd (h.listed hl).2 hnot
    obtain ⟨hlast, hdocs⟩ := h.unlisted hnew hopen hcreat
    refine ⟨fun hl => absurd hl hnew, fun _ hres => ?_, fun e he => ?_⟩
    · obtain rfl : id = -2 := by omega
      cases hl : es.getLast? with
      | none => rw [hl] at hid; cases hid
      | some e =>
          rw [hl, Option.map_some, Option.getD_some] at hid
          rw [hl, Option.map_some, hid] at hlast
          exact hlast rfl
    · rw [hcreated]
      split
      · next hfiles =>
          split
          · next hname => rw [hdocs e he (hfiles.trans hname.symm)]; exact List.nil_prefix
          · rw [hsame hfiles]; exact List.prefix_append s _
      · split
        · next hcanon => simp [hdocs e he hcanon]
        · exact List.prefix_rfl

/-- `createFile` refuses the names on the list just when the name stands on a last line without newline. -/
theorem createFile_refuses_iff (hfile : d.get filesTxt = some (.closed s)) (hspells : Spells (es.map FileEntry.line) s)
    (hnames : ∀ e ∈ es, IsField e.2) (hname : IsField name) :
    ∃ d' res, createFile fails d (some name) = .ok (d', res) ∧ (Refuses es d d' name res ↔ Refusable fails es s d name) := by
  have hlines : List.Forall₂ (fun e l => l = FileEntry.line e ∨ l = FileEntry.line e ++ [10]) es (lines s) :=
    List.forall₂_map_left_iff.mp hspells
  have htext : d.text filesTxt = s := Disk.text_of_get hfile
  cases hopen : fails .fopenFiles with
  | true =>
      refine ⟨d, -2, by rw [createFile, if_pos hopen]; rfl, ?_⟩
      constructor
      · exact fun h => ⟨fun hl => absurd (h.listed hl).1 (by decide), fun _ h => by rw [hopen] at h; cases h⟩
      · exact fun h => ⟨fun hl => absurd (hopen.symm.trans (h.listed hl).1) (by decide), fun _ => by decide,
          fun e _ => List.prefix_rfl⟩
  | false =>
      obtain ⟨val, id, hfind, hid⟩ := findFile_eq hlines hnames name 0
      have hrun := createFile_eq hfile rfl hopen hfind
      have hval := (findFile_val hfind).trans (field_on_last (pieces_lines s) hlines hnames hname.2.2.1)
      rw [lines_flatten] at hval
      cases val with
      | true =>
          obtain ⟨hended, hlast⟩ := hval.mp rfl
          obtain ⟨e, he, rfl⟩ := Option.map_eq_some_iff.mp hlast
          have hmem : e.2 ∈ es.map Prod.snd := List.mem_map_of_mem (List.mem_of_getLast? he)
          refine ⟨_, _, hrun, iff_of_true ⟨fun _ => ⟨rfl, rfl⟩, fun h => absurd hmem h, fun e _ => List.prefix_rfl⟩
            ⟨fun _ => ⟨hopen, hended, hlast⟩, fun h => absurd hmem h⟩⟩
      | false =>
          have hnot : ¬ (¬ Ended s ∧ es.getLast?.map Prod.snd = some name) := fun h => by cases hval.mpr h
          cases hcreat : fails .creat with
          | true =>
              simp only [Bool.false_eq_true, if_false, hcreat, if_true] at hrun
              refine ⟨_, _, hrun,
                fun h => ⟨fun hl => absurd (h.listed hl).1 (by decide), fun _ _ h => by cases hcreat.symm.trans h⟩,
                fun h => ⟨fun hl => absurd (h.listed hl).2 hnot, fun _ => by decide, fun e _ => ?_⟩⟩
              have hwritten : Unwritten d (d.set filesTxt (some { Inode.closed s with
                locked := true, pending := newEntry id name })) := (Unwritten.refl d).set htext.symm
              exact (hwritten e.2).1 ▸ List.prefix_rfl
          | false =>
              simp only [Bool.false_eq_true, if_false, hcreat] at hrun
              exact ⟨_, _, hrun, created_refuses_iff hfile hspells hnames hname hnot hopen hcreat (hid rfl)⟩

end

/-- Two documents, `a` with text in it. -/
def documentsAB : Disk := (Disk.ofTexts [] (bytes "1:a\n2:b")).set (bytes "a") (some (.closed (bytes "text")))

theorem createFile_refuses_iff_b : ∃ d' res, createFile noFailure documentsAB (some (bytes "b")) = .ok (d', res) ∧
    Refuses [(1, bytes "a"), (2, bytes "b")] documentsAB d' (bytes "b") res := by
  have hfile : documentsAB.get filesTxt = some (.closed (bytes "1:a\n2:b")) := by decide
  have hspells : Spells ([(1, bytes "a"), (2, bytes "b")].map FileEntry.line) (bytes "1:a\n2:b") := by decide
  have hname : IsField (bytes "b") := by decide
  obtain ⟨d', res, hrun, h⟩ := createFile_refuses_iff hfile hspells (by decide) hname
  exact ⟨d', res, hrun, h.mpr ⟨fun _ => by decide, fun hnot => absurd (by decide) hnot⟩⟩

/-- A name on a line with a newline is not found, and its document is emptied. -/
theorem createFile_empties_listed : Spells ([(1, bytes "a"), (2, bytes "b")].map FileEntry.line) (bytes "1:a\n2:b") ∧
    documentsAB.get filesTxt = some (.closed (bytes "1:a\n2:b")) ∧ documentsAB.text (bytes "a") = bytes "text" ∧
    ∃ d', createFile noFailure documentsAB (some (bytes "a")) = .ok (d', 3) ∧ d'.text (bytes "a") = [] ∧
      ¬ Refuses [(1, bytes "a"), (2, bytes "b")] documentsAB d' (bytes "a") 3 := by
  have htest : returns (createFile noFailure documentsAB (some (bytes "a")))
      (fun r => decide (r.2 = 3 ∧ r.1.text (bytes "a") = [])) = true := by decide +kernel
  obtain ⟨⟨d', res⟩, hrun, hres⟩ := exists_of_returns htest
  obtain ⟨rfl, hempty⟩ := of_decide_eq_true hres
  exact ⟨by decide, by decide, by decide, d', hrun, hempty, fun h => absurd (h.listed (by decide)).1 (by decide)⟩

/-! ## Looking up what was created -/

/-- The line has another id. -/
def OtherId (id : Int) (l : Bytes) : Prop := ∃ t, (fields l).1 = some t ∧ atoi t ≠ id

theorem findFileName_other {id : Int} {ls : List Bytes} (h : ∀ l ∈ ls, OtherId id l) (ms : List Bytes) :
    findFileName id (ls ++ ms) = findFileName id ms := by
  induction ls with
  | nil => rfl
  | cons l ls ih =>
      rw [List.forall_mem_cons] at h
      obtain ⟨⟨t, ht, hid⟩, hrest⟩ := h
      rw [List.cons_append, findFileName, ht]
      simp only [derefStr, Except.pure_eq_ok, Except.ok_bind_eq, if_neg hid]
      exact ih hrest

theorem findFileName_concat_other {id : Int} {m : Bytes} (hm : OtherId id m) (ls : List Bytes) :
    findFileName id (ls ++ [m]) = findFileName id ls := by
  induction ls with
  | nil =>
      obtain ⟨t, ht, hid⟩ := hm
      simp only [List.nil_append, findFileName, ht, derefStr, Except.pure_eq_ok, Except.ok_bind_eq, if_neg hid]
  | cons l ls ih => rw [List.cons_append, findFileName_cons, findFileName_cons, ih]

theorem findFileName_congr {id : Int} {ls ls' : List Bytes} (h : List.Forall₂ SameRecord ls ls') :
    findFileName id ls = findFileName id ls' := by
  induction h with
  | nil => rfl
  | @cons l l' ls ls' hl _ ih =>
      have hid : hasId id l = hasId id l' := by
        have hread := hl.bind_eq (fun _ => pure true)
        unfold hasId
        rw [hl.1, hread]
      rw [findFileName_cons, findFileName_cons, ih, hl.2, hid]

/-- A line of the list, also one whose name has colons in it. -/
theorem fields_listed {e : FileEntry} {l : Bytes} (hnul : (0 : UInt8) ∉ e.2) (hl : l = e.line ∨ l = e.line ++ [10]) :
    (fields l).1 = some (digits e.1) := by
  rcases hl with rfl | rfl
  · rw [FileEntry.line, fields_strtok (isField_digits e.1) hnul]
  · rw [FileEntry.line, entry_append, fields_strtok (isField_digits e.1) (by simp [hnul])]

theorem OtherId.listed {e : FileEntry} {l : Bytes} {id : Int} (hnul : (0 : UInt8) ∉ e.2)
    (hl : l = e.line ∨ l = e.line ++ [10]) (hid : e.1 ≠ id) : OtherId id l :=
  ⟨_, fields_listed hnul hl, by rwa [atoi_digits]⟩

theorem OtherId.entry {name : Bytes} {n id : Int} (hnul : (0 : UInt8) ∉ name) (hid : n ≠ id) :
    OtherId id (entry (digits n) name) := by
  have hline : CoEditor.entry (digits n) name = FileEntry.line (n, name) := rfl
  exact hline ▸ .listed hnul (.inl rfl) hid

/-- Looking up the last entry of a list finds its name if this has no colon. -/
theorem findFileName_last {id : Int} {name : Bytes} (hname : IsTyped name) :
    findFileName id [entry (digits id) name] = .ok (some name) ↔ ch ':' ∉ name := by
  have hfields := fields_strtok (isField_digits id) hname.notMem.2
  simp only [findFileName, hfields, derefStr, Except.pure_eq_ok, Except.ok_bind_eq, atoi_digits, if_true]
  constructor
  · intro h hcolon
    cases htok : strtok name with
    | none => rw [htok] at h; cases h
    | some r =>
        rw [htok] at h
        have hfn : terminateNull r.1 = name := Option.some.inj (Except.ok.inj h)
        refine strtok_notMem htok ?_
        rw [← hfn] at hcolon
        exact List.takeWhile_subset _ hcolon
  · intro hcolon
    rw [strtok_last hname.1 hcolon]
    exact congrArg (Except.ok ∘ some) (terminateNull_eq_self hname.notMem.1)

section
variable {d d' : Disk} {s name : Bytes} {es : List FileEntry} {fails : SysCall → Bool} {res : Int}

/-- The new id is no document's, leads to the name, and all other ids lead where they did. -/
structure Records (es : List FileEntry) (d d' : Disk) (name : Bytes) (res : Int) : Prop where
  fresh : ∀ e ∈ es, e.1 ≠ res
  named : getFileName d' res = .ok (some name)
  others : ∀ id, id ≠ res → getFileName d' id = getFileName d id

theorem getFileName_eq {fp : Inode} (hfile : d.get filesTxt = some fp) (hlock : fp.locked = false) (id : Int) :
    getFileName d id = findFileName id (lines fp.content) := by
  have hflock : flock fp = .ok () := by rw [flock, if_neg (by simp [hlock])]; rfl
  simp only [getFileName, hfile, hflock, Except.ok_bind_eq]

/-- The lines of the list after an entry was added: those it had, the last one with a newline now, and the entry. -/
theorem lines_newEntry {id : Int} (hended : ¬ Ended s) (hzero : id = 0 ↔ s = []) (hname : IsTyped name)
    (hread : ∀ l ∈ lines s, (fields l).2 ≠ none) :
    ∃ ls, lines (s ++ newEntry id name) = ls ++ [entry (digits (id + 1)) name] ∧ List.Forall₂ SameRecord (lines s) ls := by
  have hlast := lines_last (newline_notMem_entry (isField_digits (id + 1)).2.2.1 hname.notMem.1) (entry_ne_nil (digits (id + 1)) name)
  by_cases hnil : s = []
  · subst hnil
    rw [newEntry, if_pos (hzero.mpr rfl)]
    exact ⟨[], hlast, .nil⟩
  · rw [newEntry, if_neg (mt hzero.mp hnil)]
    obtain ⟨ls, l, hls, -, happend⟩ := exists_lines_append hnil hended
    obtain ⟨fn, hfn⟩ := Option.ne_none_iff_exists'.mp (hread l (by simp [hls]))
    obtain ⟨hfst, hsnd⟩ := fields_newline hfn
    refine ⟨ls ++ [l ++ [10]], by rw [happend, hlast]; simp, ?_⟩
    rw [hls]
    exact List.rel_append (List.forall₂_same.mpr fun _ _ => ⟨rfl, rfl⟩) (.cons ⟨hfst.symm, by rw [hsnd, hfn]; rfl⟩ .nil)

/-- The id that `findFile` ends with is the greatest on the list. -/
theorem findFile_greatest (hspells : Spells (es.map FileEntry.line) s) (hnul : ∀ e ∈ es, (0 : UInt8) ∉ e.2)
    (hpos : ∀ e ∈ es, 0 < e.1) (hids : (es.map Prod.fst).Pairwise (· < ·)) {id : Int}
    (hfind : findFile (some name) 0 (lines s) = .ok (false, id)) : (id = 0 ↔ s = []) ∧ ∀ e ∈ es, e.1 ≤ id := by
  rw [← hspells.eq_nil_iff, List.map_eq_nil_iff]
  rw [Spells, List.forall₂_map_left_iff] at hspells
  rcases es.eq_nil_or_concat' with rfl | ⟨es, e, rfl⟩
  · rw [List.forall₂_nil_left_iff.mp hspells] at hfind
    obtain ⟨-, rfl⟩ := Prod.mk.inj (Except.ok.inj hfind)
    simp
  · have hne : lines s ≠ [] := fun h => by simp [h] at hspells
    obtain ⟨ls, l, hls⟩ := (lines s).eq_nil_or_concat'.resolve_left hne
    have hl : l = e.line ∨ l = e.line ++ [10] := by
      rw [hls, ← List.forall₂_reverse_iff, List.reverse_concat, List.reverse_concat] at hspells
      exact (List.forall₂_cons.mp hspells).1
    rw [hls] at hfind
    have hlast := findFile_last hfind
    rw [fields_listed (hnul e (by simp)) hl, Option.map_some, atoi_digits] at hlast
    obtain rfl := Option.some.inj hlast
    have he : 0 < e.1 := hpos e (by simp)
    refine ⟨iff_of_false (by omega) (by simp), fun x hx => ?_⟩
    rw [List.map_append, List.pairwise_append] at hids
    rcases List.mem_append.mp hx with hx | hx
    · exact Int.le_of_lt (hids.2.2 x.1 (List.mem_map_of_mem hx) e.1 (by simp))
    · exact Int.le_of_eq (by rw [List.mem_singleton.mp hx])

/-- A list that is emptied on the way has lost its first entry. -/
theorem not_records_emptied (hfile : d.get filesTxt = some (.closed s)) (hspells : Spells (es.map FileEntry.line) s)
    (hnul : ∀ e ∈ es, (0 : UInt8) ∉ e.2) (hpos : ∀ e ∈ es, 0 < e.1) (hname : IsTyped name)
    (hread : ∀ l ∈ lines s, (fields l).2 ≠ none) (hne : es ≠ []) {id : Int} (hid : 0 < id)
    (hfile' : d'.get filesTxt = some (.closed (newEntry id name))) : ¬ Records es d d' name (id + 1) := by
  intro h
  obtain ⟨e, es, rfl⟩ := List.exists_cons_of_ne_nil hne
  rw [Spells, List.forall₂_map_left_iff] at hspells
  have he : 0 < e.1 := hpos e (by simp)
  have hlost : getFileName d' e.1 = .ok none := by
    have hother : OtherId e.1 (entry (digits (id + 1)) name) :=
      OtherId.entry hname.notMem.2 (h.fresh e (by simp)).symm
    have hblank : OtherId e.1 [10] := ⟨[10], rfl, by rw [show atoi [10] = 0 from by decide]; omega⟩
    rw [getFileName_eq hfile' rfl, newEntry, if_neg (by omega)]
    show findFileName e.1 (lines (10 :: _)) = _
    rw [lines_newline, lines_last (newline_notMem_entry (isField_digits _).2.2.1 hname.notMem.1) (entry_ne_nil _ _)]
    exact findFileName_other (List.forall_mem_cons.mpr ⟨hblank, List.forall_mem_singleton.mpr hother⟩) []
  have hfound : ∃ fn, getFileName d e.1 = .ok (some fn) := by
    rw [getFileName_eq hfile rfl]
    show ∃ fn, findFileName e.1 (lines s) = _
    generalize lines s = ls at hspells hread
    cases hspells with
    | @cons _ l _ ls hl _ =>
        obtain ⟨fn, hfn⟩ := Option.ne_none_iff_exists'.mp (hread l (by simp))
        refine ⟨terminateNull fn, ?_⟩
        simp only [findFileName, fields_listed (hnul e (by simp)) hl, hfn, derefStr, Except.pure_eq_ok, Except.ok_bind_eq,
          atoi_digits, if_true]
  obtain ⟨fn, hfn⟩ := hfound
  have hsame := h.others e.1 (h.fresh e (by simp))
  rw [hlost, hfn] at hsame
  cases hsame

/-- What is created gets an id of its own and is found under its name, unless the name has a colon or leads to the list. -/
theorem createFile_records_iff (hfile : d.get filesTxt = some (.closed s)) (hspells : Spells (es.map FileEntry.line) s)
    (hnul : ∀ e ∈ es, (0 : UInt8) ∉ e.2) (hpos : ∀ e ∈ es, 0 < e.1) (hids : (es.map Prod.fst).Pairwise (· < ·))
    (hended : ¬ Ended s) (hname : IsTyped name) (hrun : createFile fails d (some name) = .ok (d', res)) (hres : 0 < res) :
    Records es d d' name res ↔ ch ':' ∉ name ∧ (d.canon name = d.canon filesTxt → es = []) := by
  obtain ⟨id, hfind, rfl, hd'⟩ := createFile_success hfile rfl hrun hres
  have hread := findFile_fields hfind
  obtain ⟨hzero, hgreatest⟩ := findFile_greatest hspells hnul hpos hids hfind
  have hfile' : d'.get filesTxt = some (.closed ((if d.canon name = d.canon filesTxt then [] else s) ++ newEntry id name)) := by
    rw [hd', d.created_get, if_pos rfl]
    rfl
  by_cases hempties : d.canon name = d.canon filesTxt ∧ es ≠ []
  · obtain ⟨hcanon, hne⟩ := hempties
    refine iff_of_false ?_ fun h => hne (h.2 hcanon)
    rw [if_pos hcanon] at hfile'
    refine not_records_emptied hfile hspells hnul hpos hname hread hne ?_ hfile'
    obtain ⟨e, he⟩ := List.exists_mem_of_ne_nil es hne
    have := hpos e he
    have := hgreatest e he
    omega
  · have hcontent : (if d.canon name = d.canon filesTxt then [] else s) ++ newEntry id name = s ++ newEntry id name := by
      split
      · next hcanon =>
          have hnil : es = [] := by
            by_contra hne
            exact hempties ⟨hcanon, hne⟩
          rw [hspells.eq_nil_iff.mp (by rw [hnil]; rfl)]
      · rfl
    rw [hcontent] at hfile'
    obtain ⟨ls, hls, hsame⟩ := lines_newEntry hended hzero hname hread
    have hfresh : ∀ e ∈ es, e.1 ≠ id + 1 := fun e he => by
      have := hgreatest e he
      omega
    have hothers : ∀ id', id' ≠ id + 1 → getFileName d' id' = getFileName d id' := by
      intro id' hid'
      have hother : OtherId id' (entry (digits (id + 1)) name) :=
        OtherId.entry hname.notMem.2 hid'.symm
      rw [getFileName_eq hfile' rfl, getFileName_eq hfile rfl]
      exact (congrArg _ hls).trans ((findFileName_concat_other hother ls).trans (findFileName_congr hsame).symm)
    have hnamed : getFileName d' (id + 1) = .ok (some name) ↔ ch ':' ∉ name := by
      have hold : ∀ l ∈ ls, OtherId (id + 1) l := by
        intro l hl
        obtain ⟨m, hm, hml⟩ := exists_left_of_mem hsame hl
        obtain ⟨e, he, hem⟩ := exists_left_of_mem (List.forall₂_map_left_iff.mp hspells) hm
        rw [OtherId, ← hml.1]
        exact OtherId.listed (hnul e he) hem (hfresh e he)
      rw [getFileName_eq hfile' rfl, ← findFileName_last hname]
      exact Eq.congr_left ((congrArg _ hls).trans (findFileName_other hold _))
    have hempty : d.canon name = d.canon filesTxt → es = [] := fun hcanon => by
      by_contra hne
      exact hempties ⟨hcanon, hne⟩
    exact ⟨fun h => ⟨hnamed.mp h.named, hempty⟩, fun h => ⟨hfresh, hnamed.mpr h.1, hothers⟩⟩

end

theorem createFile_records_iff_c : ∃ d', createFile noFailure documentsAB (some (bytes "c")) = .ok (d', 3) ∧
    Records [(1, bytes "a"), (2, bytes "b")] documentsAB d' (bytes "c") 3 := by
  have htest : returns (createFile noFailure documentsAB (some (bytes "c"))) (fun r => decide (r.2 = 3)) = true := by
    decide +kernel
  obtain ⟨⟨d', res⟩, hrun, hres⟩ := exists_of_returns htest
  obtain rfl : res = 3 := of_decide_eq_true hres
  have hfile : documentsAB.get filesTxt = some (.closed (bytes "1:a\n2:b")) := by decide
  have hspells : Spells ([(1, bytes "a"), (2, bytes "b")].map FileEntry.line) (bytes "1:a\n2:b") := by decide
  have hname : IsTyped (bytes "c") := by decide +kernel
  refine ⟨d', hrun, (createFile_records_iff hfile hspells (by decide) (by decide) (by decide) (by decide) hname hrun
    (by decide)).mpr ⟨by decide, fun h => absurd h (by decide)⟩⟩

/-- Of a name with a colon, only the part before it comes back. -/
theorem createFile_records_half : documentsAB.get filesTxt = some (.closed (bytes "1:a\n2:b")) ∧ IsTyped (bytes "c:d") ∧
    bytes "c:d" ∉ [(1, bytes "a"), (2, bytes "b")].map Prod.snd ∧
    ∃ d', createFile noFailure documentsAB (some (bytes "c:d")) = .ok (d', 3) ∧
      getFileName d' 3 = .ok (some (bytes "c")) ∧ ¬ Records [(1, bytes "a"), (2, bytes "b")] documentsAB d' (bytes "c:d") 3 := by
  have htest : returns (createFile noFailure documentsAB (some (bytes "c:d"))) (fun r => decide (r.2 = 3 ∧
      returns (getFileName r.1 3) (fun n => n = some (bytes "c")))) = true := by decide +kernel
  obtain ⟨⟨d', res⟩, hrun, hres⟩ := exists_of_returns htest
  obtain ⟨rfl, hget⟩ := of_decide_eq_true hres
  obtain ⟨n, hn, hc⟩ := exists_of_returns hget
  obtain rfl := of_decide_eq_true hc
  refine ⟨by decide, by decide +kernel, by decide, d', hrun, hn, fun h => ?_⟩
  have hsame := hn.symm.trans h.named
  exact absurd (Option.some.inj (Except.ok.inj hsame)) (by decide)

/-! ## Deleting a document -/

section
variable {d : Disk} {s : Bytes} {es : List FileEntry} {e : FileEntry}

/-- If the document is there, and is not one of the two lists, everything succeeds. -/
theorem deleteFile_succeeds (hlist : FileList es s) (hfile : d.get filesTxt = some (.closed s))
    (hname : getFileName d e.1 = .ok (some e.2)) (hthere : d.get e.2 ≠ none) (hfiles : d.canon e.2 ≠ d.canon filesTxt)
    (htemp : d.canon e.2 ≠ d.canon filesTempTxt) : ∃ d', deleteFile noFailure d e.1 = .ok (d', 0) := by
  obtain ⟨text, hwrite, -⟩ := writeBack_eq hlist.forall₂ hlist.name e.1 lines_ended 0 (lines s).length (Nat.zero_add _)
  have hne := d.files_ne_temp
  have haside : (d.rename filesTxt filesTempTxt).get filesTempTxt = some (.closed s) := by
    rw [Disk.rename, Disk.get_set_ne _ (by simpa using hne.symm), Disk.get_set_self, hfile]
  have hnew : (d.rename filesTxt filesTempTxt).get filesTxt = none := by rw [Disk.rename, Disk.get_set_self]
  have hlines : lines (Inode.closed s).content = lines s := rfl
  -- the document is still there when it is removed
  have hdoc : ((((d.rename filesTxt filesTempTxt).set filesTxt (some { Inode.closed [] with content := text })).set
      filesTempTxt none).get e.2) ≠ none := by
    simpa [Disk.rename, Disk.get_set, hfiles, htemp] using hthere
  simp only [deleteFile, hname, noFailure, Bool.false_eq_true, if_false, haside, flock_closed, hnew, Option.getD_none,
    Except.ok_bind_eq, hlines, hwrite, Except.pure_eq_ok, removeFiles, false_or]
  rw [if_neg hdoc]
  exact ⟨_, rfl⟩

/-- Deleting a document takes its entry out of the list and leaves the others. -/
theorem deleteFile_removes (hlist : FileList es s) (hfile : d.get filesTxt = some (.closed s))
    (hids : (es.map Prod.fst).Nodup) (he : e ∈ es) (hthere : d.get e.2 ≠ none) (hfiles : d.canon e.2 ≠ d.canon filesTxt)
    (htemp : d.canon e.2 ≠ d.canon filesTempTxt) :
    ∃ d' s', deleteFile noFailure d e.1 = .ok (d', 0) ∧ d'.get filesTxt = some (.closed s') ∧ FileList (es.erase e) s' ∧
      getFileName d' e.1 = .ok none ∧ ∀ id, id ≠ e.1 → getFileName d' id = getFileName d id := by
  have hlookup : ∀ x ∈ es, x.1 = e.1 → x = e := fun x hx h => List.inj_on_of_nodup_map hids hx he h
  have hname : getFileName d e.1 = .ok (some e.2) := by
    have hfind : es.find? (·.1 = e.1) = some e := by
      cases hfind : es.find? (·.1 = e.1) with
      | none => exact absurd (List.find?_eq_none.mp hfind e he) (by simp)
      | some x =>
          have hx : x.1 = e.1 := by simpa using List.find?_some hfind
          rw [hlookup x (List.mem_of_find?_eq_some hfind) hx]
    rw [hlist.getFileName hfile, hfind]
    rfl
  have herase : es.filter (·.1 ≠ e.1) = es.erase e := by
    rw [(List.Nodup.of_map Prod.fst hids).erase_eq_filter]
    refine List.filter_congr fun x hx => ?_
    have hiff : x.1 = e.1 ↔ x = e := ⟨hlookup x hx, fun h => h ▸ rfl⟩
    by_cases h : x = e <;> simp [hiff, h]
  obtain ⟨d', hrun⟩ := deleteFile_succeeds hlist hfile hname hthere hfiles htemp
  have hkeep : ∀ name, getFileName d e.1 = .ok (some name) → d.canon name ≠ d.canon filesTxt := by
    intro name h
    rw [hname] at h
    cases h
    exact hfiles
  obtain ⟨-, s', hfile', hlist'⟩ := hlist.deleteFile hfile hkeep hrun
  refine ⟨d', s', hrun, hfile', herase ▸ hlist', ?_, fun id hid => ?_⟩
  · rw [hlist'.getFileName hfile', List.find?_eq_none.mpr]
    · rfl
    · simp
  · rw [hlist'.getFileName hfile', hlist.getFileName hfile, List.find?_filter]
    congr 3
    funext x
    by_cases h : x.1 = id <;> simp [h, hid]

end

theorem deleteFile_removes_a : ∃ d' s', deleteFile noFailure documentsAB 1 = .ok (d', 0) ∧
    d'.get filesTxt = some (.closed s') ∧ FileList [(2, bytes "b")] s' ∧ getFileName d' 1 = .ok none ∧
    ∀ id, id ≠ 1 → getFileName d' id = getFileName documentsAB id := by
  have hfile : documentsAB.get filesTxt = some (.closed (bytes "1:a\n2:b")) := by decide
  have hlist : FileList [(1, bytes "a"), (2, bytes "b")] (bytes "1:a\n2:b") := ⟨by decide, by decide, by decide⟩
  have hmem : ((1, bytes "a") : FileEntry) ∈ [((1, bytes "a") : FileEntry), (2, bytes "b")] := by simp
  exact deleteFile_removes hlist hfile (by decide) hmem (by decide) (by decide) (by decide)

/-- A document whose name is another way to write that of the list. -/
def listAsDocument : Disk :=
  { Disk.ofTexts [] (bytes "1:./files.txt\n2:b") with
    canon := fun name => if name = bytes "./files.txt" then filesTxt else name
    apart := by decide }

/-- With such a document the list itself is deleted. -/
theorem deleteFile_removes_list : FileList [(1, bytes "./files.txt"), (2, bytes "b")] (bytes "1:./files.txt\n2:b") ∧
    listAsDocument.get filesTxt = some (.closed (bytes "1:./files.txt\n2:b")) ∧ bytes "./files.txt" ≠ filesTxt ∧
    bytes "./files.txt" ≠ filesTempTxt ∧
    ∃ d', deleteFile noFailure listAsDocument 1 = .ok (d', 0) ∧ d'.get filesTxt = none ∧
      getFileName d' 2 ≠ getFileName listAsDocument 2 := by
  have htest : returns (deleteFile noFailure listAsDocument 1) (fun r => decide (r.2 = 0 ∧ r.1.get filesTxt = none)) = true := by
    decide +kernel
  obtain ⟨⟨d', res⟩, hrun, hres⟩ := exists_of_returns htest
  obtain ⟨rfl, hnone⟩ := of_decide_eq_true hres
  have hname : returns (getFileName listAsDocument 2) (fun _ => true) = true := by decide +kernel
  obtain ⟨name, hname, -⟩ := exists_of_returns hname
  refine ⟨⟨by decide, by decide, by decide⟩, by decide, by decide, by decide, d', hrun, hnone, fun h => ?_⟩
  rw [hname, getFileName, hnone] at h
  cases h

/-! ## The list as it is sent -/

/-- A call of `createFile` that returns; a name is a string. -/
def Creates (d d' : Disk) : Prop :=
  ∃ fails name res, (0 : UInt8) ∉ name ∧ createFile fails d (some name) = .ok (d', res)

section
variable {d d' : Disk}

theorem zero_notMem_newEntry {id : Int} {name : Bytes} (hname : (0 : UInt8) ∉ name) : (0 : UInt8) ∉ newEntry id name := by
  have hentry := zero_notMem_entry (zero_notMem_digits (id + 1)) hname
  unfold newEntry
  split
  · exact hentry
  · rw [List.mem_cons, not_or]
    exact ⟨by decide, hentry⟩

theorem Creates.zero_notMem (h : Creates d d') (hnul : (0 : UInt8) ∉ d.text filesTxt) : (0 : UInt8) ∉ d'.text filesTxt := by
  obtain ⟨fails, name, res, hname, hrun⟩ := h
  rcases createFile_returns hrun with hsame | ⟨-, -, -, id, -, -, fp, hfp, rfl⟩
  · rwa [(hsame filesTxt).1]
  · have hcontent := Disk.text_of_get ((d.created_get fp name (newEntry id name) filesTxt).trans (if_pos rfl))
    rw [show (if id = 0 then entry (digits (id + 1)) name else 10 :: entry (digits (id + 1)) name) = newEntry id name from rfl,
      hcontent, List.mem_append, not_or]
    refine ⟨?_, zero_notMem_newEntry hname⟩
    split
    · exact List.not_mem_nil
    · rwa [hfp]

/-- No byte of the list ends it, however many documents are created. -/
theorem creates_zero_notMem (hrun : Relation.ReflTransGen Creates d d') (hnul : (0 : UInt8) ∉ d.text filesTxt) :
    (0 : UInt8) ∉ d'.text filesTxt := by
  induction hrun with
  | refl => exact hnul
  | tail _ hstep ih => exact hstep.zero_notMem ih

/-- Appending line by line gives the whole text, as long as it fits. -/
theorem foldlM_strcatLine {ls : List Bytes} (hnul : ∀ l ∈ ls, (0 : UInt8) ∉ l) : ∀ {buf out : Bytes},
    ls.foldlM strcatLine buf = .ok out ↔ out = buf ++ ls.flatten ∧ (ls = [] ∨ out.length + 1 ≤ fileListSize) := by
  induction ls with
  | nil =>
      intro buf out
      rw [List.foldlM_nil, Except.pure_eq_ok, Except.ok.injEq]
      simp [eq_comm]
  | cons l ls ih =>
      intro buf out
      rw [List.forall_mem_cons] at hnul
      rw [List.foldlM_cons, strcatLine, cString_eq_self hnul.1]
      have hlen : out = buf ++ (l :: ls).flatten → out.length = (buf ++ l).length + ls.flatten.length := by
        rintro rfl
        simp [Nat.add_assoc]
      split
      · next hfits =>
          rw [Except.pure_eq_ok, Except.ok_bind_eq, ih hnul.2, List.flatten_cons, List.append_assoc]
          refine and_congr_right fun hout => ?_
          have := hlen hout
          cases ls with
          | nil =>
              rw [List.flatten_nil, List.length_nil, Nat.add_zero] at this
              exact iff_of_true (.inl rfl) (.inr (this ▸ hfits))
          | cons m ls => simp
      · next hfits =>
          refine iff_of_false (fun h => nomatch h) fun ⟨hout, hfits'⟩ => ?_
          have := hlen hout
          rcases hfits' with hnil | hfits'
          · cases hnil
          · omega

theorem zero_notMem_lines {s : Bytes} (hnul : (0 : UInt8) ∉ s) : ∀ l ∈ lines s, (0 : UInt8) ∉ l := by
  intro l hl hmem
  refine hnul ?_
  rw [← lines_flatten s]
  exact List.mem_flatten_of_mem hl hmem

/-- The list is sent as it is, within the memory allocated for it, if the memory is empty and the list is small enough. -/
theorem getFileList_returns_iff (hrun : Relation.ReflTransGen Creates d d') (hnul : (0 : UInt8) ∉ d.text filesTxt) (mem : Bytes) :
    (∃ fp, d'.get filesTxt = some fp ∧ getFileList d' mem = .ok fp.content ∧ fp.content.length + 1 ≤ fileListSize) ↔
      ∃ fp, d'.get filesTxt = some fp ∧ fp.locked = false ∧ cString mem = [] ∧ fp.content.length + 1 ≤ fileListSize := by
  have hnul' := creates_zero_notMem hrun hnul
  refine exists_congr fun fp => and_congr_right fun hget => ?_
  rw [Disk.text_of_get hget] at hnul'
  have hfold := @foldlM_strcatLine _ (zero_notMem_lines hnul') (cString mem) fp.content
  rw [lines_flatten] at hfold
  rw [getFileList, hget]
  cases hlock : fp.locked with
  | true => simp [flock, hlock]
  | false =>
      simp only [flock, hlock, Bool.false_eq_true, if_false, Except.pure_eq_ok, Except.ok_bind_eq, hfold, true_and]
      rw [List.self_eq_append_left, and_assoc]
      exact and_congr_right fun _ => and_iff_right_of_imp .inr

end

/-- Three documents are created in an empty directory. -/
theorem getFileList_returns_abc : ∃ d', Relation.ReflTransGen Creates (.ofTexts [] []) d' ∧
    ∃ fp, d'.get filesTxt = some fp ∧ getFileList d' (List.replicate 1024 0) = .ok fp.content ∧
      fp.content.length + 1 ≤ fileListSize := by
  have htest : returns (createFile noFailure (.ofTexts [] []) (some (bytes "a"))) (fun r =>
      returns (createFile noFailure r.1 (some (bytes "b"))) fun r' => decide (r'.1.get filesTxt =
        some (.closed (bytes "1:a\n2:b")))) = true := by decide +kernel
  obtain ⟨⟨d₁, _⟩, hrun₁, htest⟩ := exists_of_returns htest
  obtain ⟨⟨d₂, _⟩, hrun₂, hfile⟩ := exists_of_returns htest
  have hrun : Relation.ReflTransGen Creates (.ofTexts [] []) d₂ :=
    (Relation.ReflTransGen.single ⟨noFailure, _, _, by decide, hrun₁⟩).tail ⟨noFailure, _, _, by decide, hrun₂⟩
  exact ⟨d₂, hrun, (getFileList_returns_iff hrun (by decide) (List.replicate 1024 0)).mpr
    ⟨_, of_decide_eq_true hfile, rfl, by decide +kernel, by decide +kernel⟩⟩

/-- What is left in the memory comes before the list. -/
theorem getFileList_garbage : ∃ d', Relation.ReflTransGen Creates (.ofTexts [] []) d' ∧
    d'.get filesTxt = some (.closed (bytes "1:a")) ∧
    getFileList d' (120 :: List.replicate 1023 0) = .ok (bytes "x1:a") := by
  have htest : returns (createFile noFailure (.ofTexts [] []) (some (bytes "a"))) (fun r =>
      decide (r.1.get filesTxt = some (.closed (bytes "1:a"))) &&
        returns (getFileList r.1 (120 :: List.replicate 1023 0)) (fun s => s = bytes "x1:a")) = true := by decide +kernel
  obtain ⟨⟨d₁, _⟩, hrun, htest⟩ := exists_of_returns htest
  obtain ⟨hfile, hlist⟩ := Bool.and_eq_true_iff.mp htest
  obtain ⟨s, hs, heq⟩ := exists_of_returns hlist
  obtain rfl := of_decide_eq_true heq
  exact ⟨d₁, .single ⟨noFailure, _, _, by decide, hrun⟩, of_decide_eq_true hfile, hs⟩

end CoEditor
