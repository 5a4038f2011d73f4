-- SUMMARY: The list of documents in files.txt: createFile, deleteFile, getFileName, getFileList.
import CoEditor.Parson.RoundTrip
import CoEditor.Registry.Disk

/-!
# The list of documents

Every line of `files.txt` is a document, `id:name`, and the document is the
file of that name. A new document gets the id after the one on the last line.
-/

namespace CoEditor

open Decimal

/-- The system calls of the list that can fail. -/
inductive SysCall where
  | fopenFiles | fopenTemp | creat | rename | removeTemp | removeFile
deriving DecidableEq, Repr

namespace Disk

/-- `creat`: a file that is there is emptied. -/
def creat (d : Disk) (name : Bytes) : Disk :=
  d.set name (some { (d.get name).getD (.closed []) with content := [] })

/-- Write out what was printed to a file opened for appending, and close it. -/
def append (d : Disk) (name text : Bytes) : Disk :=
  d.set name ((d.get name).map fun fp => { fp with content := fp.content ++ text })

/-- `rename`: the file gives up its old name. -/
def rename (d : Disk) (old new : Bytes) : Disk := (d.set new (d.get old)).set old none

end Disk

/-! ## Creating a document -/

/-- The loop of `createFile`: is the name on the list, and what is the id on the line read last? -/
def findFile (filename : Option Bytes) (fileId : Int) : List Bytes → Except Fault (Bool × Int)
  | [] => pure (false, fileId)
  | line :: lines => do
      let id := atoi (← derefStr (fields line).1)
      if ← isEquivalentStrings (fields line).2 filename (some []) (some []) then pure (true, id)
      else findFile filename id lines

/-- Create a file and write its name to `files.txt`. Returns its id. -/
def createFile (fails : SysCall → Bool) (d : Disk) (filename : Option Bytes) : Except Fault (Disk × Int) :=
  if fails .fopenFiles then pure (d, -2)
  else do
    -- the list is created if it does not exist
    let fp := (d.get filesTxt).getD (.closed [])
    let d := d.set filesTxt (some fp)
    flock fp
    let (val, fileId) ← findFile filename 0 (lines fp.content)
    if val then pure (d, -1)
    else do
      let name ← derefStr filename
      let line := entry (digits (fileId + 1)) name
      let text := if fileId = 0 then line else 10 :: line
      -- the list stays open, and locked
      if fails .creat then pure (d.set filesTxt (some { fp with locked := true, pending := text }), -3)
      else pure ((d.creat name).append filesTxt text, fileId + 1)

/-! ## Looking a document up -/

/-- The loop of `getFileName`. -/
def findFileName (fileId : Int) : List Bytes → Except Fault (Option Bytes)
  | [] => pure none
  | line :: lines => do
      let id := atoi (← derefStr (fields line).1)
      if id = fileId then do
        let fn ← derefStr (fields line).2
        pure (some (terminateNull fn))
      else findFileName fileId lines

/-- The name of a document; a list that cannot be opened is read all the same. -/
def getFileName (d : Disk) (fileId : Int) : Except Fault (Option Bytes) :=
  match d.get filesTxt with
  | none => .error .nullDeref
  | some fp => do
      flock fp
      findFileName fileId (lines fp.content)

/-- Bytes allocated for the list of documents. -/
abbrev fileListSize : Nat := 1024

/-- Append a line to the string in memory of `fileListSize` bytes. -/
def strcatLine (buf line : Bytes) : Except Fault Bytes :=
  if (buf ++ cString line).length + 1 ≤ fileListSize then pure (buf ++ cString line) else .error .overflow

/-- The list of documents. The lines are appended to whatever string is found in the memory `mem` that was
    allocated. -/
def getFileList (d : Disk) (mem : Bytes) : Except Fault Bytes :=
  match d.get filesTxt with
  | none => .error .nullDeref
  | some fp => do
      flock fp
      (lines fp.content).foldlM strcatLine (cString mem)

/-! ## Deleting a document -/

/-- The loop of `deleteFile` that writes back all lines but those of a document; `count` lines of
    `linesNumber` are done. -/
def writeBack (fileId : Int) (linesNumber : Nat) : Nat → List Bytes → Except Fault Bytes
  | _, [] => pure []
  | count, line :: lines => do
      let id := atoi (← derefStr (fields line).1)
      let rest ← writeBack fileId linesNumber (count + 1) lines
      if id ≠ fileId then
        if count + 1 ≠ linesNumber then pure (cString line ++ rest)
        else pure (terminateNull (cString line) ++ rest)
      else pure rest

/-- Remove the temporary list and the document, and report whether one of them stayed. -/
def removeFiles (fails : SysCall → Bool) (d : Disk) (filename : Option Bytes) : Disk × Int :=
  let (d, err) := if fails .removeTemp then (d, -1) else (d.set filesTempTxt none, 0)
  match filename with
  | none => ({ d with nullPassed := true }, -1)
  | some name => if fails .removeFile ∨ d.get name = none then (d, -1) else (d.set name none, err)

/-- Delete a file and its name from `files.txt`. -/
def deleteFile (fails : SysCall → Bool) (d : Disk) (fileId : Int) : Except Fault (Disk × Int) := do
  let filename ← getFileName d fileId
  let d := if fails .rename then d else d.rename filesTxt filesTempTxt
  match if fails .fopenTemp then none else d.get filesTempTxt with
  | none => pure (d, -3)
  | some temp => do
      flock temp
      if fails .fopenFiles then pure (d.set filesTempTxt (some { temp with locked := true }), -2)
      else do
        -- the new list is empty at first
        let fp := (d.get filesTxt).getD (.closed [])
        flock fp
        let text ← writeBack fileId (lines temp.content).length 0 (lines temp.content)
        pure (removeFiles fails (d.set filesTxt (some { fp with content := text })) filename)

/-! ## Lists of documents -/

/-- The id and the name of a document. -/
abbrev FileEntry := Int × Bytes

/-- The line of a document. -/
def FileEntry.line (e : FileEntry) : Bytes := entry (digits e.1) e.2

/-- Text `s` lists the documents `es`, one a line. -/
structure FileList (es : List FileEntry) (s : Bytes) : Prop where
  spells : Spells (es.map FileEntry.line) s
  id_pos : ∀ e ∈ es, 0 < e.1
  name : ∀ e ∈ es, IsField e.2

theorem isField_digits (n : Int) : IsField (digits n) := by
  have hmem : ∀ c ∈ digits n, c = ch '-' ∨ isDigit c = true := by
    intro c hc
    rw [digits] at hc
    split at hc
    · exact (List.mem_cons.mp hc).imp id isDigit_of_mem
    · exact .inr (isDigit_of_mem hc)
  refine ⟨?_, fun hc => ?_, fun hc => ?_, zero_notMem_digits n⟩
  · obtain ⟨c, t, h, -⟩ := digits_head n
    rw [h]
    exact List.cons_ne_nil c t
  · exact absurd (hmem _ hc) (by decide)
  · exact absurd (hmem _ hc) (by decide)

@[simp] theorem atoi_digits (n : Int) : atoi (digits n) = n := by
  have hspace : (digits n).dropWhile isSpace = digits n := by
    obtain ⟨c, t, h, hc⟩ := digits_head n
    rw [h, List.dropWhile_cons_of_neg (by simp [(number_head hc).1])]
  have hsign := splitSign_digits n []
  rw [List.append_nil, List.append_nil] at hsign
  have hall : (natDigits n.natAbs).takeWhile isDigit = natDigits n.natAbs :=
    List.takeWhile_eq_self_iff.mpr fun _ => isDigit_of_mem
  rw [atoi, hspace, hsign]
  simp only [hall, ofDigits_natDigits, decide_eq_true_eq]
  split <;> omega

theorem newline_notMem_line {e : FileEntry} (he : IsField e.2) : (10 : UInt8) ∉ e.line :=
  newline_notMem_entry (isField_digits e.1).2.2.1 he.2.2.1

theorem zero_notMem_line {e : FileEntry} (he : IsField e.2) : (0 : UInt8) ∉ e.line :=
  zero_notMem_entry (isField_digits e.1).2.2.2 he.2.2.2

/-- A line of the list is read as the id and the name of its document. -/
theorem fields_line {e : FileEntry} {l : Bytes} (he : IsField e.2) (hl : l = e.line ∨ l = e.line ++ [10]) :
    ∃ fn, fields l = (some (digits e.1), some fn) ∧ terminateNull fn = e.2 :=
  fields_entry (isField_digits e.1) he hl

/-- Reading the list of documents, `findFile` comes to the end with the last id or stops at the name. -/
theorem findFile_eq {es : List FileEntry} {ls : List Bytes}
    (h : List.Forall₂ (fun e l => l = FileEntry.line e ∨ l = FileEntry.line e ++ [10]) es ls)
    (hname : ∀ e ∈ es, IsField e.2) (name : Bytes) :
    ∀ id, ∃ val n, findFile (some name) id ls = .ok (val, n) ∧
      (val = false → n = (es.getLast?.map Prod.fst).getD id) := by
  induction h with
  | nil => exact fun id => ⟨false, id, rfl, fun _ => rfl⟩
  | @cons e l es ls hl _ ih =>
      intro id
      obtain ⟨fn, hfields, -⟩ := fields_line (hname e (by simp)) hl
      have hread : findFile (some name) id (l :: ls) =
          if fn = name then .ok (true, e.1) else findFile (some name) e.1 ls := by
        rw [findFile]
        simp only [hfields, derefStr, Except.pure_eq_ok, Except.ok_bind_eq, atoi_digits, isEquivalentStrings, strEq]
        by_cases hfn : fn = name <;> simp [hfn]
      by_cases hfn : fn = name
      · exact ⟨true, e.1, by rw [hread, if_pos hfn], fun h => nomatch h⟩
      · obtain ⟨val, n, hrun, hn⟩ := ih (fun e he => hname e (by simp [he])) e.1
        refine ⟨val, n, by rw [hread, if_neg hfn, hrun], fun hval => ?_⟩
        rw [hn hval]
        cases es with
        | nil => rfl
        | cons e' es => simp [List.getLast?_cons_cons]; rfl

/-- What is written back of a list of documents is the list without the document deleted. -/
theorem writeBack_eq {es : List FileEntry} {ls : List Bytes}
    (h : List.Forall₂ (fun e l => l = FileEntry.line e ∨ l = FileEntry.line e ++ [10]) es ls)
    (hname : ∀ e ∈ es, IsField e.2) (id : Int) (hended : ∀ l ∈ ls.dropLast, Ended l) :
    ∀ k n, k + ls.length = n → ∃ text, writeBack id n k ls = .ok text ∧
      Spells ((es.filter (·.1 ≠ id)).map FileEntry.line) text := by
  induction h with
  | nil => exact fun k n _ => ⟨[], rfl, Spells.nil⟩
  | @cons e l es ls hl hrest ih =>
      intro k n hn
      rw [List.length_cons] at hn
      have he : IsField e.2 := hname e (by simp)
      have hnl : (10 : UInt8) ∉ e.line := newline_notMem_line he
      obtain ⟨fn, hfields, -⟩ := fields_line he hl
      have hended' : ∀ m ∈ ls.dropLast, Ended m := by
        intro m hm
        refine hended m ?_
        rw [List.dropLast_cons_of_ne_nil (List.ne_nil_of_mem (List.dropLast_subset _ hm))]
        exact List.mem_cons_of_mem _ hm
      obtain ⟨text, hrun, hspells⟩ := ih (fun e he => hname e (by simp [he])) hended' (k + 1) n (by omega)
      rw [writeBack]
      simp only [hfields, derefStr, Except.pure_eq_ok, Except.ok_bind_eq, atoi_digits, hrun]
      by_cases hid : e.1 = id
      · exact ⟨text, by simp [hid], by simpa [hid] using hspells⟩
      · have hline : cString l = l := by
          refine cString_eq_self ?_
          rcases hl with rfl | rfl
          · exact zero_notMem_line he
          · simp [zero_notMem_line he]
        rw [if_pos hid, hline, List.filter_cons_of_pos (by simpa using hid), List.map_cons]
        by_cases hlast : ls = []
        · -- the physically last line loses its newline
          subst hlast
          have hcut : terminateNull l = e.line := by
            have hall := decide_ne_of_notMem hnl
            rcases hl with rfl | rfl
            · exact List.takeWhile_eq_self_iff.mpr hall
            · rw [terminateNull, List.takeWhile_append_of_pos hall]
              simp
          cases hrun
          rw [if_neg (by simp at hn; omega)]
          refine ⟨_, rfl, ?_⟩
          rw [hcut, List.forall₂_nil_right_iff.mp hrest, List.append_nil]
          exact Spells.single hnl (entry_ne_nil _ _)
        · have hl' : l = e.line ++ [10] := by
            refine hl.resolve_left ?_
            rintro rfl
            have hlast' : Ended e.line := hended _ (by rw [List.dropLast_cons_of_ne_nil hlast]; exact List.mem_cons_self ..)
            exact hnl (List.mem_of_getLast? hlast')
          have hlen : ls.length ≠ 0 := fun h => hlast (List.length_eq_zero_iff.mp h)
          rw [if_pos (by omega)]
          exact ⟨_, rfl, hl' ▸ hspells.cons hnl⟩

/-! ## What the calls do to the list -/

/-- No system call fails. -/
def noFailure : SysCall → Bool := fun _ => false

theorem FileList.forall₂ {es : List FileEntry} {s : Bytes} (h : FileList es s) :
    List.Forall₂ (fun e l => l = FileEntry.line e ∨ l = FileEntry.line e ++ [10]) es (lines s) := by
  have hs := h.spells
  rwa [Spells, List.forall₂_map_left_iff] at hs

theorem FileList.nil_iff {es : List FileEntry} {s : Bytes} (h : FileList es s) : es = [] ↔ s = [] := by
  rw [← h.spells.eq_nil_iff, List.map_eq_nil_iff]

/-- The name under an id is that on the first line with this id. -/
theorem findFileName_eq {es : List FileEntry} {ls : List Bytes}
    (h : List.Forall₂ (fun e l => l = FileEntry.line e ∨ l = FileEntry.line e ++ [10]) es ls)
    (hname : ∀ e ∈ es, IsField e.2) (id : Int) :
    findFileName id ls = .ok ((es.find? (·.1 = id)).map Prod.snd) := by
  induction h with
  | nil => rfl
  | @cons e l es ls hl _ ih =>
      obtain ⟨fn, hfields, hfn⟩ := fields_line (hname e (by simp)) hl
      rw [findFileName]
      simp only [hfields, derefStr, Except.pure_eq_ok, Except.ok_bind_eq, atoi_digits, hfn]
      by_cases hid : e.1 = id
      · simp [hid]
      · simp [hid, ih fun e he => hname e (by simp [he])]

section
variable {d d' : Disk} {s : Bytes} {es : List FileEntry}

theorem FileList.getFileName (h : FileList es s) (hfile : d.get filesTxt = some (.closed s)) (id : Int) :
    getFileName d id = .ok ((es.find? (·.1 = id)).map Prod.snd) := by
  simp only [CoEditor.getFileName, hfile, flock_closed, Except.ok_bind_eq]
  exact findFileName_eq h.forall₂ h.name id

/-- A document that was created stands on a new last line. -/
theorem FileList.createFile (h : FileList es s) (hfile : d.get filesTxt = some (.closed s)) {name : Bytes} {id : Int}
    (hrun : CoEditor.createFile noFailure d (some name) = .ok (d', id)) (hid : 0 < id) :
    d'.canon = d.canon ∧ d'.get filesTxt = some (.closed ((if d.canon name = d.canon filesTxt then [] else s) ++
      if s = [] then entry (digits id) name else 10 :: entry (digits id) name)) := by
  obtain ⟨val, n, hfind, hn⟩ := findFile_eq h.forall₂ h.name name 0
  have hlines : lines (Inode.closed s).content = lines s := rfl
  simp only [CoEditor.createFile, noFailure, Bool.false_eq_true, if_false, hfile, Option.getD_some, flock_closed,
    Except.ok_bind_eq, hlines, hfind] at hrun
  cases val with
  | true =>
      obtain ⟨rfl, rfl⟩ := Prod.mk.inj (Except.ok.inj hrun)
      exact absurd hid (by decide)
  | false =>
      simp only [Bool.false_eq_true, if_false, derefStr, Except.pure_eq_ok, Except.ok_bind_eq] at hrun
      obtain ⟨rfl, rfl⟩ := Prod.mk.inj (Except.ok.inj hrun)
      have hzero : n = 0 ↔ s = [] := by
        rw [← h.nil_iff, hn rfl]
        cases hlast : es.getLast? with
        | none => simp [List.getLast?_eq_none_iff.mp hlast]
        | some e =>
            have hmem := List.mem_of_getLast? hlast
            have hpos := h.id_pos e hmem
            simp only [Option.map_some, Option.getD_some]
            exact ⟨fun h0 => absurd h0 (by omega), fun hnil => by rw [hnil] at hmem; cases hmem⟩
      refine ⟨rfl, ?_⟩
      rw [Disk.append, Disk.get_set_self, Disk.creat]
      by_cases hcanon : d.canon name = d.canon filesTxt
      · simp [Disk.get, hcanon, hzero, Inode.closed, Disk.set]
      · simp [Disk.get_set, Ne.symm hcanon, hcanon, hzero, Inode.closed]

/-- Deleting a document takes its lines out of the list. -/
theorem FileList.deleteFile (h : FileList es s) (hfile : d.get filesTxt = some (.closed s)) {id : Int}
    (hkeep : ∀ name, CoEditor.getFileName d id = .ok (some name) → d.canon name ≠ d.canon filesTxt)
    (hrun : CoEditor.deleteFile noFailure d id = .ok (d', 0)) :
    d'.canon = d.canon ∧ ∃ s', d'.get filesTxt = some (.closed s') ∧ FileList (es.filter (·.1 ≠ id)) s' := by
  obtain ⟨text, hwrite, hspells⟩ := writeBack_eq h.forall₂ h.name id lines_ended 0 (lines s).length (Nat.zero_add _)
  have hne := d.files_ne_temp
  have hlines : lines (Inode.closed s).content = lines s := rfl
  have htemp : (d.rename filesTxt filesTempTxt).get filesTempTxt = some (.closed s) := by
    rw [Disk.rename, Disk.get_set_ne _ (by simpa using hne.symm), Disk.get_set_self, hfile]
  have hnew : (d.rename filesTxt filesTempTxt).get filesTxt = none := by rw [Disk.rename, Disk.get_set_self]
  simp only [CoEditor.deleteFile, noFailure, Bool.false_eq_true, if_false, htemp, flock_closed, hnew, Option.getD_none,
    Except.ok_bind_eq, hlines, hwrite, Except.pure_eq_ok, removeFiles, false_or] at hrun
  obtain ⟨filename, hname, hrun⟩ := Except.bind_eq_ok.mp hrun
  cases filename with
  | none => cases hrun
  | some name =>
      dsimp only at hrun
      split at hrun
      · cases hrun
      · obtain ⟨rfl, -⟩ := Prod.mk.inj (Except.ok.inj hrun)
        refine ⟨rfl, text, ?_, hspells, fun e he => h.id_pos e (List.mem_of_mem_filter he),
          fun e he => h.name e (List.mem_of_mem_filter he)⟩
        have hcanon : (d.rename filesTxt filesTempTxt).canon = d.canon := rfl
        rw [Disk.get_set_ne _ (by simpa [hcanon] using (hkeep name hname).symm),
          Disk.get_set_ne _ (by simpa [hcanon] using hne), Disk.get_set_self]
        rfl

/-- Every scan of a list finds both fields on every line. -/
theorem FileList.fields (h : FileList es s) : ∀ l ∈ lines s, (CoEditor.fields l).1.isSome ∧ (CoEditor.fields l).2.isSome := by
  intro l hl
  obtain ⟨e, he, hel⟩ := exists_left_of_mem h.forall₂ hl
  obtain ⟨fn, hfields, -⟩ := fields_line (h.name e he) hel
  rw [hfields]
  exact ⟨rfl, rfl⟩

end

/-! ## Histories of the list -/

/-- A call that changes the list. -/
inductive FileOp where
  | create (name : Bytes)
  | delete (id : Int)
deriving DecidableEq, Repr

namespace FileOp

/-- Make the call; all system calls succeed. -/
def run (d : Disk) : FileOp → Except Fault (Disk × Int)
  | create name => createFile noFailure d (some name)
  | delete id => deleteFile noFailure d id

/-- The result reports success. -/
def Succeeds (res : Int) : FileOp → Prop
  | create _ => 0 < res
  | delete _ => res = 0

/-- A document gets a name without whitespace and colon. -/
def Legal : FileOp → Prop
  | create name => IsWord name
  | delete _ => True

/-- A document is put on a list that is empty or not ended, and `files.txt` is not made or deleted as a
    document itself. -/
def Tidy (d : Disk) : FileOp → Prop
  | create name => ∀ fp, d.get filesTxt = some fp →
      fp.content = [] ∨ ¬ Ended fp.content ∧ d.canon name ≠ d.canon filesTxt
  | delete id => ∀ name, getFileName d id = .ok (some name) → d.canon name ≠ d.canon filesTxt

end FileOp

/-- Successful calls that each meet `ok` lead from one disk to the other. -/
inductive FileRun (ok : Disk → FileOp → Prop) (d : Disk) : Disk → Prop where
  | start : FileRun ok d d
  | step {d₁ d₂ : Disk} {op : FileOp} {res : Int} : FileRun ok d d₁ → op.Legal → ok d₁ op → op.run d₁ = .ok (d₂, res) →
      op.Succeeds res → FileRun ok d d₂

/-- A tidy call leaves a list of documents. -/
theorem FileList.step {d d' : Disk} {s : Bytes} {es : List FileEntry} (h : FileList es s)
    (hfile : d.get filesTxt = some (.closed s)) {op : FileOp} {res : Int} (hlegal : op.Legal) (htidy : op.Tidy d)
    (hrun : op.run d = .ok (d', res)) (hres : op.Succeeds res) :
    ∃ es' s', d'.get filesTxt = some (.closed s') ∧ FileList es' s' := by
  cases op with
  | create name =>
      obtain ⟨-, hfile'⟩ := h.createFile hfile hrun hres
      have hended : ¬ Ended s := by
        rcases htidy _ hfile with hnil | ⟨hended, -⟩
        · obtain rfl : s = [] := hnil
          decide
        · exact hended
      have hcontent : ((if d.canon name = d.canon filesTxt then [] else s) ++
          if s = [] then entry (digits res) name else 10 :: entry (digits res) name) =
            if s = [] then entry (digits res) name else s ++ 10 :: entry (digits res) name := by
        rcases htidy _ hfile with hnil | ⟨-, hcanon⟩
        · obtain rfl : s = [] := hnil
          simp
        · rw [if_neg hcanon]
          split
          · next hnil => rw [hnil, List.nil_append]
          · rfl
      have hname : IsField name := IsWord.isField hlegal
      refine ⟨es ++ [(res, name)], _, hcontent ▸ hfile', ?_, fun e he => ?_, fun e he => ?_⟩
      · rw [List.map_append]
        exact h.spells.append hended (newline_notMem_line hname) (entry_ne_nil _ _)
      · rcases List.mem_append.mp he with he | he
        · exact h.id_pos e he
        · obtain rfl := List.mem_singleton.mp he
          exact hres
      · rcases List.mem_append.mp he with he | he
        · exact h.name e he
        · obtain rfl := List.mem_singleton.mp he
          exact hname
  | delete id =>
      obtain rfl : res = 0 := hres
      obtain ⟨-, s', hfile', hlist⟩ := h.deleteFile hfile htidy hrun
      exact ⟨_, s', hfile', hlist⟩

/-- As long as every call is tidy, `files.txt` is a list of documents that every scan can read. -/
theorem files_parseable {d d' : Disk} {s : Bytes} {es : List FileEntry} (hfile : d.get filesTxt = some (.closed s))
    (hlist : FileList es s) (hrun : FileRun FileOp.Tidy d d') :
    ∃ es' s', d'.get filesTxt = some (.closed s') ∧ FileList es' s' ∧
      ∀ l ∈ lines s', (fields l).1.isSome ∧ (fields l).2.isSome := by
  have hinv : ∃ es' s', d'.get filesTxt = some (.closed s') ∧ FileList es' s' := by
    induction hrun with
    | start => exact ⟨es, s, hfile, hlist⟩
    | step _ hlegal htidy hstep hres ih =>
        obtain ⟨es', s', hfile', hlist'⟩ := ih
        exact hlist'.step hfile' hlegal htidy hstep hres
  obtain ⟨es', s', hfile', hlist'⟩ := hinv
  exact ⟨es', s', hfile', hlist', hlist'.fields⟩

theorem files_parseable_ab : ∃ d', FileRun FileOp.Tidy (.ofTexts [] (bytes "1:a")) d' ∧
    ∃ es' s', d'.get filesTxt = some (.closed s') ∧ FileList es' s' ∧
      ∀ l ∈ lines s', (fields l).1.isSome ∧ (fields l).2.isSome := by
  have htest : returns ((FileOp.create (bytes "b")).run (.ofTexts [] (bytes "1:a"))) (fun r => decide (0 < r.2)) = true := by
    decide +kernel
  obtain ⟨⟨d', id⟩, hrun, hid⟩ := exists_of_returns htest
  have htidy : (FileOp.create (bytes "b")).Tidy (.ofTexts [] (bytes "1:a")) := by
    intro fp hfp
    obtain rfl : Inode.closed (bytes "1:a") = fp := Option.some.inj hfp
    decide
  have hlegal : (FileOp.create (bytes "b")).Legal := by
    show IsWord (bytes "b")
    decide +kernel
  have hres : 0 < id := of_decide_eq_true hid
  have hstep : FileRun FileOp.Tidy (.ofTexts [] (bytes "1:a")) d' := .step .start hlegal htidy hrun hres
  have hlist : FileList [(1, bytes "a")] (bytes "1:a") := ⟨by decide, by decide, by decide⟩
  exact ⟨d', hstep, files_parseable rfl hlist hstep⟩

/-- The `files.txt` of the repository, which ends in a newline. -/
def shippedFiles : Bytes := bytes "1:testfile1\n2:testfile2\n3:testfile3\n"

/-- A document created there is put after a blank line, and the next `createFile` crashes on it. -/
theorem files_blank_line :
    FileList [(1, bytes "testfile1"), (2, bytes "testfile2"), (3, bytes "testfile3")] shippedFiles ∧
    IsWord (bytes "notes") ∧
    ∃ d' s', (FileOp.create (bytes "notes")).run (.ofTexts [] shippedFiles) = .ok (d', 4) ∧
      d'.get filesTxt = some (.closed s') ∧ (∀ es, ¬ FileList es s') ∧
      createFile noFailure d' (some (bytes "more")) = .error .nullStr := by
  have htest : returns ((FileOp.create (bytes "notes")).run (.ofTexts [] shippedFiles)) (fun r => decide (r.2 = 4 ∧
      r.1.get filesTxt = some (.closed (shippedFiles ++ bytes "\n4:notes")) ∧
      stops (createFile noFailure r.1 (some (bytes "more"))) .nullStr)) = true := by decide +kernel
  obtain ⟨⟨d', id⟩, hrun, hd'⟩ := exists_of_returns htest
  obtain ⟨rfl, hfile, hnext⟩ := of_decide_eq_true hd'
  refine ⟨⟨by decide, by decide, by decide⟩, by decide +kernel, d', _, hrun, hfile, fun es hes => ?_, eq_error_of_stops hnext⟩
  exact absurd (hes.fields [10] (by decide +kernel)).2 (by decide)

end CoEditor
