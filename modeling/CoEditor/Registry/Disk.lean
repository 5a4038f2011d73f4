-- SUMMARY: The files of the server, and the string functions that its registries are read with.
import CoEditor.Buffer.Types
import CoEditor.Lib.Lines
import CoEditor.Parson.Text

/-!
# Files and their fields

The server keeps its accounts and its list of documents in text files, one
entry a line, with the fields of an entry between colons.
-/

namespace CoEditor

open Decimal

/-! ## Files -/

def userdataTxt : Bytes := bytes "userdata.txt"
def filesTxt : Bytes := bytes "files.txt"
def filesTempTxt : Bytes := bytes "files_temp.txt"

/-- A file as the calls leave it. -/
structure Inode where
  content : Bytes
  /-- A stream that was never closed holds the lock on the file. -/
  locked : Bool
  /-- What that stream has yet to write. -/
  pending : Bytes
deriving DecidableEq, Repr

/-- A file with this content and nothing open. -/
def Inode.closed (content : Bytes) : Inode := { content, locked := false, pending := [] }

structure Disk where
  /-- Where a name leads; two names may lead to one file. -/
  canon : Bytes → Bytes
  file : Bytes → Option Inode
  /-- Not in the source: some call has passed `NULL` for the name of a file. -/
  nullPassed : Bool
  apart : ([userdataTxt, filesTxt, filesTempTxt].map canon).Nodup

namespace Disk

def get (d : Disk) (name : Bytes) : Option Inode := d.file (d.canon name)

def set (d : Disk) (name : Bytes) (fp : Option Inode) : Disk :=
  { d with file := fun path => if path = d.canon name then fp else d.file path }

@[simp] theorem set_canon (d : Disk) (name : Bytes) (fp : Option Inode) : (d.set name fp).canon = d.canon := rfl

@[simp] theorem get_set_self (d : Disk) (name : Bytes) (fp : Option Inode) : (d.set name fp).get name = fp := by
  simp [get, set]

theorem get_set (d : Disk) (name name' : Bytes) (fp : Option Inode) :
    (d.set name fp).get name' = if d.canon name' = d.canon name then fp else d.get name' := rfl

theorem get_set_ne (d : Disk) {name name' : Bytes} (h : d.canon name' ≠ d.canon name) (fp : Option Inode) :
    (d.set name fp).get name' = d.get name' := if_neg h

theorem users_ne_files (d : Disk) : d.canon userdataTxt ≠ d.canon filesTxt := by
  have h := d.apart
  simp only [List.map_cons, List.nodup_cons, List.mem_cons, not_or] at h
  exact h.1.1

theorem users_ne_temp (d : Disk) : d.canon userdataTxt ≠ d.canon filesTempTxt := by
  have h := d.apart
  simp only [List.map_cons, List.nodup_cons, List.mem_cons, not_or] at h
  exact h.1.2.1

theorem files_ne_temp (d : Disk) : d.canon filesTxt ≠ d.canon filesTempTxt := by
  have h := d.apart
  simp only [List.map_cons, List.nodup_cons, List.mem_cons, not_or] at h
  exact h.2.1.1

end Disk

/-- A directory with the two registries and nothing else. -/
def Disk.ofTexts (userdata files : Bytes) : Disk where
  canon := id
  file name :=
    if name = userdataTxt then some (.closed userdata) else if name = filesTxt then some (.closed files) else none
  nullPassed := false
  apart := by decide

/-- `flock(fd, LOCK_EX)` -/
def flock (fp : Inode) : Except Fault Unit := if fp.locked then .error .blocked else pure ()

@[simp] theorem flock_closed (s : Bytes) : flock (.closed s) = .ok () := rfl

/-! ## Strings -/

/-- Read a string that may be `NULL`. -/
def derefStr : Option Bytes → Except Fault Bytes
  | some s => pure s
  | none => .error .nullStr

/-- `strcmp(a, b) == 0` -/
def strEq (a b : Option Bytes) : Except Fault Bool := do
  let a ← derefStr a
  let b ← derefStr b
  pure (a = b)

/-- Are both pairs of strings equal? -/
def isEquivalentStrings (a1 a2 b1 b2 : Option Bytes) : Except Fault Bool := do
  if ← strEq a1 a2 then strEq b1 b2 else pure false

/-- Replace `\n` by `NUL`. -/
def terminateNull (s : Bytes) : Bytes := s.takeWhile (· ≠ 10)

/-- `strtok(s, ":")`: the next token and what the following call goes on with. -/
def strtok (s : Bytes) : Option (Bytes × Bytes) :=
  match s.dropWhile (· = ch ':') with
  | [] => none
  | c :: s => some ((c :: s).takeWhile (· ≠ ch ':'), ((c :: s).dropWhile (· ≠ ch ':')).drop 1)

/-- The first two tokens of a line. -/
def fields (line : Bytes) : Option Bytes × Option Bytes :=
  match strtok (cString line) with
  | none => (none, none)
  | some (t, rest) => (some t, (strtok rest).map Prod.fst)

/-- `atoi`; ids are taken to fit an `int`. -/
def atoi (s : Bytes) : Int :=
  let (neg, t) := splitSign (s.dropWhile isSpace)
  let n : Nat := ofDigits (t.takeWhile isDigit)
  if neg then -n else n

/-! ## Lines with two fields -/

/-- `first:second` -/
def entry (first second : Bytes) : Bytes := first ++ ch ':' :: second

/-- What a field can hold. -/
def IsField (s : Bytes) : Prop := s ≠ [] ∧ ch ':' ∉ s ∧ 10 ∉ s ∧ 0 ∉ s

instance (s : Bytes) : Decidable (IsField s) := inferInstanceAs (Decidable (_ ∧ _))

/-- A word: no whitespace and no colon. -/
def IsWord (s : Bytes) : Prop := s ≠ [] ∧ ∀ c ∈ s, c ≠ 0 ∧ isSpace c = false ∧ c ≠ ch ':'

instance (s : Bytes) : Decidable (IsWord s) := inferInstanceAs (Decidable (_ ∧ _))

theorem IsWord.isField {s : Bytes} (h : IsWord s) : IsField s :=
  ⟨h.1, fun hc => (h.2 _ hc).2.2 rfl, fun hc => absurd (h.2 _ hc).2.1 (by decide), fun hc => (h.2 _ hc).1 rfl⟩

/-- What can be typed for a name: no whitespace, but colons. -/
def IsTyped (s : Bytes) : Prop := s ≠ [] ∧ ∀ c ∈ s, c ≠ 0 ∧ isSpace c = false

instance (s : Bytes) : Decidable (IsTyped s) := @instDecidableAnd _ _ _ (List.decidableBAll _ s)

theorem IsTyped.notMem {s : Bytes} (h : IsTyped s) : (10 : UInt8) ∉ s ∧ (0 : UInt8) ∉ s :=
  ⟨fun hc => absurd (h.2 _ hc).2 (by decide), fun hc => (h.2 _ hc).1 rfl⟩

theorem IsTyped.isField {s : Bytes} (h : IsTyped s) (hcolon : ch ':' ∉ s) : IsField s :=
  ⟨h.1, hcolon, h.notMem.1, h.notMem.2⟩

theorem newline_notMem_entry {s t : Bytes} (hs : (10 : UInt8) ∉ s) (ht : (10 : UInt8) ∉ t) : (10 : UInt8) ∉ entry s t := by
  have hcolon : (10 : UInt8) ≠ ch ':' := by decide
  simp [entry, hs, ht, hcolon]

theorem entry_ne_nil (s t : Bytes) : entry s t ≠ [] := by simp [entry]

theorem decide_ne_of_notMem {c : UInt8} {s : Bytes} (h : c ∉ s) : ∀ x ∈ s, decide (x ≠ c) = true := by
  intro x hx
  rw [decide_eq_true_eq]
  rintro rfl
  exact h hx

theorem strtok_token {s : Bytes} (hne : s ≠ []) (hs : ch ':' ∉ s) (rest : Bytes) :
    strtok (s ++ ch ':' :: rest) = some (s, rest) := by
  obtain ⟨c, t, rfl⟩ := List.exists_cons_of_ne_nil hne
  have hc : c ≠ ch ':' := fun h => hs (h ▸ List.mem_cons_self ..)
  have hall := decide_ne_of_notMem hs
  rw [strtok, List.cons_append, List.dropWhile_cons_of_neg (by simpa using hc)]
  simp only [← List.cons_append]
  rw [List.takeWhile_append_of_pos hall, List.dropWhile_append_of_pos hall]
  simp

/-- A token has no colon in it. -/
theorem strtok_notMem {s t rest : Bytes} (h : strtok s = some (t, rest)) : ch ':' ∉ t := by
  unfold strtok at h
  split at h
  · cases h
  · next c u hu =>
      obtain ⟨rfl, -⟩ := Prod.mk.inj (Option.some.inj h)
      intro hmem
      have := List.mem_takeWhile_imp hmem
      simp at this

theorem strtok_last {s : Bytes} (hne : s ≠ []) (hs : ch ':' ∉ s) : strtok s = some (s, []) := by
  obtain ⟨c, t, rfl⟩ := List.exists_cons_of_ne_nil hne
  have hc : c ≠ ch ':' := fun h => hs (h ▸ List.mem_cons_self ..)
  have hall := decide_ne_of_notMem hs
  rw [strtok, List.dropWhile_cons_of_neg (by simpa using hc)]
  simp only
  rw [List.takeWhile_eq_self_iff.mpr hall, List.dropWhile_eq_nil_iff.mpr hall]
  rfl

theorem entry_append (s t u : Bytes) : entry s t ++ u = entry s (t ++ u) := by
  rw [entry, entry, List.append_assoc, List.cons_append]

theorem zero_notMem_entry {s t : Bytes} (hs : (0 : UInt8) ∉ s) (ht : (0 : UInt8) ∉ t) : (0 : UInt8) ∉ entry s t := by
  have hcolon : (0 : UInt8) ≠ ch ':' := by decide
  simp [entry, hs, ht, hcolon]

theorem fields_strtok {s t : Bytes} (hs : IsField s) (hnul : (0 : UInt8) ∉ t) :
    fields (entry s t) = (some s, (strtok t).map Prod.fst) := by
  rw [fields, cString_eq_self (zero_notMem_entry hs.2.2.2 hnul), entry, strtok_token hs.1 hs.2.1]

theorem fields_eq {s t : Bytes} (hs : IsField s) (hne : t ≠ []) (ht : ch ':' ∉ t) (hnul : (0 : UInt8) ∉ t) :
    fields (entry s t) = (some s, some t) := by
  rw [fields_strtok hs hnul, strtok_last hne ht]
  rfl

/-- The newline of a line is part of its second field. -/
theorem fields_eq_newline {s t : Bytes} (hs : IsField s) (ht : ch ':' ∉ t) (hnul : (0 : UInt8) ∉ t) :
    fields (entry s t ++ [10]) = (some s, some (t ++ [10])) := by
  have hcolon : ch ':' ∉ t ++ [10] := by
    have hnl : ch ':' ≠ 10 := by decide
    simp [ht, hnl]
  rw [entry_append]
  exact fields_eq hs (by simp) hcolon (by simp [hnul])

/-- The fields of an entry, with or without its newline. -/
theorem fields_entry {s t l : Bytes} (hs : IsField s) (ht : IsField t) (hl : l = entry s t ∨ l = entry s t ++ [10]) :
    ∃ u, fields l = (some s, some u) ∧ terminateNull u = t := by
  obtain ⟨hne, hcolon, hnl, hnul⟩ := ht
  have hall := decide_ne_of_notMem hnl
  rcases hl with rfl | rfl
  · exact ⟨t, fields_eq hs hne hcolon hnul, List.takeWhile_eq_self_iff.mpr hall⟩
  · refine ⟨t ++ [10], fields_eq_newline hs hcolon hnul, ?_⟩
    rw [terminateNull, List.takeWhile_append_of_pos hall]
    simp

/-- Both lines have the same two fields, up to the newline. -/
def SameRecord (l l' : Bytes) : Prop :=
  (fields l).1 = (fields l').1 ∧ (fields l).2.map terminateNull = (fields l').2.map terminateNull

/-- What reads the second field of a line only up to the newline does the same on both. -/
theorem SameRecord.bind_eq {l l' : Bytes} (h : SameRecord l l') (f : Bytes → Except Fault α) :
    (derefStr (fields l).2 >>= fun u => f (terminateNull u)) = derefStr (fields l').2 >>= fun u => f (terminateNull u) := by
  have hsnd := h.2
  cases hu : (fields l).2 with
  | none =>
      rw [hu] at hsnd
      rw [Option.map_eq_none_iff.mp hsnd.symm]
  | some u =>
      rw [hu] at hsnd
      obtain ⟨u', hu', hcut⟩ := Option.map_eq_some_iff.mp hsnd.symm
      rw [hu']
      exact congrArg f hcut.symm

/-- A line without characters has no second field. -/
theorem fields_blank : fields [10] = (some [10], none) := by decide

end CoEditor
