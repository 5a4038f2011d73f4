-- SUMMARY: Adding documents to users in userdata.txt: addFileToUser, and what it leaves of the logins.
import Mathlib.Logic.Relation
import CoEditor.Registry.Files
import CoEditor.Registry.Users

/-!
# Documents of users

The documents of a user are further fields on the line of its account,
`name:pass:id:id`. `addFileToUser` copies all lines and adds a field to one of
them; reading an account stops after the second field.
-/

namespace CoEditor

open Decimal

def userdataTempTxt : Bytes := bytes "userdata_temp.txt"

/-- The system calls of `addFileToUser` that can fail. -/
inductive ShareCall where
  | rename | fopenTemp | fopenUsers | removeTemp
deriving DecidableEq, Repr

/-- The loop of `addFileToUser`: `i` is the number of the line, and `out` is written so far. -/
def addField (fileId userId : Int) : Int → Bytes → List Bytes → Bytes
  | _, out, [] => out
  | i, out, line :: lines =>
      let out := out ++ cString line
      if i = userId then
        if 10 ∈ cString line then
          -- one byte back, over the newline
          addField fileId userId (i + 1) (out.dropLast ++ (ch ':' :: digits fileId ++ [10])) lines
        else addField fileId userId (i + 1) (out ++ ch ':' :: digits fileId) lines
      else addField fileId userId (i + 1) out lines

/-- Add the id of a file to the data of a user. -/
def addFileToUser (fails : ShareCall → Bool) (d : Disk) (fileId userId : Int) : Except Fault (Disk × Int) :=
  let d := if fails .rename ∨ d.get userdataTxt = none then d else d.rename userdataTxt userdataTempTxt
  match if fails .fopenTemp then none else d.get userdataTempTxt with
  | none => pure (d, -3)
  | some temp => do
      flock temp
      if fails .fopenUsers then pure (d.set userdataTempTxt (some { temp with locked := true }), -2)
      else do
        -- the new file is empty at first
        let fp := (d.get userdataTxt).getD (.closed [])
        flock fp
        let d := d.set userdataTxt (some { fp with content := addField fileId userId 1 [] (lines temp.content) })
        if fails .removeTemp then pure (d, -1) else pure (d.set userdataTempTxt none, 0)

/-! ## What is written -/

/-- A line with one more field, before its newline. -/
def withField (fileId : Int) (l : Bytes) : Bytes :=
  if 10 ∈ l then l.dropLast ++ (ch ':' :: digits fileId ++ [10]) else l ++ ch ':' :: digits fileId

/-- Change what is on line `userId`, if the first line is `i`. -/
def onLine {α : Type} (f : α → α) (userId i : Int) (as : List α) : List α :=
  as.mapIdx fun k a => if i + k = userId then f a else a

section
variable {α : Type} {f : α → α} {userId i : Int}

@[simp] theorem onLine_nil : onLine f userId i [] = [] := rfl

@[simp] theorem onLine_cons (a : α) (as : List α) :
    onLine f userId i (a :: as) = (if i = userId then f a else a) :: onLine f userId (i + 1) as := by
  have hshift : ∀ k : Nat, i + ((k : Int) + 1) = i + 1 + k := by omega
  simp [onLine, List.mapIdx_cons, hshift]

end

theorem addField_eq {fileId userId : Int} {ls : List Bytes} (hnul : ∀ l ∈ ls, (0 : UInt8) ∉ l) : ∀ {i : Int} {out : Bytes},
    addField fileId userId i out ls = out ++ (onLine (withField fileId) userId i ls).flatten := by
  induction ls with
  | nil => exact fun {i out} => (List.append_nil out).symm
  | cons l ls ih =>
      intro i out
      rw [List.forall_mem_cons] at hnul
      rw [addField, cString_eq_self hnul.1, onLine_cons, List.flatten_cons]
      by_cases hi : i = userId
      · simp only [if_pos hi, withField]
        split
        · next hnl => simp [ih hnul.2, List.dropLast_append_of_ne_nil (List.ne_nil_of_mem hnl)]
        · simp [ih hnul.2]
      · simp only [if_neg hi]
        rw [ih hnul.2, List.append_assoc]

theorem newline_notMem_field {l : Bytes} (hl : (10 : UInt8) ∉ l) (fileId : Int) : (10 : UInt8) ∉ l ++ ch ':' :: digits fileId := by
  have hcolon : (10 : UInt8) ≠ ch ':' := by decide
  simp [hl, hcolon, (isField_digits fileId).2.2.1]

/-- The lines written are the lines of the new text. -/
theorem Pieces.onLine {fileId userId : Int} {ls : List Bytes} (h : Pieces ls) : ∀ i,
    Pieces (onLine (withField fileId) userId i ls) := by
  induction h with
  | nil => exact fun _ => .nil
  | @last l hl hne =>
      intro i
      rw [onLine_cons, onLine_nil]
      split
      · rw [withField, if_neg hl]
        exact .last (newline_notMem_field hl fileId) (by simp)
      · exact .last hl hne
  | @line l ls hl _ ih =>
      intro i
      rw [onLine_cons]
      split
      · rw [withField, if_pos (by simp), List.dropLast_concat, ← List.append_assoc]
        exact .line (newline_notMem_field hl fileId) (ih (i + 1))
      · exact .line hl (ih (i + 1))

/-! ## Accounts with documents -/

/-- An account and the documents of its user. -/
structure Login where
  name : Bytes
  pass : Bytes
  ids : List Int
deriving DecidableEq, Repr

namespace Login

/-- `name:pass:id:id` -/
def line (a : Login) : Bytes := entry a.name (a.pass ++ a.ids.flatMap fun id => ch ':' :: digits id)

def addId (fileId : Int) (a : Login) : Login := { a with ids := a.ids ++ [fileId] }

def Named (a : Login) : Prop := IsField a.name ∧ IsField a.pass

variable {a : Login}

theorem line_addId (fileId : Int) (a : Login) : (a.addId fileId).line = a.line ++ ch ':' :: digits fileId := by
  simp [line, addId, entry]

theorem notMem_ids {c : UInt8} (hcolon : c ≠ ch ':') (hdigits : ∀ n, c ∉ digits n) (ids : List Int) :
    c ∉ ids.flatMap fun id => ch ':' :: digits id := by
  simp [hcolon, hdigits]

theorem Named.notMem (h : a.Named) : (10 : UInt8) ∉ a.line ∧ (0 : UInt8) ∉ a.line := by
  have hnl := notMem_ids (by decide) (fun n => (isField_digits n).2.2.1) a.ids
  have hnul := notMem_ids (by decide) zero_notMem_digits a.ids
  exact ⟨newline_notMem_entry h.1.2.2.1 (by simp only [List.mem_append, not_or]; exact ⟨h.2.2.2.1, hnl⟩),
    zero_notMem_entry h.1.2.2.2 (by simp only [List.mem_append, not_or]; exact ⟨h.2.2.2.2, hnul⟩)⟩

/-- The name and the password are read from a line, whatever documents follow. -/
theorem Named.fields (h : a.Named) {l : Bytes} (hl : l = a.line ∨ l = a.line ++ [10]) :
    ∃ u, fields l = (some a.name, some u) ∧ terminateNull u = a.pass := by
  cases hids : a.ids with
  | nil =>
      have hline : a.line = entry a.name a.pass := by simp [line, hids]
      rw [hline] at hl
      exact fields_entry h.1 h.2 hl
  | cons id ids =>
      obtain ⟨-, hnul⟩ := h.notMem
      obtain ⟨rest, hline⟩ : ∃ rest, l = entry a.name (a.pass ++ ch ':' :: rest) := by
        rcases hl with rfl | rfl
        · exact ⟨_, by rw [line, hids]; rfl⟩
        · exact ⟨_, by rw [line, hids, entry_append, List.append_assoc]; rfl⟩
      have hrest : (0 : UInt8) ∉ a.pass ++ ch ':' :: rest := by
        have hl0 : (0 : UInt8) ∉ l := by rcases hl with rfl | rfl <;> simp [hnul]
        intro hmem
        exact hl0 (hline ▸ by simp [entry, hmem])
      rw [hline, fields_strtok h.1 hrest, strtok_token h.2.1 h.2.2.1]
      exact ⟨a.pass, rfl, List.takeWhile_eq_self_iff.mpr (decide_ne_of_notMem h.2.2.2.1)⟩

end Login

/-- Text `s` lists the logins `as`, one a line. -/
structure Logins (as : List Login) (s : Bytes) : Prop where
  spells : Spells (as.map Login.line) s
  named : ∀ a ∈ as, a.Named

theorem findUser_congr {name pass : Option Bytes} {ls ls' : List Bytes} (h : List.Forall₂ SameRecord ls ls') :
    ∀ k, findUser name pass k ls = findUser name pass k ls' := by
  induction h with
  | nil => exact fun k => rfl
  | @cons l l' ls ls' hl _ ih =>
      intro k
      have haccount : isAccount name pass l = isAccount name pass l' := by
        -- only the part of the password before the newline counts
        have hread := hl.bind_eq (fun p => isEquivalentStrings name (fields l).1 pass (some p))
        calc isAccount name pass l
            = derefStr (fields l).2 >>= fun p => isEquivalentStrings name (fields l).1 pass (some (terminateNull p)) := rfl
          _ = derefStr (fields l').2 >>= fun p => isEquivalentStrings name (fields l).1 pass (some (terminateNull p)) := hread
          _ = isAccount name pass l' := by
              rw [hl.1]
              rfl
      rw [findUser, findUser, haccount]
      exact bind_congr fun found => by rw [ih]

section
variable {d d' : Disk} {s : Bytes} {as : List Login} {fileId userId : Int}

theorem Logins.forall₂ (h : Logins as s) :
    List.Forall₂ (fun a l => l = Login.line a ∨ l = Login.line a ++ [10]) as (lines s) :=
  List.forall₂_map_left_iff.mp h.spells

theorem Logins.zero_notMem (h : Logins as s) : ∀ l ∈ lines s, (0 : UInt8) ∉ l := by
  intro l hl
  obtain ⟨a, ha, hal⟩ := exists_left_of_mem h.forall₂ hl
  have hnul := (h.named a ha).notMem.2
  rcases hal with rfl | rfl <;> simp [hnul]

/-- The field is added to the line of the login. -/
theorem withField_line {a : Login} (ha : a.Named) {l : Bytes} (hl : l = a.line ∨ l = a.line ++ [10]) :
    withField fileId l = (a.addId fileId).line ∨ withField fileId l = (a.addId fileId).line ++ [10] := by
  rw [Login.line_addId]
  rcases hl with rfl | rfl
  · exact .inl (by rw [withField, if_neg ha.notMem.1])
  · exact .inr (by rw [withField, if_pos (by simp), List.dropLast_concat, List.append_assoc])

theorem forall₂_onLine {ls : List Bytes} (h : List.Forall₂ (fun a l => l = Login.line a ∨ l = Login.line a ++ [10]) as ls) :
    ∀ i, (∀ a ∈ as, a.Named) →
      List.Forall₂ (fun a l => l = Login.line a ∨ l = Login.line a ++ [10]) (onLine (Login.addId fileId) userId i as)
        (onLine (withField fileId) userId i ls) ∧
      List.Forall₂ SameRecord ls (onLine (withField fileId) userId i ls) ∧
      ∀ a ∈ onLine (Login.addId fileId) userId i as, a.Named := by
  induction h with
  | nil => exact fun i _ => ⟨.nil, .nil, fun a ha => nomatch ha⟩
  | @cons a l as ls hl _ ih =>
      intro i hnamed
      rw [List.forall_mem_cons] at hnamed
      obtain ⟨hlines, hsame, hrest⟩ := ih (i + 1) hnamed.2
      simp only [onLine_cons, List.forall_mem_cons]
      obtain ⟨u, hfields, hu⟩ := hnamed.1.fields hl
      by_cases hi : i = userId
      · simp only [if_pos hi]
        have hl' : withField fileId l = (a.addId fileId).line ∨ withField fileId l = (a.addId fileId).line ++ [10] :=
          withField_line hnamed.1 hl
        have hnamed' : (a.addId fileId).Named := hnamed.1
        obtain ⟨u', hfields', hu'⟩ := hnamed'.fields hl'
        refine ⟨.cons hl' hlines, .cons ?_ hsame, hnamed', hrest⟩
        rw [SameRecord, hfields, hfields']
        exact ⟨rfl, congrArg some (hu.trans hu'.symm)⟩
      · simp only [if_neg hi]
        exact ⟨.cons hl hlines, .cons ⟨rfl, rfl⟩ hsame, hnamed.1, hrest⟩

/-- A call that succeeds: no system call fails. -/
def Shares (fileId userId : Int) (d d' : Disk) : Prop := addFileToUser (fun _ => false) d fileId userId = .ok (d', 0)

/-- The call succeeds whenever there are accounts, and writes them back with the field added. -/
theorem addFileToUser_eq (hfile : d.get userdataTxt = some (.closed s)) (htemp : d.canon userdataTempTxt ≠ d.canon userdataTxt) :
    Shares fileId userId d ((((d.rename userdataTxt userdataTempTxt).set userdataTxt
      (some (.closed (addField fileId userId 1 [] (lines s))))).set userdataTempTxt none)) := by
  have haside : (d.rename userdataTxt userdataTempTxt).get userdataTempTxt = some (.closed s) := by
    rw [Disk.rename, Disk.get_set_ne _ (by simpa using htemp), Disk.get_set_self, hfile]
  have hnew : (d.rename userdataTxt userdataTempTxt).get userdataTxt = none := by rw [Disk.rename, Disk.get_set_self]
  have hsome : ¬ (false = true ∨ d.get userdataTxt = none) := by simp [hfile]
  rw [Shares, addFileToUser, if_neg hsome]
  simp only [Bool.false_eq_true, if_false, haside, flock_closed, hnew, Option.getD_none, Except.ok_bind_eq]
  rfl

/-- What one call does: the field is added to the line of its user, and that is all. -/
structure Shared (fileId userId : Int) (as : List Login) (s : Bytes) (d d' : Disk) (s' : Bytes) : Prop where
  file : d'.get userdataTxt = some (.closed s')
  lines : lines s' = onLine (withField fileId) userId 1 (lines s)
  logins : Logins (onLine (Login.addId fileId) userId 1 as) s'
  users : ∀ payload, validateUser d' payload = validateUser d payload
  others : ∀ name, d.canon name ≠ d.canon userdataTxt → d.canon name ≠ d.canon userdataTempTxt → d'.get name = d.get name

theorem Logins.shares (h : Logins as s) (hfile : d.get userdataTxt = some (.closed s))
    (htemp : d.canon userdataTempTxt ≠ d.canon userdataTxt) (hrun : Shares fileId userId d d') :
    d'.canon = d.canon ∧ ∃ s', Shared fileId userId as s d d' s' := by
  obtain rfl := (Prod.mk.inj (Except.ok.inj (hrun.symm.trans (addFileToUser_eq hfile htemp)))).1
  obtain ⟨hlines, hsame, hnamed⟩ := forall₂_onLine h.forall₂ 1 h.named
  have htext : addField fileId userId 1 [] (lines s) = (onLine (withField fileId) userId 1 (lines s)).flatten :=
    addField_eq h.zero_notMem
  have hcut : lines (addField fileId userId 1 [] (lines s)) = onLine (withField fileId) userId 1 (lines s) := by
    rw [htext]
    exact ((pieces_lines s).onLine 1).lines_flatten
  have hfile' : (((d.rename userdataTxt userdataTempTxt).set userdataTxt
      (some (.closed (addField fileId userId 1 [] (lines s))))).set userdataTempTxt none).get userdataTxt =
        some (.closed (addField fileId userId 1 [] (lines s))) := by
    rw [Disk.get_set_ne _ (by simpa [Disk.rename] using htemp.symm), Disk.get_set_self]
  refine ⟨rfl, _, hfile', hcut, ⟨?_, hnamed⟩, fun payload => ?_, fun name husers haside => ?_⟩
  · rw [Spells, hcut, List.forall₂_map_left_iff]
    exact hlines
  · simp only [validateUser, hfile', hfile, flock_closed, Except.ok_bind_eq]
    exact (congrArg _ hcut).trans (findUser_congr hsame 1).symm
  · simp [Disk.rename, Disk.get_set, husers, haside]

/-- After any number of calls every login is what it was, and the next call changes the line of its user only. -/
theorem addFileToUser_keeps_logins (h : Logins as s) (hfile : d.get userdataTxt = some (.closed s))
    (htemp : d.canon userdataTempTxt ≠ d.canon userdataTxt)
    (hrun : Relation.ReflTransGen (fun d d' => ∃ fileId userId, Shares fileId userId d d') d d') :
    (∀ payload, validateUser d' payload = validateUser d payload) ∧
    ∃ as' s', d'.get userdataTxt = some (.closed s') ∧ Logins as' s' ∧
      ∀ fileId userId d'', Shares fileId userId d' d'' → ∃ s'', Shared fileId userId as' s' d' d'' s'' := by
  have hinv : d'.canon = d.canon ∧ (∀ payload, validateUser d' payload = validateUser d payload) ∧
      ∃ as' s', d'.get userdataTxt = some (.closed s') ∧ Logins as' s' := by
    induction hrun with
    | refl => exact ⟨rfl, fun _ => rfl, as, s, hfile, h⟩
    | tail _ hstep ih =>
        obtain ⟨hcanon, husers, as', s', hfile', h'⟩ := ih
        obtain ⟨fileId, userId, hstep⟩ := hstep
        obtain ⟨hcanon', s'', hshared⟩ := h'.shares hfile' (by rwa [hcanon]) hstep
        exact ⟨hcanon'.trans hcanon, fun payload => (hshared.users payload).trans (husers payload), _, s'',
          hshared.file, hshared.logins⟩
  obtain ⟨hcanon, husers, as', s', hfile', h'⟩ := hinv
  exact ⟨husers, as', s', hfile', h', fun fileId userId d'' hstep => (h'.shares hfile' (by rwa [hcanon]) hstep).2⟩

end

/-- Documents `7` and `8` are added to the user on the last line. -/
theorem addFileToUser_keeps_logins_ab : ∃ d', (Relation.ReflTransGen (fun d d' => ∃ fileId userId, Shares fileId userId d d')
      (.ofTexts (bytes "a:x\nb:y") []) d') ∧ d'.get userdataTxt = some (.closed (bytes "a:x\nb:y:7:8")) ∧
    ∀ payload, validateUser d' payload = validateUser (.ofTexts (bytes "a:x\nb:y") []) payload := by
  have hfile : (Disk.ofTexts (bytes "a:x\nb:y") []).get userdataTxt = some (.closed (bytes "a:x\nb:y")) := by decide
  have htemp : (Disk.ofTexts (bytes "a:x\nb:y") []).canon userdataTempTxt ≠ (Disk.ofTexts (bytes "a:x\nb:y") []).canon userdataTxt := by
    decide
  have hlogins : Logins [⟨bytes "a", bytes "x", []⟩, ⟨bytes "b", bytes "y", []⟩] (bytes "a:x\nb:y") :=
    ⟨by decide, by simp [Login.Named]; decide⟩
  have htest : returns (addFileToUser (fun _ => false) (.ofTexts (bytes "a:x\nb:y") []) 7 2) (fun r => decide (r.2 = 0) &&
      returns (addFileToUser (fun _ => false) r.1 8 2) fun r' => decide (r'.2 = 0 ∧
        r'.1.get userdataTxt = some (.closed (bytes "a:x\nb:y:7:8")))) = true := by decide +kernel
  obtain ⟨⟨d₁, res₁⟩, hrun₁, htest⟩ := exists_of_returns htest
  obtain ⟨hres₁, htest⟩ := Bool.and_eq_true_iff.mp htest
  obtain rfl : res₁ = 0 := of_decide_eq_true hres₁
  obtain ⟨⟨d₂, res₂⟩, hrun₂, htest⟩ := exists_of_returns htest
  obtain ⟨rfl, hfile₂⟩ := of_decide_eq_true htest
  have hrun : Relation.ReflTransGen (fun d d' => ∃ fileId userId, Shares fileId userId d d')
      (.ofTexts (bytes "a:x\nb:y") []) d₂ := (Relation.ReflTransGen.single ⟨7, 2, hrun₁⟩).tail ⟨8, 2, hrun₂⟩
  exact ⟨d₂, hrun, hfile₂, (addFileToUser_keeps_logins hlogins hfile htemp hrun).1⟩

end CoEditor
