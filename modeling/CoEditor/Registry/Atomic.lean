-- SUMMARY: After which failures createFile and deleteFile leave the list and the documents as before, and every lock released.
import CoEditor.Registry.Names

/-!
# Failures of the registry

`createFile` and `deleteFile` make several system calls one after the other, and
each may fail. A call is atomic if it changes nothing when it reports a failure,
and never keeps a lock.
-/

namespace CoEditor

open Decimal

/-! ## Atomic calls -/

/-- What is in a file once all output is written. -/
def Inode.flushed (fp : Inode) : Bytes := fp.content ++ fp.pending

/-- The list and the listed documents are as before. -/
structure Kept (es : List FileEntry) (d d' : Disk) : Prop where
  list : (d'.get filesTxt).map Inode.flushed = (d.get filesTxt).map Inode.flushed
  documents : ∀ e ∈ es, (d'.get e.2).map Inode.flushed = (d.get e.2).map Inode.flushed

/-- No file is locked that was not locked before. -/
def Released (d d' : Disk) : Prop :=
  ∀ path fp', d'.file path = some fp' → fp'.locked = true → ∃ fp, d.file path = some fp ∧ fp.locked = true

/-- A call with result `res` changes nothing if this is negative, and keeps no lock. -/
structure Atomic (es : List FileEntry) (d d' : Disk) (res : Int) : Prop where
  kept : res < 0 → Kept es d d'
  released : Released d d'

theorem Kept.refl (es : List FileEntry) (d : Disk) : Kept es d d := ⟨rfl, fun _ _ => rfl⟩

theorem Released.refl (d : Disk) : Released d d := fun _ fp h hlock => ⟨fp, h, hlock⟩

theorem Atomic.refl (es : List FileEntry) (d : Disk) (res : Int) : Atomic es d d res :=
  ⟨fun _ => .refl es d, .refl d⟩

/-- A file that is written stays unlocked, unless it was locked all along. -/
theorem Released.set {d d' : Disk} (h : Released d d') (name : Bytes) {fp : Option Inode}
    (hfp : ∀ x, fp = some x → x.locked = true → ∃ y, d'.get name = some y ∧ y.locked = true) :
    Released d (d'.set name fp) := by
  intro path x hx hlock
  simp only [Disk.set] at hx
  split at hx
  · next hpath =>
      obtain ⟨y, hy, hylock⟩ := hfp x hx hlock
      exact h path y (by rw [hpath]; exact hy) hylock
  · exact h path x hx hlock

/-- A locked file that was not locked before. -/
theorem not_released {d d' : Disk} {name : Bytes} {fp' : Inode} (hget : d'.get name = some fp') (hlock : fp'.locked = true)
    (hbefore : ∀ fp, d.file (d'.canon name) = some fp → fp.locked = false) : ¬ Released d d' := by
  intro h
  obtain ⟨fp, hfp, hfp'⟩ := h _ _ hget hlock
  rw [hbefore fp hfp] at hfp'
  cases hfp'

section
variable {d d' : Disk} {s : Bytes} {es : List FileEntry} {fails : SysCall → Bool}

/-! ## Creating a document -/

/-- Nothing fails after the entry was written; or nothing is written. -/
def CreatesCleanly (fails : SysCall → Bool) (s : Bytes) (filename : Option Bytes) : Prop :=
  fails .fopenFiles = true ∨ fails .creat = false ∨ ∃ l ∈ lines s, (fields l).2 = filename

theorem hasName_eq_ok {filename : Option Bytes} {l : Bytes} {hit : Bool} (h : hasName filename l = .ok hit) :
    (fields l).2 ≠ none ∧ (hit = true ↔ (fields l).2 = filename) := by
  unfold hasName at h
  obtain ⟨-, -, h⟩ := Except.bind_eq_ok.mp h
  cases hsnd : (fields l).2 with
  | none =>
      rw [hsnd] at h
      cases h
  | some snd =>
      rw [hsnd] at h
      cases filename with
      | none => cases h
      | some name =>
          rw [isEquivalentStrings_some] at h
          rw [← Except.ok.inj h]
          simp

theorem findFile_val {filename : Option Bytes} : ∀ {ls : List Bytes} {k id : Int} {val : Bool},
    findFile filename k ls = .ok (val, id) → (val = true ↔ ∃ l ∈ ls, (fields l).2 = filename) := by
  intro ls
  induction ls with
  | nil =>
      intro k id val h
      obtain ⟨rfl, -⟩ := Prod.mk.inj (Except.ok.inj h)
      simp
  | cons l ls ih =>
      intro k id val h
      rw [findFile_cons] at h
      obtain ⟨hit, hhit, h⟩ := Except.bind_eq_ok.mp h
      have hname := (hasName_eq_ok hhit).2
      cases hit with
      | true =>
          obtain ⟨rfl, -⟩ := Prod.mk.inj (Except.ok.inj h)
          exact iff_of_true rfl ⟨l, by simp, hname.mp rfl⟩
      | false =>
          have hne : (fields l).2 ≠ filename := fun he => by
            have := hname.mpr he
            cases this
          rw [ih h]
          simp [hne]

/-- Every line was read. -/
theorem findFile_fields {filename : Option Bytes} : ∀ {ls : List Bytes} {k id : Int},
    findFile filename k ls = .ok (false, id) → ∀ l ∈ ls, (fields l).2 ≠ none := by
  intro ls
  induction ls with
  | nil => exact fun _ l hl => nomatch hl
  | cons l ls ih =>
      intro k id h
      rw [findFile_cons] at h
      obtain ⟨hit, hhit, h⟩ := Except.bind_eq_ok.mp h
      rw [List.forall_mem_cons]
      refine ⟨(hasName_eq_ok hhit).1, ?_⟩
      cases hit with
      | true => cases h
      | false => exact ih h

theorem derefStr_eq_ok {t : Option Bytes} {name : Bytes} : derefStr t = .ok name ↔ t = some name := by
  cases t with
  | none => simp [derefStr]
  | some t => simp [derefStr]

/-- The id on the last line of a list is not negative. -/
theorem createFile_id (hlist : FileList es s) {name : Bytes} {fileId : Int}
    (hfind : findFile (some name) 0 (lines s) = .ok (false, fileId)) : 0 ≤ fileId := by
  obtain ⟨val, n, hfind', hn⟩ := findFile_eq hlist.forall₂ hlist.name name 0
  obtain ⟨rfl, rfl⟩ := Prod.mk.inj (Except.ok.inj (hfind'.symm.trans hfind))
  rw [hn rfl]
  cases hlast : es.getLast? with
  | none => exact Int.le_refl 0
  | some e => exact Int.le_of_lt (hlist.id_pos e (List.mem_of_getLast? hlast))

theorem Disk.get_set_same (d : Disk) {name : Bytes} {fp : Option Inode} (h : d.get name = fp) (name' : Bytes) :
    (d.set name fp).get name' = d.get name' := by
  rw [Disk.get_set]
  split
  · next hcanon => rw [← h, Disk.get, Disk.get, hcanon]
  · rfl

/-- A document that could not be created stays on the list, which stays locked. -/
theorem createFile_atomic (hfile : d.get filesTxt = some (.closed s)) (hlist : FileList es s) {filename : Option Bytes}
    {res : Int} (hrun : createFile fails d filename = .ok (d', res)) :
    Atomic es d d' res ↔ CreatesCleanly fails s filename := by
  unfold createFile at hrun
  split at hrun
  · next hopen =>
      obtain ⟨rfl, -⟩ := Prod.mk.inj (Except.ok.inj hrun)
      exact iff_of_true (.refl es d res) (.inl hopen)
  · next hopen =>
      have hsame := d.get_set_same hfile
      have hreleased : Released d (d.set filesTxt (some (.closed s))) :=
        (Released.refl d).set _ fun x hx hlock => by
          obtain rfl := Option.some.inj hx
          cases hlock
      simp only [hfile, Option.getD_some, flock_closed, Except.ok_bind_eq] at hrun
      obtain ⟨⟨val, fileId⟩, hfind, hrun⟩ := Except.bind_eq_ok.mp hrun
      have hval := findFile_val hfind
      cases val with
      | true =>
          obtain ⟨rfl, rfl⟩ := Prod.mk.inj (Except.ok.inj hrun)
          exact iff_of_true ⟨fun _ => ⟨by rw [hsame], fun e _ => by rw [hsame]⟩, hreleased⟩ (.inr (.inr (hval.mp rfl)))
      | false =>
          obtain ⟨name, hname, hrun⟩ := Except.bind_eq_ok.mp hrun
          have hname := derefStr_eq_ok.mp hname
          have hnone : ¬ ∃ l ∈ lines s, (fields l).2 = filename := fun h => by
            have := hval.mpr h
            cases this
          dsimp only at hrun
          split at hrun
          · next hcreat =>
              obtain ⟨rfl, rfl⟩ := Prod.mk.inj (Except.ok.inj hrun)
              refine iff_of_false (fun h => ?_) ?_
              · refine not_released (Disk.get_set_self ..) rfl (fun fp hfp => ?_) h.released
                obtain rfl := Option.some.inj (hfile.symm.trans hfp)
                rfl
              · rintro (h | h | h)
                · exact hopen h
                · rw [hcreat] at h
                  cases h
                · exact hnone h
          · next hcreat =>
              obtain ⟨rfl, rfl⟩ := Prod.mk.inj (Except.ok.inj hrun)
              refine iff_of_true ⟨fun hneg => ?_, ?_⟩ (.inr (.inl (by simpa using hcreat)))
              · have hpos := createFile_id hlist (hname ▸ hfind)
                omega
              · refine Released.set (hreleased.set name fun x hx hlock => ?_) filesTxt fun x hx hlock => ?_
                · obtain rfl := Option.some.inj hx
                  cases hget : (d.set filesTxt (some (.closed s))).get name with
                  | none =>
                      rw [hget] at hlock
                      cases hlock
                  | some y =>
                      rw [hget] at hlock
                      exact ⟨y, rfl, hlock⟩
                · obtain ⟨y, hy, rfl⟩ := Option.map_eq_some_iff.mp hx
                  exact ⟨y, hy, hlock⟩

/-! ## Deleting a document -/

/-- The file that is opened as the list put aside: the old list, or one left over if it could not be renamed. -/
def Disk.putAside (fails : SysCall → Bool) (d : Disk) : Option Inode :=
  if fails .fopenTemp then none else if fails .rename then d.get filesTempTxt else d.get filesTxt

theorem Disk.of_putAside {t : Inode} (h : d.putAside fails = some t) :
    (if fails .rename then d.get filesTempTxt else d.get filesTxt) = some t := by
  unfold Disk.putAside at h
  split at h
  · cases h
  · exact h

/-- The document is there when it is to be removed. -/
def Removable (fails : SysCall → Bool) (d : Disk) (id : Int) : Prop :=
  fails .removeFile = false ∧ ∃ name, getFileName d id = .ok (some name) ∧
    if d.canon name = d.canon filesTempTxt then fails .removeTemp = true else d.get name ≠ none

/-- The list that is written back is the old one. -/
def RewritesSame (fails : SysCall → Bool) (d : Disk) (es : List FileEntry) (s : Bytes) (id : Int) : Prop :=
  if fails .rename then ∃ t, d.get filesTempTxt = some t ∧ writeBack id (lines t.content).length 0 (lines t.content) = .ok s
  else (∀ e ∈ es, e.1 ≠ id) ∧ ¬ Ended s

/-- The failures after which `deleteFile` is atomic. -/
inductive DeletesCleanly (fails : SysCall → Bool) (d : Disk) (es : List FileEntry) (s : Bytes) (id : Int) : Prop where
  /-- Nothing is done. -/
  | unmoved : fails .rename = true → d.putAside fails = none → DeletesCleanly fails d es s id
  /-- Everything is done. -/
  | removed : d.putAside fails ≠ none → fails .fopenFiles = false → fails .removeTemp = false → Removable fails d id →
      DeletesCleanly fails d es s id
  /-- The list is written back as it was, and no document is lost. -/
  | same {t : Inode} : d.putAside fails = some t → fails .fopenFiles = false → ¬ Removable fails d id →
      RewritesSame fails d es s id →
      (∀ e ∈ es, d.canon e.2 = d.canon filesTempTxt →
        (if fails .removeTemp then some t.flushed else none) = (d.get filesTempTxt).map Inode.flushed) →
      DeletesCleanly fails d es s id

/-- The three ways in which `deleteFile` returns. -/
theorem deleteFile_returns {id res : Int}
    (hfile : fails .rename = true → fails .fopenFiles = false → d.putAside fails = none ∨ ∃ s, d.get filesTxt = some (.closed s))
    (hrun : deleteFile fails d id = .ok (d', res)) :
    let d₁ := if fails .rename then d else d.rename filesTxt filesTempTxt
    d.putAside fails = none ∧ d' = d₁ ∧ res = -3 ∨
      ∃ t, d.putAside fails = some t ∧ t.locked = false ∧
        (fails .fopenFiles = true ∧ d' = d₁.set filesTempTxt (some { t with locked := true }) ∧ res = -2 ∨
          fails .fopenFiles = false ∧ ∃ filename text, getFileName d id = .ok filename ∧
            writeBack id (lines t.content).length 0 (lines t.content) = .ok text ∧
            removeFiles fails (d₁.set filesTxt (some (.closed text))) filename = (d', res)) := by
  have hne := d.files_ne_temp
  have hput : (if fails .fopenTemp then none
      else (if fails .rename then d else d.rename filesTxt filesTempTxt).get filesTempTxt) = d.putAside fails := by
    unfold Disk.putAside
    split
    · rfl
    · split
      · rfl
      · rw [Disk.rename, Disk.get_set_ne _ (by simpa using hne.symm), Disk.get_set_self]
  have hnew : fails .fopenFiles = false → d.putAside fails ≠ none →
      flock (((if fails .rename then d else d.rename filesTxt filesTempTxt).get filesTxt).getD (.closed [])) = .ok () ∧
      ∀ text, ({ ((if fails .rename then d else d.rename filesTxt filesTempTxt).get filesTxt).getD (.closed []) with
        content := text } : Inode) = .closed text := by
    intro hfiles hsome
    split
    · next hrename =>
        obtain ⟨s, hs⟩ := (hfile hrename hfiles).resolve_left hsome
        rw [hs]
        exact ⟨rfl, fun _ => rfl⟩
    · rw [Disk.rename, Disk.get_set_self]
      exact ⟨rfl, fun _ => rfl⟩
  obtain ⟨filename, hname, hrun⟩ := Except.bind_eq_ok.mp hrun
  dsimp only at hrun ⊢
  rw [hput] at hrun
  cases ht : d.putAside fails with
  | none =>
      rw [ht] at hrun
      obtain ⟨rfl, rfl⟩ := Prod.mk.inj (Except.ok.inj hrun)
      exact .inl ⟨rfl, rfl, rfl⟩
  | some t =>
      rw [ht] at hrun
      obtain ⟨_, hlock, hrun⟩ := Except.bind_eq_ok.mp hrun
      refine .inr ⟨t, rfl, flock_eq_ok.mp hlock, ?_⟩
      split at hrun
      · next hfiles =>
          obtain ⟨rfl, rfl⟩ := Prod.mk.inj (Except.ok.inj hrun)
          exact .inl ⟨hfiles, rfl, rfl⟩
      · next hfiles =>
          have hnew := hnew (by simpa using hfiles) (by simp [ht])
          rw [hnew.1, Except.ok_bind_eq] at hrun
          obtain ⟨text, htext, hrun⟩ := Except.bind_eq_ok.mp hrun
          rw [hnew.2] at hrun
          exact .inr ⟨by simpa using hfiles, filename, text, hname, htext, Except.ok.inj hrun⟩

/-- A list without the document is written back up to its last newline. -/
theorem writeBack_all {id : Int} {n : Nat} {ls : List Bytes} (hpieces : Pieces ls) :
    ∀ {k : Nat} {text : Bytes}, k + ls.length = n → (∀ l ∈ ls, (0 : UInt8) ∉ l) → (∀ l ∈ ls, ¬ ListsId id l) →
      writeBack id n k ls = .ok text → text = ls.flatten ∧ ¬ Ended text ∨ text ++ [10] = ls.flatten := by
  have hother : ∀ {l t : Bytes}, ¬ ListsId id l → (fields l).1 = some t → atoi t ≠ id := by
    intro l t hlists ht heq
    rw [ListsId, ht] at hlists
    exact hlists (congrArg some heq)
  induction hpieces with
  | nil =>
      intro k text _ _ _ hrun
      obtain rfl := Except.ok.inj hrun
      exact .inl ⟨rfl, by decide⟩
  | @last l hl hne =>
      intro k text hn hnul hids hrun
      obtain ⟨t, rest, ht, hrest, rfl⟩ := writeBack_cons hrun
      obtain rfl := Except.ok.inj hrest
      rw [if_neg (hother (hids l (by simp)) ht), if_pos (by simpa using hn), cString_eq_self (hnul l (by simp)),
        terminateNull_eq_self hl, List.append_nil]
      exact .inl ⟨by simp, fun hended => hl (List.mem_of_getLast? hended)⟩
  | @line l ls hl hls ih =>
      intro k text hn hnul hids hrun
      obtain ⟨t, rest, ht, hrest, rfl⟩ := writeBack_cons hrun
      rw [List.length_cons] at hn
      rw [if_neg (hother (hids _ (by simp)) ht), cString_eq_self (hnul _ (by simp)), terminateNull_newline,
        terminateNull_eq_self hl]
      by_cases hlast : k + 1 = n
      · obtain rfl : ls = [] := List.length_eq_zero_iff.mp (by omega)
        obtain rfl := Except.ok.inj hrest
        rw [if_pos hlast]
        exact .inr (by simp)
      · rw [if_neg hlast]
        have hflat : ls.flatten ≠ [] := by
          cases hls with
          | nil =>
              simp only [List.length_nil] at hn
              omega
          | last _ hne => simpa using hne
          | line => simp
        rcases ih (by omega) (fun m hm => hnul m (by simp [hm])) (fun m hm => hids m (by simp [hm])) hrest with
          ⟨rfl, hended⟩ | hrest'
        · refine .inl ⟨by simp, fun h => hended ?_⟩
          rwa [Ended, List.getLast?_append_of_ne_nil _ hflat] at h
        · exact .inr (by rw [List.flatten_cons, ← hrest', List.append_assoc])

/-- The list is written back as it was exactly if the document is not on it and it does not end in a newline. -/
theorem writeBack_eq_self (hlist : FileList es s) {id : Int} {text : Bytes}
    (hrun : writeBack id (lines s).length 0 (lines s) = .ok text) :
    text = s ↔ (∀ e ∈ es, e.1 ≠ id) ∧ ¬ Ended s := by
  have hline : ∀ l ∈ lines s, ∃ e ∈ es, (fields l).1 = some (digits e.1) ∧ (0 : UInt8) ∉ l := by
    intro l hl
    obtain ⟨i, hi, rfl⟩ := List.getElem_of_mem hl
    have hlen : i < es.length := by rwa [List.Forall₂.length_eq hlist.forall₂]
    have hname := hlist.name es[i] (List.getElem_mem hlen)
    have hform := hlist.forall₂.get hlen hi
    obtain ⟨fn, hfields, -⟩ := fields_line hname hform
    refine ⟨es[i], List.getElem_mem hlen, congrArg Prod.fst hfields, ?_⟩
    have hnul := zero_notMem_line hname
    rcases hform with heq | heq
    · exact fun h => hnul (heq ▸ h)
    · intro h
      rw [List.get_eq_getElem] at heq
      rw [heq] at h
      simp [hnul] at h
  have hother : (∀ e ∈ es, e.1 ≠ id) → ∀ l ∈ lines s, ¬ ListsId id l := by
    intro hids l hl hlists
    obtain ⟨e, he, hfst, -⟩ := hline l hl
    rw [ListsId, hfst, Option.map_some, atoi_digits] at hlists
    exact hids e he (Option.some.inj hlists)
  have hcut := fun hids => writeBack_all (pieces_lines s) (Nat.zero_add _) (fun l hl => (hline l hl).choose_spec.2.2)
    (hother hids) hrun
  rw [lines_flatten] at hcut
  constructor
  · rintro rfl
    have hids : ∀ e ∈ es, e.1 ≠ id := by
      obtain ⟨text', hrun', hspells⟩ := writeBack_eq hlist.forall₂ hlist.name id lines_ended 0 (lines text).length
        (Nat.zero_add _)
      obtain rfl := Except.ok.inj (hrun.symm.trans hrun')
      have hlen : (es.filter (·.1 ≠ id)).length = es.length := by
        have h₁ := List.Forall₂.length_eq hspells
        have h₂ := List.Forall₂.length_eq hlist.spells
        rw [List.length_map] at h₁ h₂
        omega
      intro e he
      simpa using List.length_filter_eq_length_iff.mp hlen e he
    refine ⟨hids, ?_⟩
    rcases hcut hids with ⟨-, hended⟩ | hcut
    · exact hended
    · simp at hcut
  · rintro ⟨hids, hended⟩
    rcases hcut hids with ⟨h, -⟩ | hcut
    · exact h
    · exact absurd (by rw [← hcut, ended_append_singleton]) hended

/-- The disk after the list put aside was removed. -/
def Disk.clear (fails : SysCall → Bool) (d : Disk) : Disk :=
  if fails .removeTemp then d else d.set filesTempTxt none

theorem Disk.clear_get (name : Bytes) : (d.clear fails).get name =
    if d.canon name = d.canon filesTempTxt ∧ fails .removeTemp = false then none else d.get name := by
  unfold Disk.clear
  cases fails .removeTemp with
  | true => simp
  | false => simp [Disk.get_set]

theorem Disk.clear_canon : (d.clear fails).canon = d.canon := by
  unfold Disk.clear
  split <;> rfl

/-- The document is removed, or it stays and the call reports a failure. -/
theorem removeFiles_cases (d : Disk) (filename : Option Bytes) :
    (∃ name, filename = some name ∧ fails .removeFile = false ∧ (d.clear fails).get name ≠ none ∧
      removeFiles fails d filename = ((d.clear fails).set name none, if fails .removeTemp then -1 else 0)) ∨
    (¬ ∃ name, filename = some name ∧ fails .removeFile = false ∧ (d.clear fails).get name ≠ none) ∧
      (removeFiles fails d filename).1.file = (d.clear fails).file ∧
      (removeFiles fails d filename).1.canon = (d.clear fails).canon ∧ (removeFiles fails d filename).2 = -1 := by
  have hclear : (if fails .removeTemp then (d, -1) else (d.set filesTempTxt none, (0 : Int))) =
      (d.clear fails, if fails .removeTemp then -1 else 0) := by
    unfold Disk.clear
    split <;> rfl
  unfold removeFiles
  rw [hclear]
  cases filename with
  | none => exact .inr ⟨by simp, rfl, rfl, rfl⟩
  | some name =>
      dsimp only
      split
      · next hstays =>
          refine .inr ⟨?_, rfl, rfl, rfl⟩
          rintro ⟨name', heq, hfile, hget⟩
          obtain rfl := Option.some.inj heq
          rcases hstays with h | h
          · rw [hfile] at h
            cases h
          · exact hget h
      · next hgoes =>
          rw [not_or] at hgoes
          exact .inl ⟨name, rfl, by simpa using hgoes.1, hgoes.2, rfl⟩

section
variable {t : Inode} {text : Bytes}

/-- The disk when the list has been written back. -/
def Disk.rewritten (fails : SysCall → Bool) (d : Disk) (text : Bytes) : Disk :=
  (if fails .rename then d else d.rename filesTxt filesTempTxt).set filesTxt (some (.closed text))

theorem Disk.rewritten_canon : (d.rewritten fails text).canon = d.canon := by
  unfold Disk.rewritten
  split <;> rfl

theorem Disk.rewritten_get (hput : d.putAside fails = some t) (name : Bytes) : (d.rewritten fails text).get name =
    if d.canon name = d.canon filesTxt then some (.closed text)
    else if d.canon name = d.canon filesTempTxt then some t else d.get name := by
  have hput := Disk.of_putAside hput
  unfold Disk.rewritten
  cases hrename : fails .rename with
  | true =>
      rw [hrename, if_pos rfl] at hput
      simp only [if_true, Disk.get_set]
      split
      · rfl
      · split
        · next htemp => rw [← hput, Disk.get, Disk.get, htemp]
        · rfl
  | false =>
      rw [hrename] at hput
      simp only [Bool.false_eq_true, if_false] at hput
      simp only [Bool.false_eq_true, if_false, Disk.rename, Disk.get_set, Disk.set_canon, hput]
      by_cases hfiles : d.canon name = d.canon filesTxt
      · simp [hfiles]
      · simp [hfiles]

/-- The file at each name after the removal of the list put aside. -/
theorem Disk.cleared_get (hput : d.putAside fails = some t) (name : Bytes) :
    ((d.rewritten fails text).clear fails).get name =
      if d.canon name = d.canon filesTxt then some (.closed text)
      else if d.canon name = d.canon filesTempTxt then if fails .removeTemp then some t else none else d.get name := by
  have hne := d.files_ne_temp
  rw [Disk.clear_get, Disk.rewritten_get hput, Disk.rewritten_canon]
  by_cases hfiles : d.canon name = d.canon filesTxt
  · simp [hfiles, hne]
  · by_cases htemp : d.canon name = d.canon filesTempTxt
    · cases fails .removeTemp with
      | true => simp [htemp, hne.symm]
      | false => simp [htemp, hne.symm]
    · simp [hfiles, htemp]

theorem removable_iff (text : Bytes) (hfile : d.get filesTxt = some (.closed s)) (hput : d.putAside fails = some t) {id : Int}
    {filename : Option Bytes} (hname : getFileName d id = .ok filename) :
    (∃ name, filename = some name ∧ fails .removeFile = false ∧ ((d.rewritten fails text).clear fails).get name ≠ none) ↔
      Removable fails d id := by
  have hne := d.files_ne_temp
  have hget : ∀ name, ((d.rewritten fails text).clear fails).get name ≠ none ↔
      if d.canon name = d.canon filesTempTxt then fails .removeTemp = true else d.get name ≠ none := by
    intro name
    rw [Disk.cleared_get hput]
    by_cases hfiles : d.canon name = d.canon filesTxt
    · have hthere : d.get name = some (.closed s) := by rw [← hfile, Disk.get, Disk.get, hfiles]
      simp [hfiles, hne, hthere]
    · by_cases htemp : d.canon name = d.canon filesTempTxt
      · cases fails .removeTemp with
        | true => simp [htemp, hne.symm]
        | false => simp [htemp, hne.symm]
      · simp [hfiles, htemp]
  unfold Removable
  simp only [hname, Except.ok.injEq, hget]
  constructor
  · rintro ⟨name, rfl, hremove, hthere⟩
    exact ⟨hremove, name, rfl, hthere⟩
  · rintro ⟨hremove, name, rfl, hthere⟩
    exact ⟨name, rfl, hremove, hthere⟩

theorem released_cleared (hfile : d.get filesTxt = some (.closed s)) :
    Released d ((d.rewritten fails text).clear fails) := by
  have hclosed : ∀ {d' : Disk} {name : Bytes} {u : Bytes} (x : Inode), some (Inode.closed u) = some x → x.locked = true →
      ∃ y, d'.get name = some y ∧ y.locked = true := by
    intro d' name u x hx hlock
    obtain rfl := Option.some.inj hx
    cases hlock
  have hmoved : Released d (if fails .rename then d else d.rename filesTxt filesTempTxt) := by
    split
    · exact .refl d
    · rw [Disk.rename, hfile]
      exact ((Released.refl d).set _ hclosed).set _ (by simp)
  have hwritten : Released d (d.rewritten fails text) := hmoved.set _ hclosed
  unfold Disk.clear
  split
  · exact hwritten
  · exact hwritten.set _ (by simp)

/-- Without a removal the list is as before if it was written back so, and the documents are unless one was
    put under the name of the list put aside. -/
theorem kept_cleared (hfile : d.get filesTxt = some (.closed s)) (hput : d.putAside fails = some t)
    (hget : ∀ name, d'.get name = ((d.rewritten fails text).clear fails).get name) :
    Kept es d d' ↔ text = s ∧ ∀ e ∈ es, d.canon e.2 = d.canon filesTempTxt →
      (if fails .removeTemp then some t.flushed else none) = (d.get filesTempTxt).map Inode.flushed := by
  have hne := d.files_ne_temp
  have hflushed : ∀ u, (Inode.closed u).flushed = u := fun u => List.append_nil u
  have htext : (d'.get filesTxt).map Inode.flushed = (d.get filesTxt).map Inode.flushed ↔ text = s := by
    rw [hget, Disk.cleared_get hput, if_pos rfl, hfile, Option.map_some, Option.map_some, hflushed, hflushed,
      Option.some.injEq]
  have hdoc : text = s → ∀ e : FileEntry, ((d'.get e.2).map Inode.flushed = (d.get e.2).map Inode.flushed ↔
      (d.canon e.2 = d.canon filesTempTxt →
        (if fails .removeTemp then some t.flushed else none) = (d.get filesTempTxt).map Inode.flushed)) := by
    rintro rfl e
    rw [hget, Disk.cleared_get hput]
    by_cases hfiles : d.canon e.2 = d.canon filesTxt
    · have hthere : d.get e.2 = some (.closed text) := by rw [← hfile, Disk.get, Disk.get, hfiles]
      rw [if_pos hfiles, hthere]
      exact iff_of_true rfl fun htemp => absurd (hfiles.symm.trans htemp) hne
    · by_cases htemp : d.canon e.2 = d.canon filesTempTxt
      · have hthere : d.get e.2 = d.get filesTempTxt := by rw [Disk.get, Disk.get, htemp]
        rw [if_neg hfiles, if_pos htemp, hthere]
        cases fails .removeTemp with
        | true => simp [htemp]
        | false => simp [htemp]
      · rw [if_neg hfiles, if_neg htemp]
        exact iff_of_true rfl fun h => absurd h htemp
  constructor
  · rintro ⟨hlist, hdocs⟩
    have hsame := htext.mp hlist
    exact ⟨hsame, fun e he => (hdoc hsame e).mp (hdocs e he)⟩
  · rintro ⟨hsame, hdocs⟩
    exact ⟨htext.mpr hsame, fun e he => (hdoc hsame e).mpr (hdocs e he)⟩

end

theorem rewritesSame_iff (hlist : FileList es s) {t : Inode} (hfile : d.get filesTxt = some (.closed s))
    (hput : d.putAside fails = some t) {id : Int} {text : Bytes}
    (htext : writeBack id (lines t.content).length 0 (lines t.content) = .ok text) :
    RewritesSame fails d es s id ↔ text = s := by
  have hput := Disk.of_putAside hput
  unfold RewritesSame
  split at hput
  · next hrename =>
      rw [if_pos hrename]
      constructor
      · rintro ⟨t', ht', htext'⟩
        obtain rfl := Option.some.inj (hput.symm.trans ht')
        exact Except.ok.inj (htext.symm.trans htext')
      · rintro rfl
        exact ⟨t, hput, htext⟩
  · next hrename =>
      obtain rfl := Option.some.inj (hfile.symm.trans hput)
      rw [if_neg hrename]
      exact (writeBack_eq_self hlist htext).symm

/-- The name of a document is on the list. -/
theorem FileList.mem_of_getFileName (hlist : FileList es s) (hfile : d.get filesTxt = some (.closed s)) {id : Int}
    {name : Bytes} (h : CoEditor.getFileName d id = .ok (some name)) : (id, name) ∈ es := by
  rw [hlist.getFileName hfile] at h
  obtain ⟨⟨i, n⟩, he, rfl⟩ := Option.map_eq_some_iff.mp (Except.ok.inj h)
  have hid : i = id := by simpa using List.find?_some he
  exact hid ▸ List.mem_of_find?_eq_some he

/-- Once the document is removed, the list put aside must be as well. -/
theorem atomic_removed (hfile : d.get filesTxt = some (.closed s)) (hlist : FileList es s) {t : Inode}
    (hput : d.putAside fails = some t) (hfiles : fails .fopenFiles = false) {id : Int} {name text : Bytes}
    (hname : getFileName d id = .ok (some name))
    (htext : writeBack id (lines t.content).length 0 (lines t.content) = .ok text) (hremovable : Removable fails d id)
    (hreleased : Released d (((d.rewritten fails text).clear fails).set name none)) :
    Atomic es d (((d.rewritten fails text).clear fails).set name none) (if fails .removeTemp then -1 else 0) ↔
      DeletesCleanly fails d es s id := by
  cases hclear : fails .removeTemp with
  | false =>
      exact iff_of_true ⟨fun h => absurd h (by decide), hreleased⟩ (.removed (by simp [hput]) hfiles hclear hremovable)
  | true =>
      refine iff_of_false (fun h => ?_) ?_
      · have hkept := h.kept (by decide)
        have hmem := hlist.mem_of_getFileName hfile hname
        have hgone : d.get name = none := by
          have hdoc := hkept.documents (id, name) hmem
          rw [Disk.get_set_self] at hdoc
          simpa using hdoc.symm
        have htemp : d.canon name = d.canon filesTempTxt := by
          obtain ⟨-, name', hname', hthere⟩ := hremovable
          obtain rfl := Option.some.inj (Except.ok.inj (hname.symm.trans hname'))
          by_contra htemp
          rw [if_neg htemp] at hthere
          exact hthere hgone
        cases hrename : fails .rename with
        | true =>
            have ht := Disk.of_putAside hput
            rw [Disk.get, htemp] at hgone
            rw [hrename, if_pos rfl, Disk.get, hgone] at ht
            cases ht
        | false =>
            have hne : d.canon filesTxt ≠ ((d.rewritten fails text).clear fails).canon name := by
              rw [Disk.clear_canon, Disk.rewritten_canon, htemp]
              exact d.files_ne_temp
            have hcanon : ((d.rewritten fails text).clear fails).canon filesTxt = d.canon filesTxt := by
              rw [Disk.clear_canon, Disk.rewritten_canon]
            have hsame : text = s := by
              have hlist' := hkept.list
              rw [Disk.get_set_ne _ (hcanon ▸ hne), Disk.cleared_get hput, if_pos rfl, hfile, Option.map_some,
                Option.map_some, Option.some.injEq] at hlist'
              simpa [Inode.flushed, Inode.closed] using hlist'
            have hids := (rewritesSame_iff hlist hfile hput htext).mpr hsame
            unfold RewritesSame at hids
            rw [hrename] at hids
            exact hids.1 (id, name) hmem rfl
      · rintro (⟨-, h⟩ | ⟨-, -, h, -⟩ | ⟨-, -, h, -⟩)
        · rw [hput] at h
          cases h
        · rw [hclear] at h
          cases h
        · exact h hremovable

/-- A deletion is atomic when it does nothing, everything, or writes the list back as it was. -/
theorem deleteFile_atomic (hfile : d.get filesTxt = some (.closed s)) (hlist : FileList es s) {id res : Int}
    (hrun : deleteFile fails d id = .ok (d', res)) : Atomic es d d' res ↔ DeletesCleanly fails d es s id := by
  have hne := d.files_ne_temp
  have hgone : ∀ {d'' : Disk}, fails .rename = false → res < 0 → d''.get filesTxt = none → ¬ Atomic es d d'' res := by
    intro d'' _ hneg hnone h
    have hsame := (h.kept hneg).list
    rw [hnone, hfile] at hsame
    cases hsame
  rcases deleteFile_returns (fun _ _ => .inr ⟨s, hfile⟩) hrun with ⟨hput, rfl, rfl⟩ | ⟨t, hput, hlock, ⟨hfiles, rfl, rfl⟩ | hwritten⟩
  · -- the list put aside could not be opened
    cases hrename : fails .rename with
    | true => exact iff_of_true (.refl es d _) (.unmoved hrename hput)
    | false =>
        refine iff_of_false (hgone hrename (by decide) (by simp [Disk.rename])) ?_
        rintro (⟨h, -⟩ | ⟨h, -⟩ | ⟨h, -⟩)
        · rw [hrename] at h
          cases h
        · exact h hput
        · rw [hput] at h
          cases h
  · -- the list put aside stays open
    have hclean : ¬ DeletesCleanly fails d es s id := by
      rintro (⟨-, h⟩ | ⟨-, h, -⟩ | ⟨-, h, -⟩)
      · rw [hput] at h
        cases h
      · rw [hfiles] at h
        cases h
      · rw [hfiles] at h
        cases h
    refine iff_of_false ?_ hclean
    cases hrename : fails .rename with
    | true =>
        refine fun h => not_released (Disk.get_set_self ..) rfl (fun fp hfp => ?_) h.released
        have ht := Disk.of_putAside hput
        rw [hrename, if_pos rfl] at ht
        obtain rfl := Option.some.inj (ht.symm.trans hfp)
        exact hlock
    | false => exact hgone hrename (by decide) (by simp [Disk.rename, Disk.get_set, hne])
  · obtain ⟨hfiles, filename, text, hname, htext, hremove⟩ := hwritten
    have hreleased : Released d ((d.rewritten fails text).clear fails) := released_cleared hfile
    have hremovable := removable_iff text hfile hput hname
    have hsame := rewritesSame_iff hlist hfile hput htext
    rcases removeFiles_cases (d.rewritten fails text) filename with
      ⟨name, rfl, hremoves, hthere, heq⟩ | ⟨hstays, hdisk, hcanon, hres⟩
    · obtain ⟨rfl, rfl⟩ := Prod.mk.inj (heq.symm.trans hremove)
      exact atomic_removed hfile hlist hput hfiles hname htext (hremovable.mp ⟨name, rfl, hremoves, hthere⟩)
        (hreleased.set name (by simp))
    · obtain rfl : (removeFiles fails (d.rewritten fails text) filename).1 = d' := congrArg Prod.fst hremove
      obtain rfl : (removeFiles fails (d.rewritten fails text) filename).2 = res := congrArg Prod.snd hremove
      have hnot : ¬ Removable fails d id := fun h => hstays (hremovable.mpr h)
      have hget : ∀ name, (removeFiles fails (d.rewritten fails text) filename).1.get name =
          ((d.rewritten fails text).clear fails).get name := fun name => by rw [Disk.get, Disk.get, hdisk, hcanon]
      have hfree : Released d (removeFiles fails (d.rewritten fails text) filename).1 := fun path fp hfp =>
        hreleased path fp (hdisk ▸ hfp)
      constructor
      · intro h
        obtain ⟨htext', hdocs⟩ := (kept_cleared hfile hput hget).mp (h.kept (by rw [hres]; decide))
        exact .same hput hfiles hnot (hsame.mpr htext') hdocs
      · rintro (⟨-, h⟩ | ⟨-, -, -, h⟩ | ⟨ht, -, -, hsame', hdocs⟩)
        · rw [hput] at h
          cases h
        · exact absurd h hnot
        · obtain rfl := Option.some.inj (hput.symm.trans ht)
          exact ⟨fun _ => (kept_cleared hfile hput hget).mpr ⟨hsame.mp hsame', hdocs⟩, hfree⟩

/-- The calls on the list are atomic exactly under these failures. -/
theorem registry_atomic (hfile : d.get filesTxt = some (.closed s)) (hlist : FileList es s) :
    (∀ fails filename d' res, createFile fails d filename = .ok (d', res) →
      (Atomic es d d' res ↔ CreatesCleanly fails s filename)) ∧
    ∀ fails id d' res, deleteFile fails d id = .ok (d', res) →
      (Atomic es d d' res ↔ DeletesCleanly fails d es s id) :=
  ⟨fun _ _ _ _ hrun => createFile_atomic hfile hlist hrun, fun _ _ _ _ hrun => deleteFile_atomic hfile hlist hrun⟩

end

theorem registry_atomic_ab : (∀ fails filename d' res, createFile fails (.ofTexts [] (bytes "1:a")) filename = .ok (d', res) →
      (Atomic [(1, bytes "a")] (.ofTexts [] (bytes "1:a")) d' res ↔ CreatesCleanly fails (bytes "1:a") filename)) ∧
    ∀ fails id d' res, deleteFile fails (.ofTexts [] (bytes "1:a")) id = .ok (d', res) →
      (Atomic [(1, bytes "a")] (.ofTexts [] (bytes "1:a")) d' res ↔
        DeletesCleanly fails (.ofTexts [] (bytes "1:a")) [(1, bytes "a")] (bytes "1:a") id) :=
  registry_atomic rfl ⟨by decide, by decide, by decide⟩

/-- If `creat` fails the entry is written all the same, and the next call waits for ever. -/
theorem creat_fails : ∃ d', createFile (fun call => decide (call = .creat)) (.ofTexts [] (bytes "1:a")) (some (bytes "notes")) =
      .ok (d', -3) ∧ FileList [(1, bytes "a")] (bytes "1:a") ∧
    (d'.get filesTxt).map Inode.flushed = some (bytes "1:a\n2:notes") ∧
    ¬ Kept [(1, bytes "a")] (.ofTexts [] (bytes "1:a")) d' ∧ ¬ Released (.ofTexts [] (bytes "1:a")) d' ∧
    createFile noFailure d' (some (bytes "more")) = .error .blocked := by
  have htest : returns (createFile (fun call => decide (call = .creat)) (.ofTexts [] (bytes "1:a")) (some (bytes "notes")))
      (fun r => decide (r.2 = -3 ∧ (r.1.get filesTxt).map Inode.flushed = some (bytes "1:a\n2:notes") ∧
        (r.1.get filesTxt).map Inode.locked = some true ∧ r.1.file filesTxt = r.1.get filesTxt ∧
        stops (createFile noFailure r.1 (some (bytes "more"))) .blocked)) = true := by decide +kernel
  obtain ⟨⟨d', res⟩, hrun, htest⟩ := exists_of_returns htest
  obtain ⟨rfl, hflushed, hlocked, hcanon, hnext⟩ := of_decide_eq_true htest
  refine ⟨d', hrun, ⟨by decide, by decide, by decide⟩, hflushed, fun h => ?_, fun h => ?_, eq_error_of_stops hnext⟩
  · have hlist := h.list
    rw [hflushed] at hlist
    exact absurd hlist (by decide +kernel)
  · obtain ⟨fp, hfp, hlock⟩ := Option.map_eq_some_iff.mp hlocked
    obtain ⟨fp', hfp', hlock'⟩ := h filesTxt fp (hcanon.trans hfp) hlock
    obtain rfl : Inode.closed (bytes "1:a") = fp' := Option.some.inj hfp'
    cases hlock'

end CoEditor
