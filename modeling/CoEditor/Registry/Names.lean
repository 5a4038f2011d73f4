-- SUMMARY: A document keeps its name under its id while other documents are created and deleted.
import CoEditor.Registry.Strings

/-!
# Names of documents

The name under an id is the one on the first line of the list with this id.
Creating a document adds a line at the end; deleting one leaves lines out. In
both cases the newline of the last line comes or goes, which the fields of the
line do not notice.
-/

namespace CoEditor

/-! ## Lines and their newline -/

theorem takeWhile_concat {p : UInt8 → Bool} {c : UInt8} (hc : p c = false) (s : Bytes) :
    (s ++ [c]).takeWhile p = s.takeWhile p := by
  induction s with
  | nil => simp [hc]
  | cons d s ih => simp [List.takeWhile_cons, ih]

@[simp] theorem terminateNull_newline (s : Bytes) : terminateNull (s ++ [10]) = terminateNull s :=
  takeWhile_concat (by decide) s

theorem strtok_none_newline {s : Bytes} (h : strtok s = none) : strtok (s ++ [10]) = some ([10], []) := by
  unfold strtok at h ⊢
  split at h
  · next hnil =>
      rw [List.dropWhile_append, hnil]
      rfl
  · cases h

/-- The newline is in the rest of the text, or in the token that takes all of it. -/
theorem strtok_newline {s t rest : Bytes} (h : strtok s = some (t, rest)) :
    strtok (s ++ [10]) = some (t, rest ++ [10]) ∨ rest = [] ∧ strtok (s ++ [10]) = some (t ++ [10], []) := by
  unfold strtok at h ⊢
  split at h
  · cases h
  · next c u hu =>
      obtain ⟨rfl, rfl⟩ := Prod.mk.inj (Option.some.inj h)
      rw [List.dropWhile_append, hu]
      simp only [List.isEmpty_cons, Bool.false_eq_true, if_false, List.cons_append]
      rw [← List.cons_append]
      generalize c :: u = v
      by_cases hall : ∀ x ∈ v, decide (x ≠ ch ':') = true
      · refine .inr ⟨by rw [List.dropWhile_eq_nil_iff.mpr hall]; rfl, ?_⟩
        rw [List.takeWhile_append_of_pos hall, List.dropWhile_append_of_pos hall, List.takeWhile_eq_self_iff.mpr hall]
        rfl
      · refine .inl ?_
        have htake : (v.takeWhile (· ≠ ch ':')).length ≠ v.length := fun h =>
          hall (List.takeWhile_eq_self_iff.mp ((List.takeWhile_prefix _).eq_of_length h))
        have hdrop : v.dropWhile (· ≠ ch ':') ≠ [] := fun h => hall (List.dropWhile_eq_nil_iff.mp h)
        obtain ⟨d, ds, hds⟩ := List.exists_cons_of_ne_nil hdrop
        rw [List.takeWhile_append, List.dropWhile_append, if_neg htake, hds]
        rfl

theorem cString_newline_of_mem {l : Bytes} (hnul : (0 : UInt8) ∈ l) : cString (l ++ [10]) = cString l := by
  have htake : (l.takeWhile (· ≠ 0)).length ≠ l.length := fun h => by
    have hall := List.takeWhile_eq_self_iff.mp ((List.takeWhile_prefix _).eq_of_length h)
    simpa using hall 0 hnul
  rw [cString, cString, List.takeWhile_append, if_neg htake]

theorem cString_newline {l : Bytes} (hnul : (0 : UInt8) ∉ l) : cString (l ++ [10]) = cString l ++ [10] := by
  rw [cString_append hnul, cString_eq_self hnul]
  rfl

/-- The fields of a line with two fields stay, up to the newline. -/
theorem fields_newline {l fn : Bytes} (h : (fields l).2 = some fn) :
    (fields (l ++ [10])).1 = (fields l).1 ∧ (fields (l ++ [10])).2.map terminateNull = some (terminateNull fn) := by
  unfold fields at h ⊢
  by_cases hnul : (0 : UInt8) ∈ l
  · rw [cString_newline_of_mem hnul]
    exact ⟨rfl, by rw [h]; rfl⟩
  · rw [cString_newline hnul]
    cases hs : strtok (cString l) with
    | none => rw [hs] at h; cases h
    | some r =>
        rw [hs] at h
        obtain ⟨⟨fn', rest⟩, hrest, rfl⟩ := Option.map_eq_some_iff.mp h
        rcases strtok_newline hs with hs' | ⟨hnil, -⟩
        · rw [hs']
          rcases strtok_newline hrest with hrest' | ⟨-, hrest'⟩
          · exact ⟨rfl, by simp [hrest']⟩
          · exact ⟨rfl, by simp [hrest']⟩
        · rw [hnil] at hrest
          cases hrest

/-- A second field that is not empty is there without the newline as well. -/
theorem fields_of_newline {l fn : Bytes} (h : (fields (l ++ [10])).2 = some fn) (hfn : terminateNull fn ≠ []) :
    (fields l).1 = (fields (l ++ [10])).1 ∧ (fields l).2.map terminateNull = some (terminateNull fn) := by
  have hsecond : ∃ fn', (fields l).2 = some fn' := by
    unfold fields at h ⊢
    by_cases hnul : (0 : UInt8) ∈ l
    · rw [cString_newline_of_mem hnul] at h
      exact ⟨fn, h⟩
    · rw [cString_newline hnul] at h
      cases hs : strtok (cString l) with
      | none =>
          rw [strtok_none_newline hs] at h
          cases h
      | some r =>
          obtain ⟨t, rest⟩ := r
          rcases strtok_newline hs with hs' | ⟨-, hs'⟩
          · rw [hs'] at h
            cases hrest : strtok rest with
            | none =>
                simp only [strtok_none_newline hrest, Option.map_some, Option.some.injEq] at h
                exact absurd (h ▸ rfl) hfn
            | some r' => exact ⟨r'.1, by simp [hrest]⟩
          · rw [hs'] at h
            cases h
  obtain ⟨fn', hfn'⟩ := hsecond
  obtain ⟨hfst, hsnd⟩ := fields_newline hfn'
  refine ⟨hfst.symm, ?_⟩
  rw [h] at hsnd
  rw [hfn', Option.map_some, ← hsnd]
  rfl

/-! ## Looking a name up -/

/-- The first line with the id has the name. -/
inductive Finds (fileId : Int) (name : Bytes) : List Bytes → Prop where
  | here {l : Bytes} {ls : List Bytes} : ListsId fileId l → (fields l).2.map terminateNull = some name →
      Finds fileId name (l :: ls)
  | there {l : Bytes} {ls : List Bytes} : (fields l).1 ≠ none → ¬ ListsId fileId l → Finds fileId name ls →
      Finds fileId name (l :: ls)

theorem findFileName_eq_some {fileId : Int} {name : Bytes} {ls : List Bytes} :
    findFileName fileId ls = .ok (some name) ↔ Finds fileId name ls := by
  induction ls with
  | nil => exact iff_of_false (fun h => nomatch h) fun h => nomatch h
  | cons l ls ih =>
      rw [findFileName_cons]
      by_cases hreads : (fields l).1 ≠ none ∧ (ListsId fileId l → (fields l).2 ≠ none)
      · rw [hasId_reads hreads, Except.ok_bind_eq]
        by_cases hid : ListsId fileId l
        · simp only [hid, decide_true, if_true, Except.pure_eq_ok, Except.ok.injEq]
          constructor
          · exact fun h => .here hid h
          · rintro (⟨-, h⟩ | ⟨-, h, -⟩)
            · exact h
            · exact absurd hid h
        · simp only [hid, decide_false, Bool.false_eq_true, if_false, ih]
          constructor
          · exact fun h => .there hreads.1 hid h
          · rintro (⟨h, -⟩ | ⟨-, -, h⟩)
            · exact absurd h hid
            · exact h
      · rw [hasId_null hreads]
        refine iff_of_false (fun h => nomatch h) ?_
        rintro (⟨hid, h⟩ | ⟨h, hid, -⟩)
        · refine hreads ⟨?_, fun _ hnone => by rw [hnone] at h; cases h⟩
          intro hnone
          rw [ListsId, hnone] at hid
          cases hid
        · exact hreads ⟨h, fun hid' => absurd hid' hid⟩

namespace Finds

variable {fileId : Int} {name : Bytes} {ls : List Bytes}

theorem append (h : Finds fileId name ls) (ms : List Bytes) : Finds fileId name (ls ++ ms) := by
  induction h with
  | here hid hname => exact .here hid hname
  | there hfst hid _ ih => exact .there hfst hid ih

/-- The lines from the last one on do not matter if the last one has another id. -/
theorem replace_last {l : Bytes} (h : Finds fileId name (ls ++ [l])) (hl : ¬ ListsId fileId l) (ms : List Bytes) :
    Finds fileId name (ls ++ ms) := by
  induction ls with
  | nil =>
      rcases h with ⟨hid, -⟩ | ⟨-, -, h⟩
      · exact absurd hid hl
      · cases h
  | cons k ls ih =>
      rcases h with ⟨hid, hname⟩ | ⟨hfst, hid, h⟩
      · exact .here hid hname
      · exact .there hfst hid (ih h)

/-- The last line gets a newline, and more lines follow. -/
theorem newline {l : Bytes} (h : Finds fileId name (ls ++ [l])) (ms : List Bytes) :
    Finds fileId name (ls ++ (l ++ [10]) :: ms) := by
  induction ls with
  | nil =>
      rcases h with ⟨hid, hname⟩ | ⟨-, -, h⟩
      · obtain ⟨fn, hfn, rfl⟩ := Option.map_eq_some_iff.mp hname
        obtain ⟨hfst, hsnd⟩ := fields_newline hfn
        exact .here (by rwa [ListsId, hfst]) hsnd
      · cases h
  | cons k ls ih =>
      rcases h with ⟨hid, hname⟩ | ⟨hfst, hid, h⟩
      · exact .here hid hname
      · exact .there hfst hid (ih h)

end Finds

section
variable {d d' : Disk} {fileId : Int} {name : Bytes}

theorem getFileName_eq_some : getFileName d fileId = .ok (some name) ↔
    ∃ fp, d.get filesTxt = some fp ∧ fp.locked = false ∧ Finds fileId name (lines fp.content) := by
  constructor
  · intro h
    obtain ⟨fp, hget, hlock⟩ := getFileName_open h
    refine ⟨fp, hget, hlock, findFileName_eq_some.mp ?_⟩
    rw [getFileName, hget] at h
    simpa only [flock_eq_ok.mpr hlock, Except.ok_bind_eq] using h
  · rintro ⟨fp, hget, hlock, hfinds⟩
    rw [getFileName, hget]
    simpa only [flock_eq_ok.mpr hlock, Except.ok_bind_eq] using findFileName_eq_some.mpr hfinds

/-- Only the list of documents counts. -/
theorem getFileName_congr (h : d'.get filesTxt = d.get filesTxt) : getFileName d' fileId = getFileName d fileId := by
  unfold getFileName
  rw [h]

/-! ## Creating a document -/

/-- If the name is not on the list, the id is that on the last line. -/
theorem findFile_last {filename : Option Bytes} : ∀ {ls : List Bytes} {k n : Int} {l : Bytes},
    findFile filename k (ls ++ [l]) = .ok (false, n) → (fields l).1.map atoi = some n := by
  have hcons : ∀ {ls : List Bytes} {k n : Int} {l : Bytes}, findFile filename k (l :: ls) = .ok (false, n) →
      (fields l).1 ≠ none ∧ findFile filename (atoi ((fields l).1.getD [])) ls = .ok (false, n) := by
    intro ls k n l h
    rw [findFile_cons] at h
    obtain ⟨found, htest, h⟩ := Except.bind_eq_ok.mp h
    refine ⟨?_, ?_⟩
    · intro hnone
      rw [hasName, hnone] at htest
      cases htest
    · cases found with
      | true => cases h
      | false => exact h
  intro ls
  induction ls with
  | nil =>
      intro k n l h
      obtain ⟨hfst, h⟩ := hcons h
      obtain ⟨t, ht⟩ := Option.ne_none_iff_exists'.mp hfst
      rw [ht] at h ⊢
      exact congrArg some (congrArg Prod.snd (Except.ok.inj h))
  | cons m ls ih => exact fun h => ih (hcons h).2

theorem createFile_keeps {fails : SysCall → Bool} {filename : Option Bytes} {id : Int}
    (hrun : createFile fails d filename = .ok (d', id)) (hcreat : fails .creat = false)
    (hapart : ∀ n, filename = some n → d.canon n ≠ d.canon filesTxt) (hid : fileId ≠ 0)
    (h : getFileName d fileId = .ok (some name)) : getFileName d' fileId = .ok (some name) := by
  obtain ⟨fp, hget, hlock, hfinds⟩ := getFileName_eq_some.mp h
  unfold createFile at hrun
  split at hrun
  · obtain ⟨rfl, -⟩ := Prod.mk.inj (Except.ok.inj hrun)
    exact h
  · simp only [hget, Option.getD_some, flock_eq_ok.mpr hlock, Except.ok_bind_eq, hcreat, Bool.false_eq_true,
      if_false] at hrun
    obtain ⟨⟨val, n⟩, hfind, hrun⟩ := Except.bind_eq_ok.mp hrun
    dsimp only at hrun
    split at hrun
    · obtain ⟨rfl, -⟩ := Prod.mk.inj (Except.ok.inj hrun)
      exact (getFileName_congr ((Disk.get_set_self ..).trans hget.symm)).trans h
    · next hval =>
        obtain rfl : val = false := (Bool.not_eq_true _).mp hval
        obtain ⟨fname, hfname, hrun⟩ := Except.bind_eq_ok.mp hrun
        obtain ⟨rfl, -⟩ := Prod.mk.inj (Except.ok.inj hrun)
        have hfilename : filename = some fname := by
          cases filename with
          | none => cases hfname
          | some t => rw [Except.ok.inj hfname]
        have hfile : ∀ text, (((d.set filesTxt (some fp)).creat fname).append filesTxt text).get filesTxt =
            some { fp with content := fp.content ++ text } := by
          intro text
          rw [Disk.append, Disk.get_set_self, Disk.creat, Disk.get_set_ne _ (by simpa using (hapart _ hfilename).symm),
            Disk.get_set_self]
          rfl
        refine getFileName_eq_some.mpr ⟨_, hfile _, hlock, ?_⟩
        · by_cases hended : Ended fp.content
          · rw [lines_append_ended hended]
            exact hfinds.append _
          · have hne : fp.content ≠ [] := by
              intro hnil
              rw [hnil] at hfinds
              cases hfinds
            obtain ⟨ls, l, hls, hl, happend⟩ := lines_append_open hne hended
            rw [hls] at hfinds hfind
            rw [happend]
            split
            · next hzero =>
                refine hfinds.replace_last (fun hlast => ?_) _
                rw [ListsId, findFile_last hfind, hzero] at hlast
                exact hid (Option.some.inj hlast).symm
            · rw [lines_line hl]
              exact hfinds.newline _

/-! ## Deleting a document -/

/-- What is written back of a line, and of the lines after it. -/
theorem writeBack_cons {id : Int} {n k : Nat} {l : Bytes} {ls : List Bytes} {text : Bytes}
    (h : writeBack id n k (l :: ls) = .ok text) : ∃ t rest, (fields l).1 = some t ∧ writeBack id n (k + 1) ls = .ok rest ∧
      text = if atoi t = id then rest
        else if k + 1 = n then terminateNull (cString l) ++ rest else cString l ++ rest := by
  rw [writeBack] at h
  obtain ⟨t, ht, h⟩ := Except.bind_eq_ok.mp h
  obtain ⟨rest, hrest, h⟩ := Except.bind_eq_ok.mp h
  refine ⟨t, rest, ?_, hrest, ?_⟩
  · cases hfst : (fields l).1 with
    | none => rw [hfst] at ht; cases ht
    | some t' => rw [hfst] at ht; rw [Except.ok.inj ht]
  · by_cases hid : atoi t = id
    · rw [if_neg (not_not.mpr hid)] at h
      rw [if_pos hid]
      exact (Except.ok.inj h).symm
    · rw [if_pos hid] at h
      rw [if_neg hid]
      by_cases hk : k + 1 = n
      · rw [if_neg (not_not.mpr hk)] at h
        rw [if_pos hk]
        exact (Except.ok.inj h).symm
      · rw [if_pos hk] at h
        rw [if_neg hk]
        exact (Except.ok.inj h).symm

theorem terminateNull_eq_self {l : Bytes} (hl : (10 : UInt8) ∉ l) : terminateNull l = l :=
  List.takeWhile_eq_self_iff.mpr (decide_ne_of_notMem hl)

/-- What is written back of the list has the name on the first line with the id. -/
theorem writeBack_finds {id : Int} {n : Nat} {ls : List Bytes} (hpieces : Pieces ls) (hne : fileId ≠ id) (hname : name ≠ []) :
    ∀ {k : Nat} {text : Bytes}, k + ls.length = n → (∀ l ∈ ls, (0 : UInt8) ∉ l) → Finds fileId name ls →
      writeBack id n k ls = .ok text → Finds fileId name (lines text) := by
  have hwritten : ∀ {l t : Bytes}, ListsId fileId l → (fields l).1 = some t → atoi t ≠ id := by
    intro l t hlists ht heq
    rw [ListsId, ht, Option.map_some, heq] at hlists
    exact hne (Option.some.inj hlists).symm
  induction hpieces with
  | nil =>
      intro k text _ _ h
      cases h
  | @last l hl hlne =>
      intro k text hn hnul hfinds hrun
      obtain ⟨t, rest, ht, hrest, rfl⟩ := writeBack_cons hrun
      obtain rfl := Except.ok.inj hrest
      rcases hfinds with ⟨hlists, hfn⟩ | ⟨-, -, h⟩
      · rw [if_neg (hwritten hlists ht), if_pos (by simpa using hn), cString_eq_self (hnul l (by simp)), terminateNull_eq_self hl,
          List.append_nil, lines_last hl hlne]
        exact .here hlists hfn
      · cases h
  | @line l ls hl _ ih =>
      intro k text hn hnul hfinds hrun
      obtain ⟨t, rest, ht, hrest, rfl⟩ := writeBack_cons hrun
      rw [List.length_cons] at hn
      rw [cString_eq_self (hnul _ (by simp)), terminateNull_newline, terminateNull_eq_self hl]
      have hlines : lines (l ++ [10] ++ rest) = (l ++ [10]) :: lines rest := by
        rw [List.append_assoc]
        exact lines_line hl rest
      rcases hfinds with ⟨hlists, hfn⟩ | ⟨hfst, hlists, hfinds⟩
      · rw [if_neg (hwritten hlists ht)]
        by_cases hlast : k + 1 = n
        · obtain rfl : ls = [] := List.length_eq_zero_iff.mp (by omega)
          obtain rfl := Except.ok.inj hrest
          obtain ⟨fn, hsnd, rfl⟩ := Option.map_eq_some_iff.mp hfn
          obtain ⟨hfst, hfn'⟩ := fields_of_newline hsnd hname
          have hlne : l ≠ [] := by
            rintro rfl
            cases hsnd
          rw [if_pos hlast, List.append_nil, lines_last hl hlne]
          exact .here (by rwa [ListsId, hfst]) hfn'
        · rw [if_neg hlast, hlines]
          exact .here hlists hfn
      · have hlast : k + 1 ≠ n := by
          rintro rfl
          obtain rfl : ls = [] := List.length_eq_zero_iff.mp (by omega)
          cases hfinds
        have hrest' := ih (by omega) (fun m hm => hnul m (by simp [hm])) hfinds hrest
        rw [if_neg hlast]
        split
        · exact hrest'
        · rw [hlines]
          exact .there hfst hlists hrest'

theorem removeFiles_get (fails : SysCall → Bool) {filename : Option Bytes}
    (hapart : ∀ n, filename = some n → d.canon n ≠ d.canon filesTxt) :
    (removeFiles fails d filename).1.get filesTxt = d.get filesTxt := by
  have hne := d.files_ne_temp
  unfold removeFiles
  cases filename with
  | none =>
      cases fails .removeTemp with
      | true => rfl
      | false => exact Disk.get_set_ne _ (by simpa using hne) _
  | some name =>
      have hname := (hapart name rfl).symm
      cases fails .removeTemp with
      | true =>
          simp only [if_true]
          split
          · rfl
          · exact Disk.get_set_ne _ hname _
      | false =>
          simp only [Bool.false_eq_true, if_false]
          split
          · exact Disk.get_set_ne _ (by simpa using hne) _
          · rw [Disk.get_set_ne _ (by simpa using hname), Disk.get_set_ne _ (by simpa using hne)]

theorem deleteFile_keeps {fails : SysCall → Bool} {id err : Int} (hrun : deleteFile fails d id = .ok (d', err))
    (hrename : fails .rename = false) (htemp : fails .fopenTemp = false) (hfiles : fails .fopenFiles = false)
    (hnul : ∀ fp, d.get filesTxt = some fp → (0 : UInt8) ∉ fp.content)
    (hapart : ∀ n, getFileName d id = .ok (some n) → d.canon n ≠ d.canon filesTxt) (hid : fileId ≠ id) (hname : name ≠ [])
    (h : getFileName d fileId = .ok (some name)) : getFileName d' fileId = .ok (some name) := by
  obtain ⟨fp, hget, hlock, hfinds⟩ := getFileName_eq_some.mp h
  have hne := d.files_ne_temp
  have htempget : (d.rename filesTxt filesTempTxt).get filesTempTxt = some fp := by
    rw [Disk.rename, Disk.get_set_ne _ (by simpa using hne.symm), Disk.get_set_self, hget]
  have hnew : (d.rename filesTxt filesTempTxt).get filesTxt = none := by rw [Disk.rename, Disk.get_set_self]
  simp only [deleteFile, hrename, htemp, hfiles, Bool.false_eq_true, if_false, htempget, flock_eq_ok.mpr hlock, hnew,
    Option.getD_none, flock_closed, Except.ok_bind_eq] at hrun
  obtain ⟨filename, hfilename, hrun⟩ := Except.bind_eq_ok.mp hrun
  obtain ⟨text, htext, hrun⟩ := Except.bind_eq_ok.mp hrun
  have hnul' : ∀ l ∈ lines fp.content, (0 : UInt8) ∉ l := by
    intro l hl h0
    refine hnul fp hget ?_
    rw [← lines_flatten fp.content]
    exact List.mem_flatten_of_mem hl h0
  have hfinds' := writeBack_finds (pieces_lines _) hid hname (Nat.zero_add _) hnul' hfinds htext
  have hremove : (removeFiles fails ((d.rename filesTxt filesTempTxt).set filesTxt
      (some { Inode.closed [] with content := text })) filename).1 = d' := congrArg Prod.fst (Except.ok.inj hrun)
  have hget' := removeFiles_get fails (d := (d.rename filesTxt filesTempTxt).set filesTxt
    (some { Inode.closed [] with content := text })) fun n hn => hapart n (hn ▸ hfilename)
  rw [hremove, Disk.get_set_self] at hget'
  exact getFileName_eq_some.mpr ⟨_, hget', rfl, hfinds'⟩

end

end CoEditor
