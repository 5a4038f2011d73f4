-- SUMMARY: What the registries and their callers must hold so that no call on them reads a NULL string.
import CoEditor.Buffer.Faults
import CoEditor.Registry.Files
import CoEditor.Registry.Users

/-!
# NULL strings in the registries

The calls on the registries scan a file line by line and stop at the line they
look for. `strtok` yields `NULL` for a field that is missing, so the lines that
a scan comes to decide whether it reads a `NULL`.
-/

namespace CoEditor

/-! ## Scans -/

/-- The lines that a loop reads which stops at the first hit. -/
def scanned (hit : Bytes → Prop) [DecidablePred hit] : List Bytes → List Bytes
  | [] => []
  | line :: lines => line :: if hit line then [] else scanned hit lines

theorem scanned_append {hit : Bytes → Prop} [DecidablePred hit] {pre post : List Bytes} {l : Bytes}
    (hpre : ∀ m ∈ pre, ¬ hit m) (hl : hit l) : scanned hit (pre ++ l :: post) = pre ++ [l] := by
  induction pre with
  | nil => simp [scanned, hl]
  | cons m pre ih =>
      have hm : ¬ hit m := hpre m (by simp)
      simp [scanned, hm, ih fun m hm => hpre m (by simp [hm])]

section
variable {σ α : Type} {f : σ → List Bytes → Except Fault α} {test : Bytes → Except Fault Bool}
  {found : σ → Bytes → α} {next : σ → Bytes → σ} {stop : σ → α} {reads hit : Bytes → Prop} [DecidablePred hit]

/-- A loop over lines reads no `NULL` if the test of each line does not that it comes to. -/
theorem scan_pointers (hnil : ∀ s, f s [] = .ok (stop s))
    (hcons : ∀ s l ls, f s (l :: ls) = (do if ← test l then pure (found s l) else f (next s l) ls))
    (hreads : ∀ l, reads l → test l = .ok (decide (hit l))) (hnull : ∀ l, ¬ reads l → test l = .error .nullStr) :
    ∀ (ls : List Bytes) (s : σ), Pointers (f s ls) ↔ ∀ l ∈ scanned hit ls, reads l := by
  intro ls
  induction ls with
  | nil =>
      intro s
      simp [hnil, scanned]
  | cons l ls ih =>
      intro s
      rw [hcons]
      by_cases hl : reads l
      · by_cases hh : hit l
        · simp [hreads l hl, scanned, hl, hh]
        · simp [hreads l hl, scanned, hl, hh, ih]
      · refine iff_of_false (fun h => ?_) fun h => hl (h l (by simp [scanned]))
        rw [hnull l hl] at h
        exact absurd (FaultsIn.error_iff.mp h) (by decide)

/-- Such a loop stops at the first hit, or it comes to the end. -/
theorem scan_cases (hnil : ∀ s, f s [] = .ok (stop s))
    (hcons : ∀ s l ls, f s (l :: ls) = (do if ← test l then pure (found s l) else f (next s l) ls))
    (hreads : ∀ l, reads l → test l = .ok (decide (hit l))) :
    ∀ (ls : List Bytes) (s : σ), (∀ l ∈ scanned hit ls, reads l) →
      (∃ pre l post, ls = pre ++ l :: post ∧ (∀ m ∈ pre, ¬ hit m) ∧ hit l ∧
        f s ls = .ok (found (pre.foldl next s) l)) ∨
      (∀ l ∈ ls, ¬ hit l) ∧ f s ls = .ok (stop (ls.foldl next s)) := by
  intro ls
  induction ls with
  | nil => exact fun s _ => .inr ⟨by simp, hnil s⟩
  | cons l ls ih =>
      intro s h
      have hl : f s (l :: ls) = if hit l then .ok (found s l) else f (next s l) ls := by
        rw [hcons, hreads l (h l (by simp [scanned]))]
        by_cases hh : hit l
        · simp [hh]
        · simp [hh]
      by_cases hh : hit l
      · exact .inl ⟨[], l, ls, rfl, by simp, hh, by rw [hl, if_pos hh]; rfl⟩
      · have hrest : ∀ m ∈ scanned hit ls, reads m := fun m hm => h m (by simp [scanned, hh, hm])
        rcases ih (next s l) hrest with ⟨pre, m, post, rfl, hpre, hm, hrun⟩ | ⟨hall, hrun⟩
        · refine .inl ⟨l :: pre, m, post, rfl, ?_, hm, by rw [hl, if_neg hh, hrun]; rfl⟩
          simpa [hh] using hpre
        · refine .inr ⟨?_, by rw [hl, if_neg hh, hrun]; rfl⟩
          simpa [hh] using hall

end

/-- A line with a second field has a first one. -/
theorem fields_fst {line : Bytes} (h : (fields line).2 ≠ none) : (fields line).1 ≠ none := by
  unfold fields at h ⊢
  split
  · next hnone => simp [hnone] at h
  · simp

/-! ## Accounts -/

/-- What `validate_user` reads on a line. -/
def AccountReads (name pass : Option Bytes) (line : Bytes) : Prop :=
  (fields line).2 ≠ none ∧ name ≠ none ∧ ((fields line).1 = name → pass ≠ none)

/-- The line is the account with that name and password. -/
def IsAccountOf (name pass : Option Bytes) (line : Bytes) : Prop :=
  (fields line).1 = name ∧ (fields line).2.map terminateNull = pass

instance (name pass : Option Bytes) : DecidablePred (IsAccountOf name pass) :=
  fun _ => inferInstanceAs (Decidable (_ ∧ _))

theorem isAccount_reads {name pass : Option Bytes} {line : Bytes} (h : AccountReads name pass line) :
    isAccount name pass line = .ok (decide (IsAccountOf name pass line)) := by
  obtain ⟨hpassword, hname, hpass⟩ := h
  obtain ⟨username, husername⟩ := Option.ne_none_iff_exists'.mp (fields_fst hpassword)
  obtain ⟨password, hpassword⟩ := Option.ne_none_iff_exists'.mp hpassword
  obtain ⟨name, rfl⟩ := Option.ne_none_iff_exists'.mp hname
  have hfields : fields line = (some username, some password) := Prod.ext husername hpassword
  simp only [isAccount, IsAccountOf, hfields, derefStr, isEquivalentStrings, strEq, Except.pure_eq_ok, Except.ok_bind_eq,
    decide_eq_true_eq, Option.some.injEq, Option.map_some]
  by_cases heq : name = username
  · rw [hfields] at hpass
    obtain ⟨pass, rfl⟩ := Option.ne_none_iff_exists'.mp (hpass (by rw [heq]))
    simp [heq, eq_comm]
  · simp [heq, Ne.symm heq]

theorem isAccount_null {name pass : Option Bytes} {line : Bytes} (h : ¬ AccountReads name pass line) :
    isAccount name pass line = .error .nullStr := by
  unfold isAccount
  rcases hfields : fields line with ⟨username, password⟩
  cases password with
  | none => rfl
  | some password =>
      have huser : username ≠ none := by
        have hfst : (fields line).1 ≠ none := fields_fst (by simp [hfields])
        rwa [hfields] at hfst
      obtain ⟨username, rfl⟩ := Option.ne_none_iff_exists'.mp huser
      cases name with
      | none => rfl
      | some name =>
          simp only [AccountReads, hfields, ne_eq, reduceCtorEq, not_false_eq_true, Option.some.injEq, true_and,
            not_forall, not_not] at h
          obtain ⟨rfl, rfl⟩ := h
          simp [derefStr, isEquivalentStrings, strEq]

theorem flock_pointers (fp : Inode) : Pointers (flock fp) := by
  unfold flock
  split
  · exact FaultsIn.error_iff.mpr (by decide)
  · exact .ok _

theorem flock_eq_ok {fp : Inode} : flock fp = .ok () ↔ fp.locked = false := by
  unfold flock
  cases fp.locked with
  | true => simp
  | false => simp

theorem pointers_bind {α β : Type} {x : Except Fault α} {f : α → Except Fault β} :
    Pointers (x >>= f) ↔ Pointers x ∧ ∀ a, x = .ok a → Pointers (f a) := FaultsIn.bind_iff

/-- A call that takes the lock on a file first. -/
theorem flock_bind_pointers {α : Type} {fp : Inode} {x : Except Fault α} :
    Pointers (do flock fp; x) ↔ (fp.locked = false → Pointers x) := by
  rw [pointers_bind]
  simp only [flock_pointers, true_and]
  exact ⟨fun h hlock => h () (flock_eq_ok.mpr hlock), fun h _ hflock => h (flock_eq_ok.mp hflock)⟩

theorem derefStr_bind_pointers {α : Type} {s : Option Bytes} {f : Bytes → Except Fault α} (hf : ∀ t, Pointers (f t)) :
    Pointers (derefStr s >>= f) ↔ s ≠ none := by
  cases s with
  | none => simp [derefStr, PointerFault]
  | some t => exact iff_of_true (hf t) (by simp)

/-- What `validate_user` needs so that it reads no `NULL`. -/
def AccountsRead (d : Disk) (payload : Option Bytes) : Prop :=
  ∀ fp, d.get userdataTxt = some fp → fp.locked = false →
    ∀ l ∈ scanned (IsAccountOf (credentials payload).1 (credentials payload).2) (lines fp.content),
      AccountReads (credentials payload).1 (credentials payload).2 l

theorem validateUser_pointers (d : Disk) (payload : Option Bytes) :
    Pointers (validateUser d payload) ↔ AccountsRead d payload := by
  unfold validateUser AccountsRead
  dsimp only
  cases d.get userdataTxt with
  | none => simp
  | some fp =>
      simp only [Option.some.injEq, forall_eq']
      rw [flock_bind_pointers]
      refine imp_congr_right fun _ => ?_
      exact scan_pointers (f := findUser _ _) (fun _ => rfl) (fun _ _ _ => rfl) (fun _ => isAccount_reads) (fun _ => isAccount_null) _ 1

theorem foldl_succ (ls : List Bytes) (k : Int) : ls.foldl (fun s _ => s + 1) k = k + ls.length := by
  induction ls generalizing k with
  | nil => simp
  | cons l ls ih =>
      rw [List.foldl_cons, ih, List.length_cons]
      push_cast
      omega

/-- The account that the payload names is on one of the first lines, if it is there. -/
def AccountWithin (n : Nat) (d : Disk) (payload : Option Bytes) : Prop :=
  ∀ fp, d.get userdataTxt = some fp → fp.locked = false →
    let isAccount := IsAccountOf (credentials payload).1 (credentials payload).2
    (∃ l ∈ lines fp.content, isAccount l) → (scanned isAccount (lines fp.content)).length ≤ n

/-- The ids that `validate_user` returns are numbers of lines. -/
theorem validateUser_le_iff {d : Disk} {payload : Option Bytes} (h : AccountsRead d payload) (n : Nat) :
    (∀ u, validateUser d payload = .ok u → u ≤ n) ↔ AccountWithin n d payload := by
  unfold validateUser AccountWithin
  unfold AccountsRead at h
  dsimp only
  cases hget : d.get userdataTxt with
  | none =>
      simp only [Except.pure_eq_ok, Except.ok.injEq, forall_eq', reduceCtorEq, false_imp_iff, implies_true, iff_true]
      omega
  | some fp =>
      simp only [Option.some.injEq, forall_eq']
      cases hlock : fp.locked with
      | true => simp [flock, hlock]
      | false =>
          rw [flock_eq_ok.mpr hlock, Except.ok_bind_eq]
          have hnil : ∀ k, findUser (credentials payload).1 (credentials payload).2 k [] = .ok (-1) := fun _ => rfl
          have hcons : ∀ k l ls, findUser (credentials payload).1 (credentials payload).2 k (l :: ls) = (do
              if ← isAccount (credentials payload).1 (credentials payload).2 l then pure k
              else findUser (credentials payload).1 (credentials payload).2 (k + 1) ls) := fun _ _ _ => rfl
          rcases scan_cases hnil hcons (fun _ => isAccount_reads) (lines fp.content) 1 (h fp hget hlock) with ⟨pre, l, post, hls, hpre, hl, hrun⟩ | ⟨hnone, hrun⟩
          · have hex : ∃ l ∈ lines fp.content, IsAccountOf (credentials payload).1 (credentials payload).2 l :=
              ⟨l, by simp [hls], hl⟩
            simp only [hrun, Except.ok.injEq, forall_eq', foldl_succ, forall_const, hex]
            rw [hls, scanned_append hpre hl]
            simp only [List.length_append, List.length_singleton]
            omega
          · simp only [hrun, Except.ok.injEq, forall_eq', forall_const]
            refine iff_of_true (by omega) ?_
            rintro ⟨l, hmem, hl⟩
            exact absurd hl (hnone l hmem)

/-! ## Names and fields -/

/-- Comparing two strings reads both. -/
theorem isEquivalentStrings_some (s t : Bytes) :
    isEquivalentStrings (some s) (some t) (some []) (some []) = .ok (decide (s = t)) := by
  by_cases h : s = t
  · simp [isEquivalentStrings, strEq, derefStr, h]
  · simp [isEquivalentStrings, strEq, derefStr, h]

theorem isEquivalentStrings_null {s t : Option Bytes} (h : ¬ (s ≠ none ∧ t ≠ none)) :
    isEquivalentStrings s t (some []) (some []) = .error .nullStr := by
  cases s with
  | none => rfl
  | some s =>
      cases t with
      | none => rfl
      | some t => simp at h

/-- What `validate_register` needs so that it reads no `NULL`. -/
def RegistrationReads (freed : Freed) (d : Disk) (payload : Option Bytes) : Prop :=
  let (name, pass) := credentials payload
  let fp := (d.get userdataTxt).getD (.closed [])
  fp.locked = false → name ≠ none ∧
    (∀ l ∈ scanned (fun l => (fields l).1 = name.map (freed.compared l)) (lines fp.content), (fields l).1 ≠ none) ∧
    ((∀ l ∈ lines fp.content, (fields l).1 ≠ name.map (freed.compared l)) → pass ≠ none)

theorem validateRegister_pointers (freed : Freed) (d : Disk) (payload : Option Bytes) :
    Pointers (validateRegister freed d payload) ↔ RegistrationReads freed d payload := by
  unfold validateRegister RegistrationReads
  rcases credentials payload with ⟨name, pass⟩
  dsimp only
  generalize (d.get userdataTxt).getD (.closed []) = fp
  rw [flock_bind_pointers]
  refine imp_congr_right fun _ => ?_
  have hnil : ∀ k : Int, findName freed name k [] = .ok (false, k) := fun _ => rfl
  have hcons : ∀ (k : Int) l ls, findName freed name k (l :: ls) = (do
      if ← isEquivalentStrings (name.map (freed.compared l)) (fields l).1 (some []) (some []) then pure (true, k)
      else findName freed name (k + 1) ls) := fun _ _ _ => rfl
  have hreads : ∀ l, name ≠ none ∧ (fields l).1 ≠ none → isEquivalentStrings (name.map (freed.compared l)) (fields l).1
      (some []) (some []) = .ok (decide ((fields l).1 = name.map (freed.compared l))) := by
    rintro l ⟨hname, hfst⟩
    obtain ⟨name, rfl⟩ := Option.ne_none_iff_exists'.mp hname
    obtain ⟨fst, hfst⟩ := Option.ne_none_iff_exists'.mp hfst
    simp [hfst, isEquivalentStrings_some, eq_comm]
  have hnull : ∀ l, ¬ (name ≠ none ∧ (fields l).1 ≠ none) →
      isEquivalentStrings (name.map (freed.compared l)) (fields l).1 (some []) (some []) = .error .nullStr := fun l h =>
    isEquivalentStrings_null fun ⟨hname, hfst⟩ => h ⟨fun hnone => hname (congrArg (Option.map _) hnone), hfst⟩
  have hwrite : ∀ (r : Bool × Int) (f : Bytes → Bytes → Disk × Int), Pointers (
      if r.1 then pure (d.set userdataTxt (some fp), -1)
      else do
        let name ← derefStr name
        let pass ← derefStr pass
        pure (f name pass)) ↔ (r.1 = false → name ≠ none ∧ pass ≠ none) := by
    rintro ⟨val, userId⟩ f
    cases val with
    | true => simp
    | false =>
        simp only [Bool.false_eq_true, if_false, forall_const]
        cases name with
        | none => simp [derefStr, PointerFault]
        | some name => simpa [derefStr] using derefStr_bind_pointers (s := pass) fun pass => .ok (f name pass)
  rw [pointers_bind, scan_pointers hnil hcons hreads hnull]
  simp only [hwrite]
  constructor
  · rintro ⟨hscan, hrest⟩
    rcases scan_cases hnil hcons hreads (lines fp.content) 1 hscan with
      ⟨pre, l, post, hls, hpre, hl, -⟩ | ⟨-, hrun⟩
    · have hmem : l ∈ scanned (fun l => (fields l).1 = name.map (freed.compared l)) (lines fp.content) := by
        rw [hls, scanned_append hpre hl]
        simp
      exact ⟨(hscan l hmem).1, fun m hm => (hscan m hm).2, fun hnone => absurd hl (hnone l (by simp [hls]))⟩
    · obtain ⟨hname, hpass⟩ := hrest _ hrun rfl
      exact ⟨hname, fun m hm => (hscan m hm).2, fun _ => hpass⟩
  · rintro ⟨hname, hscan, hpass⟩
    have hscan' : ∀ l ∈ scanned (fun l => (fields l).1 = name.map (freed.compared l)) (lines fp.content), name ≠ none ∧ (fields l).1 ≠ none :=
      fun l hl => ⟨hname, hscan l hl⟩
    refine ⟨hscan', fun r hr hval => ⟨hname, hpass ?_⟩⟩
    rcases scan_cases hnil hcons hreads (lines fp.content) 1 hscan' with ⟨_, _, _, -, -, -, hrun⟩ | ⟨hnone, -⟩
    · obtain rfl := Except.ok.inj (hrun.symm.trans hr)
      cases hval
    · exact hnone

/-! ## The list of documents -/

/-- What `createFile` needs so that it reads no `NULL`. -/
def CreationReads (fails : SysCall → Bool) (d : Disk) (filename : Option Bytes) : Prop :=
  let fp := (d.get filesTxt).getD (.closed [])
  fails .fopenFiles = false → fp.locked = false → filename ≠ none ∧
    ∀ l ∈ scanned (fun l => (fields l).2 = filename) (lines fp.content), (fields l).2 ≠ none

/-- The comparison on a line of the list. -/
def hasName (filename : Option Bytes) (line : Bytes) : Except Fault Bool := do
  let _ ← derefStr (fields line).1
  isEquivalentStrings (fields line).2 filename (some []) (some [])

theorem findFile_cons (filename : Option Bytes) (id : Int) (l : Bytes) (ls : List Bytes) :
    findFile filename id (l :: ls) = (do
      if ← hasName filename l then pure (true, atoi ((fields l).1.getD []))
      else findFile filename (atoi ((fields l).1.getD [])) ls) := by
  unfold hasName
  rw [findFile]
  cases (fields l).1 with
  | none => rfl
  | some s => rfl

theorem createFile_pointers (fails : SysCall → Bool) (d : Disk) (filename : Option Bytes) :
    Pointers (createFile fails d filename) ↔ CreationReads fails d filename := by
  unfold createFile CreationReads
  dsimp only
  cases fails .fopenFiles with
  | true => simp
  | false =>
      generalize (d.get filesTxt).getD (.closed []) = fp
      simp only [Bool.false_eq_true, if_false, forall_const]
      rw [flock_bind_pointers]
      refine imp_congr_right fun _ => ?_
      have hreads : ∀ l, (fields l).2 ≠ none ∧ filename ≠ none →
          hasName filename l = .ok (decide ((fields l).2 = filename)) := by
        rintro l ⟨hsnd, hname⟩
        obtain ⟨fst, hfst⟩ := Option.ne_none_iff_exists'.mp (fields_fst hsnd)
        obtain ⟨snd, hsnd⟩ := Option.ne_none_iff_exists'.mp hsnd
        obtain ⟨name, rfl⟩ := Option.ne_none_iff_exists'.mp hname
        simp [hasName, hfst, hsnd, derefStr, isEquivalentStrings_some]
      have hnull : ∀ l, ¬ ((fields l).2 ≠ none ∧ filename ≠ none) → hasName filename l = .error .nullStr := by
        intro l h
        unfold hasName
        cases (fields l).1 with
        | none => rfl
        | some s => exact isEquivalentStrings_null h
      have hnil : ∀ id : Int, findFile filename id [] = .ok (false, id) := fun _ => rfl
      rw [pointers_bind, scan_pointers hnil (findFile_cons filename) hreads hnull]
      constructor
      · rintro ⟨hscan, hrest⟩
        refine ⟨?_, fun m hm => (hscan m hm).1⟩
        rcases scan_cases hnil (findFile_cons filename) hreads (lines fp.content) 0 hscan with
          ⟨pre, l, post, hls, hpre, hl, -⟩ | ⟨-, hrun⟩
        · have hmem : l ∈ scanned (fun l => (fields l).2 = filename) (lines fp.content) := by
            rw [hls, scanned_append hpre hl]
            simp
          exact (hscan l hmem).2
        · refine (derefStr_bind_pointers fun name => ?_).mp (hrest _ hrun)
          split <;> exact .ok _
      · rintro ⟨hname, hscan⟩
        refine ⟨fun l hl => ⟨hscan l hl, hname⟩, fun r _ => ?_⟩
        split
        · exact .ok _
        · refine (derefStr_bind_pointers fun name => ?_).mpr hname
          split <;> exact .ok _

/-- The line is that of the document with this id. -/
def ListsId (fileId : Int) (line : Bytes) : Prop := (fields line).1.map atoi = some fileId

instance (fileId : Int) : DecidablePred (ListsId fileId) := fun _ => inferInstanceAs (Decidable (_ = _))

/-- The document with this id is on the list, if the list can be read. -/
def Listed (d : Disk) (fileId : Int) : Prop :=
  ∀ fp, d.get filesTxt = some fp → fp.locked = false → ∃ l ∈ lines fp.content, ListsId fileId l

theorem getFileList_pointers (d : Disk) (mem : Bytes) : Pointers (getFileList d mem) := by
  unfold getFileList
  split
  · exact FaultsIn.error_iff.mpr (by decide)
  · refine flock_bind_pointers.mpr fun _ => FaultsIn.foldlM (fun buf line => ?_) _ _
    unfold strcatLine
    split
    · exact .ok _
    · exact FaultsIn.error_iff.mpr (by decide)

/-- What `getFileName` needs so that it reads no `NULL`. -/
def NameReads (d : Disk) (fileId : Int) : Prop :=
  ∀ fp, d.get filesTxt = some fp → fp.locked = false → ∀ l ∈ scanned (ListsId fileId) (lines fp.content),
    (fields l).1 ≠ none ∧ (ListsId fileId l → (fields l).2 ≠ none)

/-- The test of `getFileName` on a line. -/
def hasId (fileId : Int) (line : Bytes) : Except Fault Bool := do
  let id := atoi (← derefStr (fields line).1)
  if id = fileId then do
    let _ ← derefStr (fields line).2
    pure true
  else pure false

theorem findFileName_cons (fileId : Int) (l : Bytes) (ls : List Bytes) :
    findFileName fileId (l :: ls) = (do
      if ← hasId fileId l then pure ((fields l).2.map terminateNull) else findFileName fileId ls) := by
  unfold hasId
  rw [findFileName]
  cases (fields l).1 with
  | none => rfl
  | some s =>
      simp only [derefStr, Except.pure_eq_ok, Except.ok_bind_eq]
      split
      · cases (fields l).2 with
        | none => rfl
        | some fn => rfl
      · rfl

theorem hasId_reads {fileId : Int} {l : Bytes} (h : (fields l).1 ≠ none ∧ (ListsId fileId l → (fields l).2 ≠ none)) :
    hasId fileId l = .ok (decide (ListsId fileId l)) := by
  obtain ⟨hfst, hsnd⟩ := h
  obtain ⟨fst, hfst⟩ := Option.ne_none_iff_exists'.mp hfst
  simp only [hasId, ListsId, hfst, Option.map_some, Option.some.injEq] at hsnd ⊢
  simp only [derefStr, Except.pure_eq_ok, Except.ok_bind_eq]
  by_cases hid : atoi fst = fileId
  · obtain ⟨snd, hsnd⟩ := Option.ne_none_iff_exists'.mp (hsnd hid)
    simp [hid, hsnd]
  · simp [hid]

theorem hasId_null {fileId : Int} {l : Bytes} (h : ¬ ((fields l).1 ≠ none ∧ (ListsId fileId l → (fields l).2 ≠ none))) :
    hasId fileId l = .error .nullStr := by
  unfold hasId
  unfold ListsId at h
  cases hfst : (fields l).1 with
  | none => rfl
  | some fst =>
      simp only [hfst, ne_eq, reduceCtorEq, not_false_eq_true, Option.map_some, Option.some.injEq, true_and, not_forall,
        not_not] at h
      obtain ⟨hid, hsnd⟩ := h
      simp [derefStr, hid, hsnd]

theorem getFileName_pointers (d : Disk) (fileId : Int) : Pointers (getFileName d fileId) ↔ NameReads d fileId := by
  unfold getFileName NameReads
  cases d.get filesTxt with
  | none => simp [PointerFault]
  | some fp =>
      simp only [Option.some.injEq, forall_eq']
      rw [flock_bind_pointers]
      refine imp_congr_right fun _ => ?_
      exact @scan_pointers Unit _ (fun _ => findFileName fileId) (hasId fileId) _ (fun _ _ => ()) _ _ (ListsId fileId) _
        (fun _ => rfl) (fun _ => findFileName_cons fileId) (fun _ => hasId_reads) (fun _ => hasId_null) _ ()

theorem getFileName_returns {d : Disk} {fileId : Int} {fp : Inode} (hget : d.get filesTxt = some fp)
    (hlock : fp.locked = false) (h : NameReads d fileId) :
    ∃ name, getFileName d fileId = .ok name ∧ (name ≠ none ↔ Listed d fileId) := by
  have hscan := h fp hget hlock
  simp only [getFileName, Listed, hget, flock_eq_ok.mpr hlock, hlock, Except.ok_bind_eq, Option.some.injEq, forall_eq',
    forall_const]
  rcases @scan_cases Unit _ (fun _ => findFileName fileId) (hasId fileId) _ (fun _ _ => ()) _ _ (ListsId fileId) _
    (fun _ => rfl) (fun _ => findFileName_cons fileId) (fun _ => hasId_reads) (lines fp.content) () hscan with
    ⟨pre, l, post, hls, hpre, hl, hrun⟩ | ⟨hnone, hrun⟩
  · have hmem : l ∈ scanned (ListsId fileId) (lines fp.content) := by
      rw [hls, scanned_append hpre hl]
      simp
    exact ⟨_, hrun, iff_of_true (by simpa using (hscan l hmem).2 hl) ⟨l, by simp [hls], hl⟩⟩
  · refine ⟨_, hrun, iff_of_false (by simp) ?_⟩
    rintro ⟨l, hmem, hl⟩
    exact hnone l hmem hl

theorem getFileName_open {d : Disk} {fileId : Int} {name : Option Bytes} (h : getFileName d fileId = .ok name) :
    ∃ fp, d.get filesTxt = some fp ∧ fp.locked = false := by
  unfold getFileName at h
  cases hget : d.get filesTxt with
  | none => rw [hget] at h; cases h
  | some fp =>
      rw [hget] at h
      obtain ⟨_, hflock, -⟩ := Except.bind_eq_ok.mp h
      exact ⟨fp, rfl, flock_eq_ok.mp hflock⟩

/-- The name of a document that is not listed is `NULL`. -/
theorem getFileName_listed {d : Disk} {fileId : Int} {name : Option Bytes} (h : getFileName d fileId = .ok name) :
    name ≠ none ↔ Listed d fileId := by
  obtain ⟨fp, hget, hlock⟩ := getFileName_open h
  have hreads : NameReads d fileId := (getFileName_pointers d fileId).mp fun e he => by rw [h] at he; cases he
  obtain ⟨name', hrun, hlisted⟩ := getFileName_returns hget hlock hreads
  rw [h] at hrun
  rwa [Except.ok.inj hrun]

/-! ## Deleting a document -/

theorem writeBack_pointers (fileId : Int) (n : Nat) : ∀ (ls : List Bytes) (k : Nat),
    Pointers (writeBack fileId n k ls) ↔ ∀ l ∈ ls, (fields l).1 ≠ none := by
  intro ls
  induction ls with
  | nil => exact fun k => by simp [writeBack]
  | cons l ls ih =>
      intro k
      rw [writeBack]
      cases hfst : (fields l).1 with
      | none => simp [derefStr, hfst, PointerFault]
      | some fst =>
          simp only [derefStr, Except.pure_eq_ok, Except.ok_bind_eq, pointers_bind, ih, List.mem_cons, forall_eq_or_imp,
            hfst, ne_eq, reduceCtorEq, not_false_eq_true, true_and, and_iff_left_iff_imp]
          intro _ rest _
          split
          · split <;> exact .ok _
          · exact .ok _

theorem writeBack_returns {fileId : Int} {n : Nat} : ∀ {ls : List Bytes} {k : Nat}, (∀ l ∈ ls, (fields l).1 ≠ none) →
    ∃ text, writeBack fileId n k ls = .ok text := by
  intro ls
  induction ls with
  | nil => exact fun _ => ⟨[], rfl⟩
  | cons l ls ih =>
      intro k h
      obtain ⟨fst, hfst⟩ := Option.ne_none_iff_exists'.mp (h l (by simp))
      obtain ⟨rest, hrest⟩ := ih (k := k + 1) fun m hm => h m (by simp [hm])
      rw [writeBack]
      simp only [hfst, derefStr, Except.pure_eq_ok, Except.ok_bind_eq, hrest]
      split
      · split <;> exact ⟨_, rfl⟩
      · exact ⟨_, rfl⟩

theorem removeFiles_nullPassed (fails : SysCall → Bool) (d : Disk) (filename : Option Bytes) :
    (removeFiles fails d filename).1.nullPassed = (d.nullPassed || filename.isNone) := by
  have htemp : (if fails .removeTemp then (d, -1) else (d.set filesTempTxt none, (0 : Int))).1.nullPassed = d.nullPassed := by
    split <;> rfl
  unfold removeFiles
  dsimp only
  generalize (if fails .removeTemp then (d, -1) else (d.set filesTempTxt none, (0 : Int))) = r at htemp
  cases filename with
  | none => simp
  | some name =>
      dsimp only
      split <;> simp [Disk.set, htemp]

/-- `deleteFile` comes to write back the list that it has put aside, which is `temp`. -/
def Rewrites (fails : SysCall → Bool) (d : Disk) (temp : Inode) : Prop :=
  let d' := if fails .rename then d else d.rename filesTxt filesTempTxt
  (∃ fp, d.get filesTxt = some fp ∧ fp.locked = false) ∧ fails .fopenTemp = false ∧ d'.get filesTempTxt = some temp ∧
    temp.locked = false ∧ fails .fopenFiles = false

theorem deleteFile_cases (fails : SysCall → Bool) {d : Disk} {fileId : Int} {filename : Option Bytes}
    (h : getFileName d fileId = .ok filename) :
    (∃ (temp : Inode) (d₁ : Bytes → Disk), Rewrites fails d temp ∧ (∀ text, (d₁ text).nullPassed = d.nullPassed) ∧ deleteFile fails d fileId = do
        let text ← writeBack fileId (lines temp.content).length 0 (lines temp.content)
        pure (removeFiles fails (d₁ text) filename)) ∨
      (∀ temp, ¬ Rewrites fails d temp) ∧ (deleteFile fails d fileId = .error .blocked ∨
        ∃ d' err, deleteFile fails d fileId = .ok (d', err) ∧ d'.nullPassed = d.nullPassed) := by
  have hopen := getFileName_open h
  unfold deleteFile Rewrites
  rw [h, Except.ok_bind_eq]
  dsimp only
  have hd' : (if fails .rename then d else d.rename filesTxt filesTempTxt).nullPassed = d.nullPassed := by
    split <;> rfl
  have hnew : (((if fails .rename then d else d.rename filesTxt filesTempTxt).get filesTxt).getD (.closed [])).locked =
      false := by
    obtain ⟨fp, hfp, hlock⟩ := hopen
    split
    · rw [hfp]
      exact hlock
    · rw [Disk.rename, Disk.get_set_self]
      rfl
  generalize hdisk : (if fails .rename then d else d.rename filesTxt filesTempTxt) = d' at hd' hnew
  cases hfopen : fails .fopenTemp with
  | true =>
      refine .inr ⟨?_, .inr ⟨d', -3, rfl, hd'⟩⟩
      rintro _ ⟨-, h, -⟩
      cases h
  | false =>
      simp only [Bool.false_eq_true, if_false]
      cases htemp : d'.get filesTempTxt with
      | none =>
          refine .inr ⟨?_, .inr ⟨d', -3, rfl, hd'⟩⟩
          rintro _ ⟨-, -, h, -⟩
          cases h
      | some temp =>
          dsimp only
          cases hlock : temp.locked with
          | true =>
              refine .inr ⟨?_, .inl (by simp [flock, hlock])⟩
              rintro temp' ⟨-, -, heq, hlock', -⟩
              obtain rfl := Option.some.inj heq
              rw [hlock] at hlock'
              cases hlock'
          | false =>
              rw [flock_eq_ok.mpr hlock]
              cases hfiles : fails .fopenFiles with
              | true =>
                  refine .inr ⟨?_, .inr ⟨_, -2, rfl, hd'⟩⟩
                  rintro _ ⟨-, -, -, -, h⟩
                  cases h
              | false =>
                  refine .inl ⟨temp, fun text => d'.set filesTxt (some { (d'.get filesTxt).getD (.closed []) with
                    content := text }), ⟨hopen, trivial, rfl, hlock, rfl⟩, fun _ => hd', ?_⟩
                  simp only [Except.ok_bind_eq, Bool.false_eq_true, if_false, flock_eq_ok.mpr hnew]

theorem Rewrites.unique {fails : SysCall → Bool} {d : Disk} {temp temp' : Inode} (h : Rewrites fails d temp)
    (h' : Rewrites fails d temp') : temp' = temp := Option.some.inj (h'.2.2.1.symm.trans h.2.2.1)

theorem Rewrites.getFileName {fails : SysCall → Bool} {d : Disk} {temp : Inode} (h : Rewrites fails d temp) {fileId : Int}
    (hreads : NameReads d fileId) : ∃ name, CoEditor.getFileName d fileId = .ok name := by
  obtain ⟨fp, hget, hlock⟩ := h.1
  obtain ⟨name, hok, -⟩ := getFileName_returns hget hlock hreads
  exact ⟨name, hok⟩

/-- `deleteFile` reads no `NULL` on the list. -/
def DeletionReads (fails : SysCall → Bool) (d : Disk) (fileId : Int) : Prop :=
  NameReads d fileId ∧ ∀ temp, Rewrites fails d temp → ∀ l ∈ lines temp.content, (fields l).1 ≠ none

theorem deleteFile_pointers (fails : SysCall → Bool) (d : Disk) (fileId : Int) :
    Pointers (deleteFile fails d fileId) ↔ DeletionReads fails d fileId := by
  unfold DeletionReads
  rw [← getFileName_pointers]
  cases hname : getFileName d fileId with
  | error e =>
      have hrun : deleteFile fails d fileId = .error e := by
        unfold deleteFile
        rw [hname]
        rfl
      simp only [hrun, FaultsIn.error_iff, iff_self_and]
      intro he temp hrw
      have hreads : NameReads d fileId := by
        rw [← getFileName_pointers, hname]
        exact FaultsIn.error_iff.mpr he
      obtain ⟨name, hok⟩ := hrw.getFileName hreads
      rw [hname] at hok
      cases hok
  | ok filename =>
      simp only [FaultsIn.ok, true_and]
      rcases deleteFile_cases fails hname with ⟨temp, d₁, hrw, -, hrun⟩ | ⟨hno, hrun | ⟨d', err, hrun, -⟩⟩
      · have hall : (∀ temp, Rewrites fails d temp → ∀ l ∈ lines temp.content, (fields l).1 ≠ none) ↔
            ∀ l ∈ lines temp.content, (fields l).1 ≠ none :=
          ⟨fun h => h temp hrw, fun h temp' hrw' => hrw.unique hrw' ▸ h⟩
        rw [hall, hrun, pointers_bind, writeBack_pointers]
        simp
      · simp [hrun, hno, PointerFault]
      · simp [hrun, hno]

theorem rewrites_unmarked {fails : SysCall → Bool} {d : Disk} {temp : Inode} :
    Rewrites fails { d with nullPassed := false } temp ↔ Rewrites fails d temp := by
  unfold Rewrites
  cases fails .rename with
  | true => exact Iff.rfl
  | false => exact Iff.rfl

theorem DeletionReads.unmarked {fails : SysCall → Bool} {d : Disk} {fileId : Int} (h : DeletionReads fails d fileId) :
    DeletionReads fails { d with nullPassed := false } fileId :=
  ⟨h.1, fun temp hrw => h.2 temp (rewrites_unmarked.mp hrw)⟩

/-- `deleteFile` passes the name of a document on to `remove`, unless the document is not on the list. -/
theorem deleteFile_nullPassed {fails : SysCall → Bool} {d : Disk} (hd : d.nullPassed = false) {fileId : Int}
    (h : DeletionReads fails d fileId) : (∀ d' err, deleteFile fails d fileId = .ok (d', err) → d'.nullPassed = false) ↔
      ((∃ temp, Rewrites fails d temp) → Listed d fileId) := by
  cases hname : getFileName d fileId with
  | error e =>
      have hrun : deleteFile fails d fileId = .error e := by
        unfold deleteFile
        rw [hname]
        rfl
      refine iff_of_true (by simp [hrun]) ?_
      rintro ⟨temp, hrw⟩
      obtain ⟨name, hok⟩ := hrw.getFileName h.1
      rw [hname] at hok
      cases hok
  | ok filename =>
      rcases deleteFile_cases fails hname with ⟨temp, d₁, hrw, hd₁, hrun⟩ | ⟨hno, hrun | ⟨d', err, hrun, hd'⟩⟩
      · obtain ⟨text, htext⟩ : ∃ text, writeBack fileId (lines temp.content).length 0 (lines temp.content) = .ok text :=
          writeBack_returns (h.2 temp hrw)
        have hnull := removeFiles_nullPassed fails (d₁ text) filename
        rw [hd₁, hd] at hnull
        rw [hrun, htext, Except.ok_bind_eq, ← getFileName_listed hname]
        constructor
        · rintro h - rfl
          exact absurd (hnull.symm.trans (h _ _ rfl)) (by simp)
        · intro hsome d' err heq
          have hfst : (removeFiles fails (d₁ text) filename).1 = d' := congrArg Prod.fst (Except.ok.inj heq)
          rw [← hfst, hnull]
          simpa using Option.isSome_iff_ne_none.mpr (hsome ⟨temp, hrw⟩)
      · exact iff_of_true (by simp [hrun]) fun ⟨temp, hrw⟩ => absurd hrw (hno temp)
      · refine iff_of_true ?_ fun ⟨temp, hrw⟩ => absurd hrw (hno temp)
        intro d'' err' heq
        rw [hrun] at heq
        obtain ⟨rfl, -⟩ := Prod.mk.inj (Except.ok.inj heq)
        exact hd'.trans hd

/-- `deleteFile` reports a name that is `NULL`. -/
theorem deleteFile_zero {fails : SysCall → Bool} {d d' : Disk} (hd : d.nullPassed = false) {fileId : Int}
    (h : deleteFile fails d fileId = .ok (d', 0)) : d'.nullPassed = false := by
  obtain ⟨filename, hname, -⟩ := Except.bind_eq_ok.mp h
  rcases deleteFile_cases fails hname with ⟨temp, d₁, -, hd₁, hrun⟩ | ⟨-, hrun | ⟨d'', err, hrun, hd'⟩⟩
  · obtain ⟨text, -, hremove⟩ := Except.bind_eq_ok.mp (hrun.symm.trans h)
    have hremove : removeFiles fails (d₁ text) filename = (d', 0) := Except.ok.inj hremove
    have hnull := removeFiles_nullPassed fails (d₁ text) filename
    rw [hremove, hd₁, hd] at hnull
    cases filename with
    | none => cases congrArg Prod.snd hremove
    | some name => exact hnull
  · cases hrun.symm.trans h
  · obtain ⟨rfl, -⟩ := Prod.mk.inj (Except.ok.inj (hrun.symm.trans h))
    exact hd'.trans hd

theorem validateRegister_nullPassed {freed : Freed} {d d' : Disk} {payload : Option Bytes} {u : Int}
    (h : validateRegister freed d payload = .ok (d', u)) : d'.nullPassed = d.nullPassed := by
  obtain ⟨fp, rfl⟩ := validateRegister_writes h
  rfl

theorem createFile_nullPassed {fails : SysCall → Bool} {d d' : Disk} {filename : Option Bytes} {id : Int}
    (h : createFile fails d filename = .ok (d', id)) : d'.nullPassed = d.nullPassed := by
  unfold createFile at h
  split at h
  · obtain ⟨rfl, -⟩ := Prod.mk.inj (Except.ok.inj h)
    rfl
  · obtain ⟨_, -, h⟩ := Except.bind_eq_ok.mp h
    obtain ⟨⟨val, fileId⟩, -, h⟩ := Except.bind_eq_ok.mp h
    dsimp only at h
    split at h
    · obtain ⟨rfl, -⟩ := Prod.mk.inj (Except.ok.inj h)
      rfl
    · obtain ⟨name, -, h⟩ := Except.bind_eq_ok.mp h
      split at h
      · obtain ⟨rfl, -⟩ := Prod.mk.inj (Except.ok.inj h)
        rfl
      · obtain ⟨rfl, -⟩ := Prod.mk.inj (Except.ok.inj h)
        rfl

end CoEditor
