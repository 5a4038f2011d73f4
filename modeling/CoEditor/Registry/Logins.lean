-- SUMMARY: Logins are sound exactly if every account is first read on the line of its own registration.
import CoEditor.Registry.Names

/-!
# Logins

A name or a password may hold colons, and then the two fields of its line are
another account. What `validate_register` writes is read from memory that it
has freed, and may be anything. `validate_user` admits the account that it
reads.
-/

namespace CoEditor

/-! ## Accounts as they are read -/

/-- The account that `validate_user` finds on a line; it crashes on a line without one. -/
def readAccount (line : Bytes) : Option Account :=
  match fields line with
  | (some username, some password) => some (username, terminateNull password)
  | _ => none

/-- The accounts on the lines before the first crash. -/
def readAccounts : List Bytes → List Account
  | [] => []
  | line :: lines =>
      match readAccount line with
      | some a => a :: readAccounts lines
      | none => []

theorem isAccount_eq (name pass line : Bytes) : isAccount (some name) (some pass) line =
    match readAccount line with
    | some a => .ok (decide (a = (name, pass)))
    | none => .error .nullStr := by
  unfold isAccount readAccount
  rcases hfields : fields line with ⟨username, password⟩
  cases password with
  | none => cases username <;> rfl
  | some password =>
      cases username with
      | none =>
          have hfst : (fields line).1 ≠ none := fields_fst (by simp [hfields])
          exact absurd (congrArg Prod.fst hfields) hfst
      | some username =>
          simp only [derefStr, isEquivalentStrings, strEq, Except.pure_eq_ok, Except.ok_bind_eq, Prod.mk.injEq]
          by_cases hname : name = username
          · simp [hname, eq_comm]
          · simp [hname, Ne.symm hname]

/-- An id is that of the first account that fits. -/
theorem findUser_eq_ok {name pass : Bytes} {u : Int} (hu : 0 ≤ u) : ∀ {ls : List Bytes} {k : Int}, 0 < k →
    (findUser (some name) (some pass) k ls = .ok u ↔
      ∃ i : Nat, (readAccounts ls).findIdx? (· = (name, pass)) = some i ∧ u = k + i) := by
  intro ls
  induction ls with
  | nil =>
      intro k hk
      simp only [findUser, readAccounts, Except.pure_eq_ok, Except.ok.injEq, List.findIdx?_nil, reduceCtorEq,
        false_and, exists_false, iff_false]
      omega
  | cons l ls ih =>
      intro k hk
      rw [findUser, isAccount_eq, readAccounts]
      cases readAccount l with
      | none => simp
      | some a =>
          simp only [Except.ok_bind_eq, decide_eq_true_eq, List.findIdx?_cons]
          by_cases ha : a = (name, pass)
          · simp [ha, eq_comm]
          · simp only [ha, if_false, ih (k := k + 1) (by omega), Option.map_eq_some_iff]
            constructor
            · rintro ⟨i, hi, rfl⟩
              exact ⟨i + 1, ⟨i, hi, rfl⟩, by push_cast; omega⟩
            · rintro ⟨i, ⟨j, hj, rfl⟩, rfl⟩
              exact ⟨j, hj, by push_cast; omega⟩

/-- An account that is on the list of those read was read on its line. -/
theorem readAccounts_getElem? {a : Account} : ∀ {ls : List Bytes} {i : Nat}, (readAccounts ls)[i]? = some a →
    ∃ l, ls[i]? = some l ∧ readAccount l = some a := by
  intro ls
  induction ls with
  | nil => exact fun h => nomatch h
  | cons l ls ih =>
      intro i h
      rw [readAccounts] at h
      cases hl : readAccount l with
      | none =>
          rw [hl] at h
          cases h
      | some b =>
          rw [hl] at h
          cases i with
          | zero => exact ⟨l, rfl, hl.trans h⟩
          | succ i => exact ih h

/-- All lines up to one that was read were read. -/
theorem getElem?_readAccounts {ls : List Bytes} {i j : Nat} {a : Account} {l : Bytes} (hi : i < (readAccounts ls).length)
    (hji : j ≤ i) (hl : ls[j]? = some l) (ha : readAccount l = some a) : (readAccounts ls)[j]? = some a := by
  obtain ⟨l', hl', hread⟩ := readAccounts_getElem? (List.getElem?_eq_getElem (Nat.lt_of_le_of_lt hji hi))
  obtain rfl := Option.some.inj (hl.symm.trans hl')
  rw [List.getElem?_eq_getElem (Nat.lt_of_le_of_lt hji hi)]
  exact hread.symm.trans ha

theorem strtok_eq_some {s t rest : Bytes} (h : strtok s = some (t, rest)) :
    ch ':' ∉ t ∧ ∀ c, c ∉ s → c ∉ t ∧ c ∉ rest := by
  unfold strtok at h
  split at h
  · cases h
  · next c u hu =>
      obtain ⟨rfl, rfl⟩ := Prod.mk.inj (Option.some.inj h)
      have hsub : ∀ x ∈ c :: u, x ∈ s := fun x hx => (List.dropWhile_sublist _).mem (hu ▸ hx)
      refine ⟨fun hmem => by simpa using List.mem_takeWhile_imp hmem, fun x hx => ⟨?_, ?_⟩⟩
      · exact fun hmem => hx (hsub x ((List.takeWhile_sublist _).mem hmem))
      · exact fun hmem => hx (hsub x ((List.dropWhile_sublist _).mem (List.mem_of_mem_drop hmem)))

/-- What is read has no colons. -/
theorem readAccount_fields {l : Bytes} {a : Account} (h : readAccount l = some a) :
    ch ':' ∉ a.1 ∧ ch ':' ∉ a.2 ∧ (0 : UInt8) ∉ a.1 ∧ (0 : UInt8) ∉ a.2 := by
  unfold readAccount at h
  split at h
  · next username password hfields =>
      obtain rfl := Option.some.inj h
      unfold fields at hfields
      split at hfields
      · cases hfields
      · next t rest ht =>
          obtain ⟨hfst, hsnd⟩ := Prod.mk.inj hfields
          obtain rfl := Option.some.inj hfst
          obtain ⟨⟨t', rest'⟩, ht', rfl⟩ := Option.map_eq_some_iff.mp hsnd
          obtain ⟨hcolon, hkeep⟩ := strtok_eq_some ht
          obtain ⟨hcolon', hkeep'⟩ := strtok_eq_some ht'
          obtain ⟨hnul, hrest⟩ := hkeep 0 (zero_notMem_cString l)
          have hsub : ∀ x, x ∉ t' → x ∉ terminateNull t' := fun x hx hmem => hx ((List.takeWhile_sublist _).mem hmem)
          exact ⟨hcolon, hsub _ hcolon', hnul, hsub _ (hkeep' 0 hrest).1⟩
  · cases h

theorem readAccount_line {a : Account} (ha : IsField a.1 ∧ IsField a.2) {l : Bytes}
    (hl : l = a.line ∨ l = a.line ++ [10]) : readAccount l = some a := by
  obtain ⟨u, hfields, hu⟩ := fields_entry ha.1 ha.2 hl
  simp only [readAccount, hfields, hu]

/-! ## Histories of registrations -/

/-- The payload of a `REGISTER`, for any name and password that can be typed. -/
structure SignUp where
  payload : Bytes
  name : Bytes
  pass : Bytes
  parsed : credentials (some payload) = (some name, some pass)
  name_typed : IsTyped name
  pass_typed : IsTyped pass

/-- Calls of `validate_register` that return lead from one disk to the other; what they read of the strings they have freed meets
    `ok`. The log holds the accounts that were accepted, with the ids returned for them. -/
inductive SignedUp (ok : Freed → Prop) (d : Disk) : List (Account × Int) → Disk → Prop where
  | start : SignedUp ok d [] d
  | accepted {log : List (Account × Int)} {d₁ d₂ : Disk} {id : Int} {freed : Freed} (r : SignUp) : SignedUp ok d log d₁ →
      ok freed → validateRegister freed d₁ (some r.payload) = .ok (d₂, id) → 0 ≤ id →
      SignedUp ok d (log ++ [((r.name, r.pass), id)]) d₂
  | refused {log : List (Account × Int)} {d₁ d₂ : Disk} {id : Int} {freed : Freed} (r : SignUp) : SignedUp ok d log d₁ →
      ok freed → validateRegister freed d₁ (some r.payload) = .ok (d₂, id) → id < 0 → SignedUp ok d log d₂

/-- Text `s` holds the accounts `accts`, one a line, and its last line has no newline. -/
structure Written (accts : List Account) (s : Bytes) : Prop where
  spells : Spells (accts.map Account.line) s
  typed : ∀ a ∈ accts, IsTyped a.1 ∧ IsTyped a.2
  unended : ¬ Ended s

theorem Written.length {accts : List Account} {s : Bytes} (h : Written accts s) : (lines s).length = accts.length := by
  rw [← List.Forall₂.length_eq h.spells, List.length_map]

theorem Written.line {accts : List Account} {s : Bytes} (h : Written accts s) {i : Nat} {a : Account}
    (ha : accts[i]? = some a) : ∃ l, (lines s)[i]? = some l ∧ (l = a.line ∨ l = a.line ++ [10]) := by
  obtain ⟨hi, rfl⟩ := List.getElem?_eq_some_iff.mp ha
  have hi' : i < (lines s).length := h.length ▸ hi
  have hs : List.Forall₂ (fun a l => l = Account.line a ∨ l = Account.line a ++ [10]) accts (lines s) := by
    have hs := h.spells
    rwa [Spells, List.forall₂_map_left_iff] at hs
  exact ⟨(lines s)[i], List.getElem?_eq_getElem hi', hs.get hi hi'⟩

theorem Written.append {accts : List Account} {s : Bytes} (h : Written accts s) {a : Account}
    (ha : IsTyped a.1 ∧ IsTyped a.2) :
    Written (accts ++ [a]) (if s = [] then entry a.1 a.2 else s ++ 10 :: entry a.1 a.2) where
  spells := by
    rw [List.map_append]
    exact h.spells.append h.unended (newline_notMem_entry ha.1.notMem.1 ha.2.notMem.1) (entry_ne_nil a.1 a.2)
  typed := by
    intro b hb
    rcases List.mem_append.mp hb with hb | hb
    · exact h.typed b hb
    · exact List.mem_singleton.mp hb ▸ ha
  unended := not_ended_append ha.2.1 ha.2.notMem.1

/-- A name that was not found was compared on every line. -/
theorem findName_false {freed : Freed} {name : Option Bytes} : ∀ {ls : List Bytes} {k m : Int}, findName freed name k ls = .ok (false, m) →
    m = k + ls.length := by
  intro ls
  induction ls with
  | nil =>
      intro k m h
      obtain ⟨-, rfl⟩ := Prod.mk.inj (Except.ok.inj h)
      simp
  | cons l ls ih =>
      intro k m h
      obtain ⟨found, -, h⟩ := Except.bind_eq_ok.mp h
      cases found with
      | true => cases h
      | false =>
          rw [ih h, List.length_cons]
          push_cast
          omega

/-- A registration leaves the accounts alone or adds one, and its id is the number of the new line. -/
theorem validateRegister_cases {freed : Freed} {d d' : Disk} {f : Bytes} (hfile : d.get userdataTxt = some (.closed f))
    {payload : Bytes} {name pass : Bytes} {id : Int} (hparsed : credentials (some payload) = (some name, some pass))
    (h : validateRegister freed d (some payload) = .ok (d', id)) :
    id = -1 ∧ d'.get userdataTxt = some (.closed f) ∨
      id = (lines f).length + 1 ∧ ∃ a, a = freed.written (name, pass) ∧
        d'.get userdataTxt = some (.closed (if f = [] then entry a.1 a.2 else f ++ 10 :: entry a.1 a.2)) := by
  have hlines : lines (Inode.closed f).content = lines f := rfl
  simp only [validateRegister, hparsed, hfile, Option.getD_some, flock_closed, Except.ok_bind_eq, hlines] at h
  obtain ⟨⟨val, m⟩, hfind, h⟩ := Except.bind_eq_ok.mp h
  cases val with
  | true =>
      obtain ⟨rfl, rfl⟩ := Prod.mk.inj (Except.ok.inj h)
      exact .inl ⟨rfl, Disk.get_set_self ..⟩
  | false =>
      obtain rfl := findName_false hfind
      obtain ⟨rfl, rfl⟩ := Prod.mk.inj (Except.ok.inj h)
      refine .inr ⟨by omega, _, rfl, ?_⟩
      have hempty : (1 : Int) + (lines f).length = 1 ↔ f = [] := by
        rw [← lines_eq_nil, ← List.length_eq_zero_iff]
        omega
      rw [Disk.get_set_self, ← append_account]
      simp only [hempty]
      rfl

section
variable {ok : Freed → Prop} {d₀ d : Disk} {log : List (Account × Int)}

/-- Whatever is written, the file is there, and nobody holds its lock. -/
theorem SignedUp.file (h : SignedUp ok d₀ log d) (hfile : d₀.get userdataTxt = some (.closed [])) :
    ∃ s, d.get userdataTxt = some (.closed s) := by
  induction h with
  | start => exact ⟨[], hfile⟩
  | accepted r _ _ hrun _ ih | refused r _ _ hrun _ ih =>
      obtain ⟨s, hs⟩ := ih
      rcases validateRegister_cases hs r.parsed hrun with ⟨-, hs'⟩ | ⟨-, a, -, hs'⟩
      · exact ⟨_, hs'⟩
      · exact ⟨_, hs'⟩

/-- As long as the strings stay as they were, the log numbers the lines of the file. -/
theorem SignedUp.written (h : SignedUp ok d₀ log d) (hok : ∀ freed, ok freed → freed = .intact)
    (hfile : d₀.get userdataTxt = some (.closed [])) :
    ∃ accts s, log = numbered accts ∧ d.get userdataTxt = some (.closed s) ∧ Written accts s := by
  induction h with
  | start => exact ⟨[], [], rfl, hfile, ⟨Spells.nil, by simp, by decide⟩⟩
  | accepted r _ hfreed hrun hid ih =>
      obtain rfl := hok _ hfreed
      obtain ⟨accts, s, rfl, hs, hw⟩ := ih
      rcases validateRegister_cases hs r.parsed hrun with ⟨rfl, -⟩ | ⟨rfl, a, rfl, hs'⟩
      · exact absurd hid (by decide)
      · refine ⟨accts ++ [(r.name, r.pass)], _, ?_, hs', hw.append ⟨r.name_typed, r.pass_typed⟩⟩
        rw [numbered_append, hw.length]
  | refused r _ _ hrun hid ih =>
      obtain ⟨accts, s, rfl, hs, hw⟩ := ih
      rcases validateRegister_cases hs r.parsed hrun with ⟨-, hs'⟩ | ⟨rfl, -⟩
      · exact ⟨accts, s, rfl, hs', hw⟩
      · omega

end

/-! ## Soundness -/

/-- Whoever logs in was registered, and gets the id of the registration. -/
def SoundLogins (log : List (Account × Int)) (d : Disk) : Prop :=
  ∀ payload name pass u, credentials payload = (some name, some pass) → validateUser d payload = .ok u → 0 ≤ u →
    ((name, pass), u) ∈ log

/-- The first line of `userdata.txt` that is read as an account, of the lines before the first one without two fields, has the
    number that was returned when this account was registered. -/
def ReadsOwn (log : List (Account × Int)) (d : Disk) : Prop :=
  ∀ fp, d.get userdataTxt = some fp → ∀ (i : Nat) a, (readAccounts (lines fp.content)).findIdx? (· = a) = some i →
    (a, (i : Int) + 1) ∈ log

/-- Every account that is read from `userdata.txt`, line by line up to the first line without two fields, was
    registered on this line or on one before. -/
def ReadsRegistered (log : List (Account × Int)) (d : Disk) : Prop :=
  ∀ fp, d.get userdataTxt = some fp → ∀ (i : Nat) a, (readAccounts (lines fp.content))[i]? = some a →
    ∃ u ≤ (i : Int) + 1, (a, u) ∈ log

theorem mem_numbered {accts : List Account} {a : Account} {u : Int} :
    (a, u) ∈ numbered accts ↔ ∃ i : Nat, accts[i]? = some a ∧ u = i + 1 := by
  rw [numbered, List.mem_mapIdx]
  constructor
  · rintro ⟨i, hi, h⟩
    obtain ⟨rfl, rfl⟩ := Prod.mk.inj h
    exact ⟨i, List.getElem?_eq_getElem hi, rfl⟩
  · rintro ⟨i, ha, rfl⟩
    obtain ⟨hi, rfl⟩ := List.getElem?_eq_some_iff.mp ha
    exact ⟨i, hi, rfl⟩

section
variable {accts : List Account} {s : Bytes} {d : Disk}

theorem validateUser_eq_ok (hfile : d.get userdataTxt = some (.closed s)) {payload : Option Bytes} {name pass : Bytes}
    (hparsed : credentials payload = (some name, some pass)) {u : Int} (hu : 0 ≤ u) : validateUser d payload = .ok u ↔
      ∃ i : Nat, (readAccounts (lines s)).findIdx? (· = (name, pass)) = some i ∧ u = i + 1 := by
  rw [validateUser_eq hfile hparsed, findUser_eq_ok hu (by decide)]
  simp only [Int.add_comm]

/-- A login as an account that is read, which finds its first line. -/
theorem exists_login (hfile : d.get userdataTxt = some (.closed s)) {i : Nat} {a : Account}
    (ha : (readAccounts (lines s)).findIdx? (· = a) = some i) :
    ∃ payload, credentials payload = (some a.1, some a.2) ∧ validateUser d payload = .ok (i + 1) := by
  obtain ⟨hi, hget, -⟩ := List.findIdx?_eq_some_iff_getElem.mp ha
  obtain ⟨l, -, hread⟩ := readAccounts_getElem? (List.getElem?_eq_getElem hi)
  rw [of_decide_eq_true hget] at hread
  obtain ⟨-, -, hname, hpass⟩ := readAccount_fields hread
  have hparsed := credentials_serialize hname hpass
  exact ⟨_, hparsed, (validateUser_eq_ok hfile hparsed (by omega)).mpr ⟨i, ha, rfl⟩⟩

/-- An account that is read on a line is first read on that line or before. -/
theorem findIdx?_readAccounts {i : Nat} {a : Account} (ha : (readAccounts (lines s))[i]? = some a) :
    ∃ j ≤ i, (readAccounts (lines s)).findIdx? (· = a) = some j := by
  obtain ⟨hi, hget⟩ := List.getElem?_eq_some_iff.mp ha
  have hmem : a ∈ readAccounts (lines s) := hget ▸ List.getElem_mem hi
  obtain ⟨j, hj⟩ : ∃ j, (readAccounts (lines s)).findIdx? (· = a) = some j := by
    rw [← Option.isSome_iff_exists, List.findIdx?_isSome]
    exact List.any_eq_true.mpr ⟨a, hmem, by simp⟩
  refine ⟨j, ?_, hj⟩
  by_contra hlt
  obtain ⟨hjlt, -, hfirst⟩ := List.findIdx?_eq_some_iff_getElem.mp hj
  exact hfirst i (by omega) (by simpa using hget)

/-- A line that reads as an account registered before it is not the first one that does. -/
theorem Written.first (h : Written accts s) {i j : Nat} {a : Account}
    (hi : (readAccounts (lines s)).findIdx? (· = a) = some i) (hj : accts[j]? = some a) (hji : j ≤ i) : j = i := by
  obtain ⟨hlt, hread, hfirst⟩ := List.findIdx?_eq_some_iff_getElem.mp hi
  have hread : (readAccounts (lines s))[i] = a := of_decide_eq_true hread
  obtain ⟨l', -, hl'⟩ := readAccounts_getElem? (List.getElem?_eq_getElem hlt)
  obtain ⟨hname, hpass, -, -⟩ := readAccount_fields (hl'.trans (congrArg some hread))
  have htyped := h.typed _ (List.mem_of_getElem? hj)
  obtain ⟨l, hl, hline⟩ := h.line hj
  have hfield := readAccount_line ⟨htyped.1.isField hname, htyped.2.isField hpass⟩ hline
  have hread_j := getElem?_readAccounts hlt hji hl hfield
  by_contra hne
  obtain ⟨hjlt, hget⟩ := List.getElem?_eq_some_iff.mp hread_j
  exact hfirst j (by omega) (by simpa using hget)

end

/-- Logins are sound exactly if the first line of an account is that of its registration. -/
theorem soundLogins_iff {log : List (Account × Int)} {s : Bytes} {d : Disk} (hs : d.get userdataTxt = some (.closed s)) :
    SoundLogins log d ↔ ReadsOwn log d := by
  constructor
  · intro hsound fp hfp i a ha
    obtain rfl := Option.some.inj (hs.symm.trans hfp)
    obtain ⟨payload, hparsed, hrun⟩ := exists_login hs ha
    exact hsound payload a.1 a.2 _ hparsed hrun (by omega)
  · intro hreads payload name pass u hparsed hrun hu
    obtain ⟨i, hi, rfl⟩ := (validateUser_eq_ok hs hparsed hu).mp hrun
    exact hreads _ hs i _ hi

/-- Where the lines are those of the registrations, it is enough that each was registered by then. -/
theorem Written.readsOwn_iff {accts : List Account} {s : Bytes} {d : Disk} (hw : Written accts s)
    (hs : d.get userdataTxt = some (.closed s)) : ReadsOwn (numbered accts) d ↔ ReadsRegistered (numbered accts) d := by
  constructor
  · intro hreads fp hfp i a ha
    obtain rfl := Option.some.inj (hs.symm.trans hfp)
    obtain ⟨j, hji, hj⟩ := findIdx?_readAccounts ha
    exact ⟨j + 1, by omega, hreads _ hs j a hj⟩
  · intro hreads fp hfp i a hfirst
    obtain rfl := Option.some.inj (hs.symm.trans hfp)
    have ha : (readAccounts (lines s)).findIdx? (· = a) = some i := hfirst
    obtain ⟨hlt, hget, -⟩ := List.findIdx?_eq_some_iff_getElem.mp ha
    have hread : (readAccounts (lines s))[i]? = some a := by
      rw [List.getElem?_eq_getElem hlt]
      exact congrArg some (of_decide_eq_true hget)
    obtain ⟨v, hv, hmem⟩ := hreads _ hs i _ hread
    obtain ⟨j, hj, rfl⟩ := mem_numbered.mp hmem
    obtain rfl := hw.first ha hj (by omega)
    exact hmem

/-- Without colons every line reads as its account. -/
theorem SignedUp.readsRegistered {d₀ d : Disk} {log : List (Account × Int)} (h : SignedUp (· = .intact) d₀ log d)
    (hfile : d₀.get userdataTxt = some (.closed [])) (hcolon : ∀ x ∈ log, ch ':' ∉ x.1.1 ∧ ch ':' ∉ x.1.2) :
    ReadsRegistered log d := by
  obtain ⟨accts, s, rfl, hs, hw⟩ := h.written (fun _ hfreed => hfreed) hfile
  intro fp hfp i a ha
  obtain rfl := Option.some.inj (hs.symm.trans hfp)
  obtain ⟨l, hl, hread⟩ := readAccounts_getElem? ha
  obtain ⟨hi, -⟩ := List.getElem?_eq_some_iff.mp hl
  have hi' : i < accts.length := hw.length ▸ hi
  obtain ⟨l', hl', hline⟩ := hw.line (List.getElem?_eq_getElem hi')
  obtain rfl := Option.some.inj (hl.symm.trans hl')
  have hmem : (accts[i], (i : Int) + 1) ∈ numbered accts := mem_numbered.mpr ⟨i, List.getElem?_eq_getElem hi', rfl⟩
  have htyped := hw.typed accts[i] (List.getElem_mem hi')
  have hfield := readAccount_line ⟨htyped.1.isField (hcolon _ hmem).1, htyped.2.isField (hcolon _ hmem).2⟩ hline
  obtain rfl := Option.some.inj (hread.symm.trans hfield)
  exact ⟨_, Int.le_refl _, hmem⟩

/-- The registration that a client sends for a name and a password in ASCII. -/
def SignUp.ofAscii (name pass : String) (hname : IsTyped (bytes name) ∧ (Utf8.decode (bytes name)).isSome)
    (hpass : IsTyped (bytes pass) ∧ (Utf8.decode (bytes pass)).isSome) : SignUp where
  payload := createLoginPayload (bytes name) (bytes pass)
  name := bytes name
  pass := bytes pass
  parsed := credentials_createLoginPayload ⟨hname.1.notMem.2, hname.2⟩ ⟨hpass.1.notMem.2, hpass.2⟩
  name_typed := hname.1
  pass_typed := hpass.1

/-- The first registration. -/
theorem SignedUp.first (freed : Freed) (r : SignUp) : ∃ d, SignedUp (· = freed) (.ofTexts [] []) [((r.name, r.pass), 1)] d ∧
    d.get userdataTxt = some (.closed (entry (freed.written (r.name, r.pass)).1 (freed.written (r.name, r.pass)).2)) := by
  have hfile : (Disk.ofTexts [] []).get userdataTxt = some (.closed []) := rfl
  obtain ⟨d, hrun⟩ : ∃ d, validateRegister freed (.ofTexts [] []) (some r.payload) = .ok (d, 1) := by
    refine ⟨(Disk.ofTexts [] []).set userdataTxt
      (some (.closed (entry (freed.written (r.name, r.pass)).1 (freed.written (r.name, r.pass)).2))), ?_⟩
    simp only [validateRegister, r.parsed, hfile, Option.getD_some, flock_closed, Except.ok_bind_eq]
    rfl
  rcases validateRegister_cases hfile r.parsed hrun with ⟨h, -⟩ | ⟨-, a, rfl, hs⟩
  · cases h
  · exact ⟨d, .accepted r .start rfl hrun (by decide), hs⟩

end CoEditor
