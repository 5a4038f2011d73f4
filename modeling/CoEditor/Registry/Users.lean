-- SUMMARY: The accounts in userdata.txt: validate_user, validate_register.
import CoEditor.Msg.Codec
import CoEditor.Registry.Disk

/-!
# Accounts

Every line of `userdata.txt` is an account, `name:pass`, and the number of the
line is the id of its user. Both calls count the lines by reading them.
-/

namespace CoEditor

/-- The name and the password in a payload. -/
def credentials (payload : Option Bytes) : Option Bytes × Option Bytes :=
  let o := jsonValueGetObject (payload.bind jsonParseDoubles)
  (jsonObjectGetString o (bytes "name"), jsonObjectGetString o (bytes "pass"))

/-- Is this line the account with that name and password? -/
def isAccount (name pass : Option Bytes) (line : Bytes) : Except Fault Bool := do
  let (username, password) := fields line
  let password ← derefStr password
  isEquivalentStrings name username pass (some (terminateNull password))

/-- The loop of `validate_user`. -/
def findUser (name pass : Option Bytes) (userId : Int) : List Bytes → Except Fault Int
  | [] => pure (-1)
  | line :: lines => do
      if ← isAccount name pass line then pure userId else findUser name pass (userId + 1) lines

/-- The id of a user with valid data, else `-1`. -/
def validateUser (d : Disk) (payload : Option Bytes) : Except Fault Int := do
  let (name, pass) := credentials payload
  match d.get userdataTxt with
  | none => pure (-2)
  | some fp => do
      flock fp
      findUser name pass 1 (lines fp.content)

/-- A name and its password. -/
abbrev Account := Bytes × Bytes

/-- What the memory of a tree that has been freed holds. -/
structure Freed where
  /-- What a name reads as while it is compared with a line. -/
  compared (line name : Bytes) : Bytes
  /-- What a name and a password read as while they are written. -/
  written : Account → Account

/-- Nothing has been written over the tree. -/
def Freed.intact : Freed where
  compared _ name := name
  written := id

@[simp] theorem Freed.intact_compared (line name : Bytes) : Freed.intact.compared line name = name := rfl

@[simp] theorem Freed.intact_written (a : Account) : Freed.intact.written a = a := rfl

/-- The loop of `validate_register`: is the name taken, and which line comes next? -/
def findName (freed : Freed) (name : Option Bytes) (userId : Int) : List Bytes → Except Fault (Bool × Int)
  | [] => pure (false, userId)
  | line :: lines => do
      if ← isEquivalentStrings (name.map (freed.compared line)) (fields line).1 (some []) (some []) then pure (true, userId)
      else findName freed name (userId + 1) lines

/-- The id of a newly registered user, else `-1`. The strings of the payload are read after the tree that
    holds them is freed. -/
def validateRegister (freed : Freed) (d : Disk) (payload : Option Bytes) : Except Fault (Disk × Int) := do
  let (name, pass) := credentials payload
  -- the file is created if it does not exist
  let fp := (d.get userdataTxt).getD (.closed [])
  flock fp
  let (val, userId) ← findName freed name 1 (lines fp.content)
  if val then pure (d.set userdataTxt (some fp), -1)
  else do
    let name ← derefStr name
    let pass ← derefStr pass
    let (name, pass) := freed.written (name, pass)
    let text := if userId = 1 then entry name pass else 10 :: entry name pass
    pure (d.set userdataTxt (some { fp with content := fp.content ++ text }), userId)

/-- A registration writes to the accounts only. -/
theorem validateRegister_writes {freed : Freed} {d d' : Disk} {payload : Option Bytes} {u : Int}
    (h : validateRegister freed d payload = .ok (d', u)) : ∃ fp, d' = d.set userdataTxt (some fp) := by
  obtain ⟨-, -, h⟩ := Except.bind_eq_ok.mp h
  obtain ⟨⟨val, userId⟩, -, h⟩ := Except.bind_eq_ok.mp h
  cases val with
  | true =>
      obtain ⟨rfl, -⟩ := Prod.mk.inj (Except.ok.inj h)
      exact ⟨_, rfl⟩
  | false =>
      obtain ⟨name, -, h⟩ := Except.bind_eq_ok.mp h
      obtain ⟨pass, -, h⟩ := Except.bind_eq_ok.mp h
      obtain ⟨rfl, -⟩ := Prod.mk.inj (Except.ok.inj h)
      exact ⟨_, rfl⟩

/-- The first account has no newline before it. -/
theorem append_account (f name pass : Bytes) : f ++ (if f = [] then entry name pass else 10 :: entry name pass) =
    if f = [] then entry name pass else f ++ 10 :: entry name pass := by
  by_cases hnil : f = []
  · rw [if_pos hnil, if_pos hnil, hnil, List.nil_append]
  · rw [if_neg hnil, if_neg hnil]

/-! ## Looking an account up -/

/-- The line of an account. -/
def Account.line (a : Account) : Bytes := entry a.1 a.2

/-- Text `s` lists the accounts `accts`, one a line. -/
structure Accounts (accts : List Account) (s : Bytes) : Prop where
  spells : Spells (accts.map Account.line) s
  field : ∀ a ∈ accts, IsField a.1 ∧ IsField a.2

theorem isAccount_entry {a : Account} {l : Bytes} (ha : IsField a.1 ∧ IsField a.2)
    (hl : l = a.line ∨ l = a.line ++ [10]) (name pass : Bytes) :
    isAccount (some name) (some pass) l = .ok (decide (a = (name, pass))) := by
  obtain ⟨u, hfields, hu⟩ := fields_entry ha.1 ha.2 hl
  simp only [isAccount, hfields, derefStr, Except.pure_eq_ok, Except.ok_bind_eq, hu, isEquivalentStrings, strEq]
  by_cases hname : name = a.1
  · simp [hname, Prod.ext_iff, eq_comm]
  · simp [hname, Prod.ext_iff, eq_comm]

/-- The loop of `validate_user` finds the first line with the account, or goes on behind the list. -/
theorem findUser_append {accts : List Account} {ls : List Bytes}
    (h : List.Forall₂ (fun a l => l = Account.line a ∨ l = Account.line a ++ [10]) accts ls)
    (hfield : ∀ a ∈ accts, IsField a.1 ∧ IsField a.2) (name pass : Bytes) (ms : List Bytes) :
    ∀ k : Int, findUser (some name) (some pass) k (ls ++ ms) =
      match accts.findIdx? (· = (name, pass)) with
      | some i => .ok (k + i)
      | none => findUser (some name) (some pass) (k + accts.length) ms := by
  induction h with
  | nil => intro k; simp
  | @cons a l accts ls hl _ ih =>
      intro k
      rw [List.cons_append, findUser, isAccount_entry (hfield a (by simp)) hl]
      simp only [Except.ok_bind_eq, decide_eq_true_eq, List.findIdx?_cons]
      by_cases ha : a = (name, pass)
      · simp [ha]
      · simp only [ha, if_false]
        rw [ih (fun b hb => hfield b (by simp [hb]))]
        cases hidx : accts.findIdx? (· = (name, pass)) with
        | none =>
            simp only [Option.map_none, List.length_cons]
            congr 1
            omega
        | some i =>
            simp only [Option.map_some]
            congr 1
            push_cast
            omega

/-- The ids found count up from the start of the loop. -/
theorem le_findUser {name pass : Option Bytes} {u : Int} : ∀ {ls : List Bytes} {k : Int},
    findUser name pass k ls = .ok u → u < 0 ∨ k ≤ u := by
  intro ls
  induction ls with
  | nil =>
      intro k h
      obtain rfl := Except.ok.inj h
      exact .inl (by decide)
  | cons l ls ih =>
      intro k h
      obtain ⟨found, -, h⟩ := Except.bind_eq_ok.mp h
      split at h
      · obtain rfl := Except.ok.inj h
        exact .inr (Int.le_refl _)
      · rcases ih h with hneg | hle
        · exact .inl hneg
        · exact .inr (by omega)

/-- No user has id `0`. -/
theorem validateUser_ne_zero {d : Disk} {payload : Option Bytes} {u : Int} (h : validateUser d payload = .ok u) :
    u ≠ 0 := by
  unfold validateUser at h
  dsimp only at h
  split at h
  · obtain rfl := Except.ok.inj h
    decide
  · obtain ⟨-, -, h⟩ := Except.bind_eq_ok.mp h
    rcases le_findUser h with hneg | hle
    · omega
    · omega

/-- The loop of `validate_register` tells whether the name is on the list. -/
theorem findName_eq {accts : List Account} {ls : List Bytes}
    (h : List.Forall₂ (fun a l => l = Account.line a ∨ l = Account.line a ++ [10]) accts ls)
    (hfield : ∀ a ∈ accts, IsField a.1 ∧ IsField a.2) (name : Bytes) :
    ∀ k : Int, ∃ m, findName .intact (some name) k ls = .ok (decide (name ∈ accts.map Prod.fst), m) ∧
      (name ∉ accts.map Prod.fst → m = k + accts.length) := by
  induction h with
  | nil => exact fun k => ⟨k, rfl, by simp⟩
  | @cons a l accts ls hl _ ih =>
      intro k
      obtain ⟨u, hfields, -⟩ := fields_entry (hfield a (by simp)).1 (hfield a (by simp)).2 hl
      rw [findName]
      simp only [Option.map_some, Freed.intact_compared, hfields, isEquivalentStrings, strEq, derefStr, Except.pure_eq_ok, Except.ok_bind_eq]
      by_cases hname : name = a.1
      · exact ⟨k, by simp [hname], by simp [hname]⟩
      · obtain ⟨m, hm, hlen⟩ := ih (fun b hb => hfield b (by simp [hb])) (k + 1)
        refine ⟨m, by simp [hname, hm], fun hmem => ?_⟩
        rw [hlen (by simpa [hname] using hmem), List.length_cons]
        push_cast
        omega

/-! ## Registering and logging in -/

/-- The payload of a `REGISTER`. -/
structure Registration where
  payload : Bytes
  name : Bytes
  pass : Bytes
  parsed : credentials (some payload) = (some name, some pass)
  name_word : IsWord name
  pass_word : IsWord pass

/-- An object with a name and a password is read back from its text. -/
theorem credentials_serialize {name pass : Bytes} (hname : (0 : UInt8) ∉ name) (hpass : (0 : UInt8) ∉ pass) :
    credentials (some (jsonSerialize (.obj [(bytes "name", .str name), (bytes "pass", .str pass)]))) =
      (some name, some pass) := by
  have hzero : (0 : UInt8) ∉ bytes "name" ∧ (0 : UInt8) ∉ bytes "pass" := by decide
  have hok : (Json.obj [(bytes "name", .str name), (bytes "pass", .str pass)]).Ok := by
    simp only [Json.Ok, okMembers_iff]
    exact ⟨by simp; decide, by simp [Json.Ok, hzero, hname, hpass]⟩
  have hdepth : depthMembers [(bytes "name", .str name), (bytes "pass", .str pass)] = 0 := rfl
  have hparse := jsonParseString_serialize hok (hdepth ▸ by decide) []
  rw [List.append_nil] at hparse
  rw [credentials, Option.bind_some, jsonParseDoubles_small hparse ⟨trivial, trivial, trivial⟩]
  rfl

/-- The payload that `create_login_payload` makes holds the name and the password. -/
theorem credentials_createLoginPayload {name pass : Bytes} (hname : (0 : UInt8) ∉ name ∧ (Utf8.decode name).isSome)
    (hpass : (0 : UInt8) ∉ pass ∧ (Utf8.decode pass).isSome) :
    credentials (some (createLoginPayload name pass)) = (some name, some pass) := by
  obtain ⟨cs, hcs⟩ := Option.isSome_iff_exists.mp hname.2
  obtain ⟨ds, hds⟩ := Option.isSome_iff_exists.mp hpass.2
  have hobj : jsonObjectSetString (jsonObjectSetString [] (bytes "name") name) (bytes "pass") pass =
      [(bytes "name", .str name), (bytes "pass", .str pass)] := by
    simp only [jsonObjectSetString, jsonValueInitString, hcs, hds]
    rfl
  rw [createLoginPayload, hobj]
  exact credentials_serialize hname.1 hpass.1

/-- The registration that a client sends for a name and a password in ASCII. -/
def Registration.ofAscii (name pass : String) (hname : IsWord (bytes name) ∧ (Utf8.decode (bytes name)).isSome)
    (hpass : IsWord (bytes pass) ∧ (Utf8.decode (bytes pass)).isSome) : Registration where
  payload := createLoginPayload (bytes name) (bytes pass)
  name := bytes name
  pass := bytes pass
  parsed := credentials_createLoginPayload ⟨hname.1.isField.2.2.2, hname.2⟩ ⟨hpass.1.isField.2.2.2, hpass.2⟩
  name_word := hname.1
  pass_word := hpass.1

/-- Every user in the list logs in with the id it is listed with. -/
def LogIn (d : Disk) (users : List (Account × Int)) : Prop :=
  ∀ u ∈ users, ∀ payload, credentials payload = (some u.1.1, some u.1.2) → validateUser d payload = .ok u.2

/-- All users keep logging in while the registrations are made one after the other, and what they free stays as it was: a name
    not among the users is accepted with an id, and joins them; a name among them is refused. -/
def KeepsLogins (d : Disk) (users : List (Account × Int)) : List Registration → Prop
  | [] => LogIn d users
  | r :: rs => LogIn d users ∧ ∃ d' id, validateRegister .intact d (some r.payload) = .ok (d', id) ∧
      if r.name ∈ users.map (·.1.1) then id < 0 ∧ KeepsLogins d' users rs
      else 0 ≤ id ∧ KeepsLogins d' (users ++ [((r.name, r.pass), id)]) rs

/-- The accounts with the numbers of their lines. -/
def numbered (accts : List Account) : List (Account × Int) := accts.mapIdx fun i a => (a, (i : Int) + 1)

theorem numbered_append (accts : List Account) (a : Account) :
    numbered (accts ++ [a]) = numbered accts ++ [(a, (accts.length : Int) + 1)] := by
  simp [numbered, List.mapIdx_append]

theorem numbered_names (accts : List Account) : (numbered accts).map (·.1.1) = accts.map Prod.fst := by
  refine List.ext_getElem (by simp [numbered]) fun i h₁ h₂ => ?_
  simp [numbered]

section
variable {d : Disk} {f : Bytes} {accts : List Account}

/-- `validate_user` reads the accounts up to the first that fits. -/
theorem validateUser_eq (hfile : d.get userdataTxt = some (.closed f)) {payload : Option Bytes} {name pass : Bytes}
    (hpayload : credentials payload = (some name, some pass)) :
    validateUser d payload = findUser (some name) (some pass) 1 (lines f) := by
  simp only [validateUser, hpayload, hfile, flock_closed, Except.ok_bind_eq]
  rfl

theorem Accounts.forall₂ (h : Accounts accts f) :
    List.Forall₂ (fun a l => l = Account.line a ∨ l = Account.line a ++ [10]) accts (lines f) := by
  have hs := h.spells
  rwa [Spells, List.forall₂_map_left_iff] at hs

/-- The users of a list of accounts log in with the numbers of their lines. -/
theorem Accounts.logIn (h : Accounts accts f) (hnames : (accts.map Prod.fst).Nodup)
    (hfile : d.get userdataTxt = some (.closed f)) : LogIn d (numbered accts) := by
  rintro ⟨a, id⟩ hu payload hpayload
  obtain ⟨i, hi, hu⟩ := List.mem_mapIdx.mp hu
  obtain ⟨rfl, rfl⟩ := Prod.mk.inj hu
  have hidx : accts.findIdx? (· = (accts[i].1, accts[i].2)) = some i := by
    refine List.findIdx?_eq_some_iff_getElem.mpr ⟨hi, by simp, fun j hj => ?_⟩
    have hne : accts[j].1 ≠ accts[i].1 := by
      intro he
      have hlt : i < (accts.map Prod.fst).length ∧ j < (accts.map Prod.fst).length := by
        rw [List.length_map]
        omega
      have hmap : (accts.map Prod.fst)[j] = (accts.map Prod.fst)[i] := by simpa using he
      have hji := hnames.getElem_inj_iff.mp hmap
      omega
    simpa [Prod.ext_iff] using fun he => absurd he hne
  have hfind := findUser_append h.forall₂ h.field accts[i].1 accts[i].2 [] 1
  rw [List.append_nil, hidx] at hfind
  rw [validateUser_eq hfile hpayload, hfind]
  exact congrArg Except.ok (Int.add_comm _ _)

/-- A name that is taken is refused. -/
theorem Accounts.register_taken (h : Accounts accts f) (hfile : d.get userdataTxt = some (.closed f))
    (r : Registration) (hname : r.name ∈ accts.map Prod.fst) :
    ∃ d', validateRegister .intact d (some r.payload) = .ok (d', -1) ∧ d'.get userdataTxt = some (.closed f) := by
  obtain ⟨m, hfind, -⟩ := findName_eq h.forall₂ h.field r.name 1
  refine ⟨d.set userdataTxt (some (.closed f)), ?_, Disk.get_set_self ..⟩
  have hlines : lines (Inode.closed f).content = lines f := rfl
  simp only [validateRegister, r.parsed, hfile, Option.getD_some, flock_closed, Except.ok_bind_eq, hlines, hfind, hname,
    decide_true, if_true, Except.pure_eq_ok]

/-- A new name is written on a line of its own, after a newline unless the list is empty. -/
theorem Accounts.register_new (h : Accounts accts f) (hfile : d.get userdataTxt = some (.closed f))
    (r : Registration) (hname : r.name ∉ accts.map Prod.fst) :
    ∃ d', validateRegister .intact d (some r.payload) = .ok (d', accts.length + 1) ∧
      d'.get userdataTxt =
        some (.closed (if f = [] then entry r.name r.pass else f ++ 10 :: entry r.name r.pass)) := by
  obtain ⟨m, hfind, hm⟩ := findName_eq h.forall₂ h.field r.name 1
  obtain rfl := hm hname
  have hlines : lines (Inode.closed f).content = lines f := rfl
  have hempty : f = [] ↔ (1 : Int) + accts.length = 1 := by
    rw [← h.spells.eq_nil_iff, List.map_eq_nil_iff, ← List.length_eq_zero_iff]
    omega
  refine ⟨d.set userdataTxt
    (some (.closed (if f = [] then entry r.name r.pass else f ++ 10 :: entry r.name r.pass))), ?_, Disk.get_set_self ..⟩
  simp only [validateRegister, r.parsed, hfile, Option.getD_some, flock_closed, Except.ok_bind_eq, hlines, hfind, hname,
    decide_false, Bool.false_eq_true, if_false, derefStr, Except.pure_eq_ok, Freed.intact_written, ← hempty]
  rw [← append_account, Int.add_comm]
  rfl

/-- The list goes on with the new account if its last line was not ended. -/
theorem Accounts.append (h : Accounts accts f) (hf : ¬ Ended f) {name pass : Bytes} (hname : IsWord name)
    (hpass : IsWord pass) :
    Accounts (accts ++ [(name, pass)]) (if f = [] then entry name pass else f ++ 10 :: entry name pass) where
  spells := by
    rw [List.map_append]
    exact h.spells.append hf (newline_notMem_entry hname.isField.2.2.1 hpass.isField.2.2.1) (entry_ne_nil name pass)
  field := by
    intro a ha
    rcases List.mem_append.mp ha with ha | ha
    · exact h.field a ha
    · obtain rfl := List.mem_singleton.mp ha
      exact ⟨hname.isField, hpass.isField⟩

theorem not_ended_append {name pass : Bytes} (hne : pass ≠ []) (hnl : (10 : UInt8) ∉ pass) :
    ¬ Ended (if f = [] then entry name pass else f ++ 10 :: entry name pass) := by
  obtain ⟨s, c, rfl⟩ : ∃ s c, pass = s ++ [c] := (List.eq_nil_or_concat' pass).resolve_left hne
  have hc : c ≠ 10 := by
    rintro rfl
    exact hnl (by simp)
  have hentry : entry name (s ++ [c]) = entry name s ++ [c] := by simp [entry]
  split
  · rwa [hentry, ended_append_singleton]
  · rwa [hentry, ← List.cons_append, ← List.append_assoc, ended_append_singleton]

/-- After an ended list the newline is a blank line, on which everybody's login after the old accounts
    crashes. -/
theorem Accounts.blank (h : Accounts accts f) (hf : Ended f) {d' : Disk} {name pass : Bytes}
    (hname : name ∉ accts.map Prod.fst)
    (hfile : d'.get userdataTxt = some (.closed (f ++ 10 :: entry name pass))) {payload : Option Bytes}
    (hpayload : credentials payload = (some name, some pass)) : validateUser d' payload = .error .nullStr := by
  have hidx : accts.findIdx? (· = (name, pass)) = none := by
    rw [List.findIdx?_eq_none_iff]
    intro a ha
    have hne : a.1 ≠ name := fun he => hname (he ▸ List.mem_map_of_mem ha)
    simp [Prod.ext_iff, hne]
  rw [validateUser_eq hfile hpayload, lines_append_ended hf, lines_newline, findUser_append h.forall₂ h.field, hidx]
  rfl

/-- The first new user after an ended list cannot log in. -/
theorem Accounts.not_keepsLogins (h : Accounts accts f) (hf : Ended f) (hfile : d.get userdataTxt = some (.closed f))
    (r : Registration) (hname : r.name ∉ accts.map Prod.fst) (rs : List Registration) :
    ¬ KeepsLogins d (numbered accts) (r :: rs) := by
  obtain ⟨d₁, hrun, hfile₁⟩ := h.register_new hfile r hname
  simp only [KeepsLogins, numbered_names, hname, if_false]
  rintro ⟨-, d', id, hrun', -, hkeep⟩
  obtain ⟨rfl, rfl⟩ := Prod.mk.inj (Except.ok.inj (hrun.symm.trans hrun'))
  have hne : f ≠ [] := by
    rintro rfl
    cases hf
  rw [if_neg hne] at hfile₁
  have hlogin : LogIn d₁ (numbered accts ++ [((r.name, r.pass), (accts.length : Int) + 1)]) := by
    cases rs with
    | nil => exact hkeep
    | cons r' rs => exact hkeep.1
  have hok := hlogin _ (List.mem_append_right _ (List.mem_singleton_self _)) _ r.parsed
  rw [h.blank hf hname hfile₁ r.parsed] at hok
  cases hok

end

/-- All users keep their logins exactly if the list of accounts does not end in a newline, or nobody
    new registers. -/
theorem register_then_login {d : Disk} {f : Bytes} {accts : List Account}
    (hfile : d.get userdataTxt = some (.closed f)) (haccts : Accounts accts f)
    (hnames : (accts.map Prod.fst).Nodup) (rs : List Registration) :
    KeepsLogins d (numbered accts) rs ↔ ¬ Ended f ∨ ∀ r ∈ rs, r.name ∈ accts.map Prod.fst := by
  induction rs generalizing d f accts with
  | nil => simp [KeepsLogins, haccts.logIn hnames hfile]
  | cons r rs ih =>
      rw [List.forall_mem_cons]
      by_cases hname : r.name ∈ accts.map Prod.fst
      · obtain ⟨d₁, hrun, hfile₁⟩ := haccts.register_taken hfile r hname
        have hrest := ih hfile₁ haccts hnames
        simp only [KeepsLogins, numbered_names, hname, if_true, haccts.logIn hnames hfile, true_and]
        refine ⟨?_, fun h => ⟨d₁, -1, hrun, by decide, hrest.mpr h⟩⟩
        rintro ⟨d', id, hrun', -, hkeep⟩
        obtain ⟨rfl, rfl⟩ := Prod.mk.inj (Except.ok.inj (hrun.symm.trans hrun'))
        exact hrest.mp hkeep
      · refine ⟨fun h => .inl fun hf => haccts.not_keepsLogins hf hfile r hname rs h, fun h => ?_⟩
        have hf : ¬ Ended f := h.resolve_right fun hmem => hname hmem.1
        obtain ⟨d₁, hrun, hfile₁⟩ := haccts.register_new hfile r hname
        have hnames' : ((accts ++ [(r.name, r.pass)]).map Prod.fst).Nodup := by
          rw [List.map_append]
          refine List.nodup_append.mpr ⟨hnames, by simp, fun a ha b hb => ?_⟩
          rintro rfl
          rw [List.mem_singleton.mp hb] at ha
          exact hname ha
        simp only [KeepsLogins, numbered_names, hname, if_false]
        refine ⟨haccts.logIn hnames hfile, d₁, _, hrun, by omega, ?_⟩
        rw [← numbered_append]
        exact (ih hfile₁ (haccts.append hf r.name_word r.pass_word) hnames').mpr
          (.inl (not_ended_append r.pass_word.1 r.pass_word.isField.2.2.1))

/-- A registration for the examples. -/
def anna : Registration := .ofAscii "anna" "secret" (by decide +kernel) (by decide +kernel)

theorem register_then_login_anna :
    KeepsLogins (.ofTexts (bytes "balzs:password") []) (numbered [(bytes "balzs", bytes "password")]) [anna] ↔
      ¬ Ended (bytes "balzs:password") ∨ ∀ r ∈ [anna], r.name ∈ [(bytes "balzs", bytes "password")].map Prod.fst :=
  register_then_login rfl ⟨by decide, by decide⟩ (by decide) [anna]

/-- With the `userdata.txt` of the repository, which ends in a newline, a new user cannot log in. -/
theorem register_breaks_login :
    ¬ KeepsLogins (.ofTexts (bytes "balzs:password\ngbor:12345\npisti:degec\n") [])
      (numbered [(bytes "balzs", bytes "password"), (bytes "gbor", bytes "12345"), (bytes "pisti", bytes "degec")])
      [anna] :=
  Accounts.not_keepsLogins ⟨by decide, by decide⟩ (by decide) rfl anna (by decide) []

end CoEditor
