-- SUMMARY: JSON values as parson keeps them, and members read and written by name and by dotted path.
import CoEditor.Lib.Utf8

/-!
# JSON values

The part of `parson.c` that builds and reads objects. A dotted path is given as
the list of the names between its dots. Setters report failure by leaving the
object as it was, since no caller looks at their status.
-/

namespace CoEditor

/-- A JSON value. Every reader of a number casts it to `int`, and a number is kept as that. -/
inductive Json where
  | null
  | bool (b : Bool)
  | num (n : Int)
  | str (s : Bytes)
  | arr (vs : List Json)
  | obj (ms : List (Bytes × Json))

/-- The members of an object, in the order they were added. -/
abbrev JsonObject := List (Bytes × Json)

/-- The names of a dotted path. -/
abbrev JsonPath := List Bytes

/-! ## Reading -/

/-- `json_value_get_object`; reads from `NULL` find nothing, as in an empty object. -/
def jsonValueGetObject : Option Json → JsonObject
  | some (.obj ms) => ms
  | _ => []

def jsonValueGetNumber : Option Json → Int
  | some (.num n) => n
  | _ => 0

def jsonValueGetString : Option Json → Option Bytes
  | some (.str s) => some s
  | _ => none

def jsonObjectGetValue (o : JsonObject) (name : Bytes) : Option Json := o.lookup name

def jsonObjectGetNumber (o : JsonObject) (name : Bytes) : Int := jsonValueGetNumber (jsonObjectGetValue o name)

def jsonObjectGetString (o : JsonObject) (name : Bytes) : Option Bytes :=
  jsonValueGetString (jsonObjectGetValue o name)

def jsonObjectDotgetValue (o : JsonObject) : JsonPath → Option Json
  | [] => none
  | [name] => jsonObjectGetValue o name
  | name :: path => jsonObjectDotgetValue (jsonValueGetObject (jsonObjectGetValue o name)) path

def jsonObjectDotgetNumber (o : JsonObject) (path : JsonPath) : Int :=
  jsonValueGetNumber (jsonObjectDotgetValue o path)

def jsonObjectDotgetString (o : JsonObject) (path : JsonPath) : Option Bytes :=
  jsonValueGetString (jsonObjectDotgetValue o path)

def jsonObjectDothasValue (o : JsonObject) (path : JsonPath) : Bool := (jsonObjectDotgetValue o path).isSome

/-! ## Writing -/

/-- Overwrite the value of a member, or add the member at the end. -/
def jsonObjectSetValue : JsonObject → Bytes → Json → JsonObject
  | [], name, value => [(name, value)]
  | (k, v) :: ms, name, value =>
      if k = name then (k, value) :: ms else (k, v) :: jsonObjectSetValue ms name value

/-- Set a value under a dotted path; the objects on the way are created. -/
def jsonObjectDotsetValue (o : JsonObject) : JsonPath → Json → JsonObject
  | [], _ => o
  | [name], value => jsonObjectSetValue o name value
  | name :: path, value =>
      match jsonObjectGetValue o name with
      | some (.obj ms) => jsonObjectSetValue o name (.obj (jsonObjectDotsetValue ms path value))
      | none => jsonObjectSetValue o name (.obj (jsonObjectDotsetValue [] path value))
      | some _ => o

/-- Only valid UTF-8 becomes a string value. -/
def jsonValueInitString (s : Bytes) : Option Json := (Utf8.decode s).map fun _ => .str s

def jsonObjectDotsetNumber (o : JsonObject) (path : JsonPath) (n : Int) : JsonObject :=
  jsonObjectDotsetValue o path (.num n)

def jsonObjectDotsetString (o : JsonObject) (path : JsonPath) (s : Bytes) : JsonObject :=
  match jsonValueInitString s with
  | none => o
  | some v => jsonObjectDotsetValue o path v

def jsonObjectSetNumber (o : JsonObject) (name : Bytes) (n : Int) : JsonObject :=
  jsonObjectSetValue o name (.num n)

def jsonObjectSetString (o : JsonObject) (name s : Bytes) : JsonObject :=
  match jsonValueInitString s with
  | none => o
  | some v => jsonObjectSetValue o name v

/-! ## Members -/

@[simp] theorem jsonValueGetObject_obj (o : JsonObject) : jsonValueGetObject (some (.obj o)) = o := rfl
@[simp] theorem jsonValueGetObject_none : jsonValueGetObject none = [] := rfl

@[simp] theorem jsonObjectGetValue_nil (name : Bytes) : jsonObjectGetValue [] name = none := rfl

theorem jsonObjectGetValue_cons (k name : Bytes) (v : Json) (o : JsonObject) :
    jsonObjectGetValue ((k, v) :: o) name = if k = name then some v else jsonObjectGetValue o name := by
  rw [jsonObjectGetValue, List.lookup_cons, jsonObjectGetValue]
  by_cases h : k = name
  · simp [h]
  · rw [if_neg h]
    simp [beq_eq_false_iff_ne.mpr (Ne.symm h)]

@[simp] theorem getValue_setValue_self (o : JsonObject) (name : Bytes) (v : Json) :
    jsonObjectGetValue (jsonObjectSetValue o name v) name = some v := by
  induction o with
  | nil => simp [jsonObjectSetValue, jsonObjectGetValue_cons]
  | cons m o ih =>
      rw [jsonObjectSetValue]
      split
      · next h => rw [jsonObjectGetValue_cons, if_pos h]
      · next h => rw [jsonObjectGetValue_cons, if_neg h, ih]

theorem getValue_setValue_ne (o : JsonObject) {name name' : Bytes} (hne : name ≠ name') (v : Json) :
    jsonObjectGetValue (jsonObjectSetValue o name v) name' = jsonObjectGetValue o name' := by
  induction o with
  | nil => simp [jsonObjectSetValue, jsonObjectGetValue_cons, hne]
  | cons m o ih =>
      rw [jsonObjectSetValue, jsonObjectGetValue_cons]
      split
      · next h => rw [jsonObjectGetValue_cons, if_neg (fun e => hne (h.symm.trans e)), if_neg (fun e => hne (h.symm.trans e))]
      · next h => rw [jsonObjectGetValue_cons, ih]

/-! ## Paths -/

@[simp] theorem dotgetValue_single (o : JsonObject) (name : Bytes) :
    jsonObjectDotgetValue o [name] = jsonObjectGetValue o name := rfl

theorem dotgetValue_cons (o : JsonObject) (name : Bytes) {path : JsonPath} (hpath : path ≠ []) :
    jsonObjectDotgetValue o (name :: path) =
      jsonObjectDotgetValue (jsonValueGetObject (jsonObjectGetValue o name)) path := by
  cases path with
  | nil => exact absurd rfl hpath
  | cons k ks => rfl

@[simp] theorem dotgetValue_empty (path : JsonPath) : jsonObjectDotgetValue [] path = none := by
  induction path with
  | nil => rfl
  | cons k ks ih =>
      cases ks with
      | nil => rfl
      | cons j js => exact ih

theorem dotsetValue_cons (o : JsonObject) (name : Bytes) {path : JsonPath} (hpath : path ≠ []) (v : Json) :
    jsonObjectDotsetValue o (name :: path) v =
      match jsonObjectGetValue o name with
      | some (.obj ms) => jsonObjectSetValue o name (.obj (jsonObjectDotsetValue ms path v))
      | none => jsonObjectSetValue o name (.obj (jsonObjectDotsetValue [] path v))
      | some _ => o := by
  cases path with
  | nil => exact absurd rfl hpath
  | cons k ks => rfl

/-- Neither path leads through the other. -/
def Apart (p q : JsonPath) : Prop := ¬ p <+: q ∧ ¬ q <+: p

theorem Apart.symm {p q : JsonPath} (h : Apart p q) : Apart q p := ⟨h.2, h.1⟩

theorem Apart.cons_iff {k j : Bytes} {p q : JsonPath} : Apart (k :: p) (j :: q) ↔ k = j → Apart p q := by
  unfold Apart
  simp only [List.cons_prefix_cons]
  grind

/-- A path below another value stays as it was. -/
theorem dotget_dotset_apart {p q : JsonPath} (h : Apart p q) (v : Json) :
    ∀ o, jsonObjectDotgetValue (jsonObjectDotsetValue o p v) q = jsonObjectDotgetValue o q := by
  induction p generalizing q with
  | nil => exact absurd (List.nil_prefix) h.1
  | cons k p ih =>
      intro o
      cases q with
      | nil => exact absurd (List.nil_prefix) h.2
      | cons j q =>
          rw [Apart.cons_iff] at h
          by_cases hkj : k = j
          · subst hkj
            have hpq := h rfl
            have hp : p ≠ [] := by
              rintro rfl
              exact hpq.1 List.nil_prefix
            have hq : q ≠ [] := by
              rintro rfl
              exact hpq.2 List.nil_prefix
            rw [dotsetValue_cons _ _ hp, dotgetValue_cons _ _ hq, dotgetValue_cons _ _ hq]
            split
            · next ms hms => rw [getValue_setValue_self, hms, jsonValueGetObject_obj, jsonValueGetObject_obj, ih hpq]
            · next hnone => rw [getValue_setValue_self, hnone, jsonValueGetObject_obj, ih hpq]; rfl
            · rfl
          · have hget : ∀ w, jsonObjectGetValue (jsonObjectSetValue o k w) j = jsonObjectGetValue o j :=
              fun w => getValue_setValue_ne o hkj w
            have hsame : jsonObjectGetValue (jsonObjectDotsetValue o (k :: p) v) j = jsonObjectGetValue o j := by
              cases p with
              | nil => exact hget v
              | cons i p =>
                  rw [dotsetValue_cons _ _ (List.cons_ne_nil i p)]
                  split
                  · exact hget _
                  · exact hget _
                  · rfl
            cases q with
            | nil => exact hsame
            | cons i q => rw [dotgetValue_cons _ _ (List.cons_ne_nil i q), hsame, dotgetValue_cons _ _ (List.cons_ne_nil i q)]

/-- Every value that path `p` leads through is an object. -/
def Open (o : JsonObject) (p : JsonPath) : Prop :=
  ∀ q, q <+: p → q ≠ p → ∀ v, jsonObjectDotgetValue o q = some v → ∃ ms, v = .obj ms

theorem Open.tail {o : JsonObject} {name : Bytes} {p : JsonPath} (h : Open o (name :: p)) :
    Open (jsonValueGetObject (jsonObjectGetValue o name)) p := by
  intro q hq hne v hv
  have hq0 : q ≠ [] := by
    rintro rfl
    cases hv
  refine h (name :: q) (by simpa using hq) (by simpa using hne) v ?_
  rw [dotgetValue_cons _ _ hq0]
  exact hv

theorem dotsetValue_open {o : JsonObject} {name : Bytes} {p : JsonPath} (hp : p ≠ []) (h : Open o (name :: p))
    (v : Json) : jsonObjectDotsetValue o (name :: p) v =
      jsonObjectSetValue o name (.obj (jsonObjectDotsetValue (jsonValueGetObject (jsonObjectGetValue o name)) p v)) := by
  rw [dotsetValue_cons _ _ hp]
  split
  · next ms hms => rw [hms, jsonValueGetObject_obj]
  · next hnone => rw [hnone, jsonValueGetObject_none]
  · next w hobj hw =>
      obtain ⟨ms, rfl⟩ := h [name] (by simp) (by simpa using hp.symm) w hw
      exact absurd rfl (hobj ms)

/-- A value is found under the path it was set under. -/
theorem dotget_dotset_self {p : JsonPath} (hp : p ≠ []) (v : Json) :
    ∀ {o : JsonObject}, Open o p → jsonObjectDotgetValue (jsonObjectDotsetValue o p v) p = some v := by
  induction p with
  | nil => exact absurd rfl hp
  | cons k p ih =>
      intro o ho
      cases p with
      | nil => exact getValue_setValue_self o k v
      | cons j p =>
          rw [dotsetValue_open (List.cons_ne_nil j p) ho, dotgetValue_cons _ _ (List.cons_ne_nil j p),
            getValue_setValue_self, jsonValueGetObject_obj]
          exact ih (List.cons_ne_nil j p) ho.tail

/-- Setting a value leaves objects on the way to it. -/
theorem dotget_dotset_prefix {p : JsonPath} (v : Json) :
    ∀ {o : JsonObject} {q : JsonPath}, Open o p → q ≠ [] → q <+: p → q ≠ p →
      ∃ ms, jsonObjectDotgetValue (jsonObjectDotsetValue o p v) q = some (.obj ms) := by
  induction p with
  | nil =>
      intro o q _ hq hpre _
      exact absurd (List.prefix_nil.mp hpre) hq
  | cons k p ih =>
      intro o q ho hq hpre hne
      obtain ⟨j, q, rfl⟩ := List.exists_cons_of_ne_nil hq
      obtain ⟨rfl, hqp⟩ := List.cons_prefix_cons.mp hpre
      have hp : p ≠ [] := by
        rintro rfl
        exact hne (by rw [List.prefix_nil.mp hqp])
      rw [dotsetValue_open hp ho]
      cases q with
      | nil => exact ⟨_, getValue_setValue_self _ _ _⟩
      | cons i q =>
          rw [dotgetValue_cons _ _ (List.cons_ne_nil i q), getValue_setValue_self, jsonValueGetObject_obj]
          exact ih ho.tail (List.cons_ne_nil i q) hqp (fun e => hne (by rw [e]))

/-! ## Objects built up value by value -/

/-- Object `o` holds the values `A` lists and nothing besides. -/
structure Built (A : List (JsonPath × Json)) (o : JsonObject) : Prop where
  get : ∀ a ∈ A, jsonObjectDotgetValue o a.1 = some a.2
  inner : ∀ q, q ≠ [] → (∃ a ∈ A, q <+: a.1 ∧ q ≠ a.1) → ∃ ms, jsonObjectDotgetValue o q = some (.obj ms)
  none : ∀ q, (∀ a ∈ A, Apart a.1 q) → jsonObjectDotgetValue o q = none

theorem Built.nil : Built [] [] where
  get _ h := nomatch h
  inner _ _ h := by
    obtain ⟨a, ha, -⟩ := h
    cases ha
  none q _ := dotgetValue_empty q

theorem Built.isOpen {A : List (JsonPath × Json)} {o : JsonObject} (h : Built A o) {p : JsonPath}
    (hp : ∀ a ∈ A, Apart a.1 p) : Open o p := by
  intro q hpre hne v hv
  have hq : q ≠ [] := by
    rintro rfl
    cases hv
  by_cases hall : ∀ a ∈ A, Apart a.1 q
  · rw [h.none q hall] at hv
    cases hv
  · simp only [not_forall] at hall
    obtain ⟨a, ha, hnot⟩ := hall
    have hbelow : ¬ a.1 <+: q := fun e => (hp a ha).1 (e.trans hpre)
    have habove : q <+: a.1 := by
      by_contra hno
      exact hnot ⟨hbelow, hno⟩
    obtain ⟨ms, hms⟩ := h.inner q hq ⟨a, ha, habove, fun e => hbelow (e ▸ List.prefix_rfl)⟩
    exact ⟨ms, Option.some.inj (hv.symm.trans hms)⟩

/-- A value set apart from those there are is added to them. -/
theorem Built.dotset {A : List (JsonPath × Json)} {o : JsonObject} (h : Built A o) {p : JsonPath} (hp : p ≠ [])
    (hapart : ∀ a ∈ A, Apart a.1 p) (v : Json) : Built (A ++ [(p, v)]) (jsonObjectDotsetValue o p v) where
  get := by
    intro a ha
    rcases List.mem_append.mp ha with ha | ha
    · rw [dotget_dotset_apart (hapart a ha).symm]
      exact h.get a ha
    · obtain rfl := List.mem_singleton.mp ha
      exact dotget_dotset_self hp v (h.isOpen hapart)
  inner := by
    rintro q hq ⟨a, ha, hpre, hne⟩
    by_cases hqp : q <+: p ∧ q ≠ p
    · exact dotget_dotset_prefix v (h.isOpen hapart) hq hqp.1 hqp.2
    · rcases List.mem_append.mp ha with ha | ha
      · obtain ⟨ms, hms⟩ := h.inner q hq ⟨a, ha, hpre, hne⟩
        refine ⟨ms, ?_⟩
        rw [dotget_dotset_apart, hms]
        exact ⟨fun e => (hapart a ha).2 (e.trans hpre), fun e => hqp ⟨e, fun heq => (hapart a ha).2 (heq ▸ hpre)⟩⟩
      · obtain rfl := List.mem_singleton.mp ha
        exact absurd ⟨hpre, hne⟩ hqp
  none := by
    intro q hq
    have hpq := hq (p, v) (by simp)
    rw [dotget_dotset_apart hpq]
    exact h.none q fun a ha => hq a (by simp [ha])

/-- The values `A` set one after the other. -/
def build (A : List (JsonPath × Json)) (o : JsonObject) : JsonObject :=
  A.foldl (fun o a => jsonObjectDotsetValue o a.1 a.2) o

theorem Built.build {A B : List (JsonPath × Json)} {o : JsonObject} (h : Built A o)
    (hne : ∀ b ∈ B, b.1 ≠ []) (hapart : ∀ a ∈ A, ∀ b ∈ B, Apart a.1 b.1)
    (hpair : B.Pairwise fun b b' => Apart b.1 b'.1) : Built (A ++ B) (CoEditor.build B o) := by
  induction B generalizing A o with
  | nil => simpa [CoEditor.build] using h
  | cons b B ih =>
      obtain ⟨hb, hpair⟩ := List.pairwise_cons.mp hpair
      have hstep := h.dotset (hne b (by simp)) (fun a ha => hapart a ha b (by simp)) b.2
      have hrest := ih hstep (fun c hc => hne c (by simp [hc])) (fun a ha c hc => by
        rcases List.mem_append.mp ha with ha | ha
        · exact hapart a ha c (by simp [hc])
        · obtain rfl := List.mem_singleton.mp ha
          exact hb c hc) hpair
      simpa [CoEditor.build] using hrest

/-- Values under pairwise unrelated paths are all found again. -/
theorem built_build {A : List (JsonPath × Json)} (hne : ∀ a ∈ A, a.1 ≠ [])
    (hpair : A.Pairwise fun a a' => Apart a.1 a'.1) : Built A (build A []) := by
  have h := Built.nil.build hne (fun a ha => nomatch ha) hpair
  simpa using h

end CoEditor
