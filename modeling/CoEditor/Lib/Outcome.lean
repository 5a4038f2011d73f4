-- SUMMARY: Outcomes of calls that may fault, and the relation saying that two calls end alike.

/-!
# Outcomes

A call either returns a value or stops at a fault. `Sim R x y` relates two
calls that end alike: both return, with results related by `R`, or both stop at
the same fault. It composes along `bind`, which is all a step-by-step
simulation proof needs.
-/

namespace CoEditor

variable {ε α β γ δ : Type}

@[simp] theorem Except.ok_bind_eq (a : α) (f : α → Except ε β) :
    (Except.ok a >>= f) = f a := rfl

@[simp] theorem Except.error_bind_eq (e : ε) (f : α → Except ε β) :
    ((Except.error e : Except ε α) >>= f) = Except.error e := rfl

@[simp] theorem Except.pure_eq_ok (a : α) : (pure a : Except ε α) = Except.ok a := rfl

/-- A sequence returns exactly when its first half returns and its second half
    returns on that result. -/
theorem Except.bind_eq_ok {x : Except ε α} {f : α → Except ε β} {b : β} :
    (x >>= f) = .ok b ↔ ∃ a, x = .ok a ∧ f a = .ok b := by
  cases x with
  | error e => simp
  | ok a => simp

theorem Except.map_eq_ok {x : Except ε α} {f : α → β} {b : β} :
    f <$> x = .ok b ↔ ∃ a, x = .ok a ∧ f a = b := by
  cases x with
  | error e => simp [Functor.map, Except.map]
  | ok a => simp [Functor.map, Except.map]

/-- What every call of a loop keeps is kept by the loop. -/
theorem Except.foldlM_invariant {P : β → Prop} {f : β → α → Except ε β}
    (hf : ∀ {b b'} a, P b → f b a = .ok b' → P b') (l : List α) :
    ∀ {b b' : β}, P b → l.foldlM f b = .ok b' → P b' := by
  induction l with
  | nil =>
      intro b b' h hrun
      exact Except.ok.inj hrun ▸ h
  | cons a l ih =>
      intro b b' h hrun
      rw [List.foldlM_cons] at hrun
      obtain ⟨b₁, hrun₁, hrun⟩ := Except.bind_eq_ok.mp hrun
      exact ih (hf a h hrun₁) hrun

/-- A loop whose calls keep `P` returns exactly when each of its calls can. -/
theorem Except.foldlM_returns_iff {P : β → Prop} {Q : α → Prop} {f : β → α → Except ε β}
    (hf : ∀ {b} a, P b → ((∃ b', f b a = .ok b') ↔ Q a)) (hkeep : ∀ {b b'} a, P b → f b a = .ok b' → P b') (l : List α) :
    ∀ {b : β}, P b → ((∃ b', l.foldlM f b = .ok b') ↔ ∀ a ∈ l, Q a) := by
  induction l with
  | nil => exact fun _ => iff_of_true ⟨_, rfl⟩ (by simp)
  | cons a l ih =>
      intro b h
      rw [List.forall_mem_cons, ← hf a h]
      constructor
      · rintro ⟨b', hrun⟩
        rw [List.foldlM_cons] at hrun
        obtain ⟨b₁, hrun₁, hrun⟩ := Except.bind_eq_ok.mp hrun
        exact ⟨⟨b₁, hrun₁⟩, (ih (hkeep a h hrun₁)).mp ⟨b', hrun⟩⟩
      · rintro ⟨⟨b₁, hrun₁⟩, hall⟩
        rw [List.foldlM_cons, hrun₁]
        exact (ih (hkeep a h hrun₁)).mpr hall

theorem Except.toOption_eq_some {x : Except ε α} {a : α} : x.toOption = some a ↔ x = .ok a := by
  cases x <;> simp [Except.toOption]

/-- The fault that the call stops at, if it does not return. -/
def fault? : Except ε α → Option ε
  | .ok _ => none
  | .error e => some e

theorem fault?_eq_none {x : Except ε α} : fault? x = none ↔ ∃ a, x = .ok a := by
  cases x <;> simp [fault?]

/-- Does the call return a value that passes the test `P`? -/
def returns (x : Except ε α) (P : α → Bool) : Bool :=
  match x with
  | .ok a => P a
  | .error _ => false

theorem exists_of_returns {x : Except ε α} {P : α → Bool} (h : returns x P = true) : ∃ a, x = .ok a ∧ P a = true := by
  cases x with
  | ok a => exact ⟨a, rfl, h⟩
  | error e => cases h

/-- Does the call stop at the fault `e`? -/
def stops [DecidableEq ε] (x : Except ε α) (e : ε) : Bool :=
  match x with
  | .ok _ => false
  | .error e' => e' = e

theorem eq_error_of_stops [DecidableEq ε] {x : Except ε α} {e : ε} (h : stops x e = true) : x = .error e := by
  cases x with
  | ok a => cases h
  | error e' => rw [of_decide_eq_true h]

/-- `if(c) f(a);` -/
def runIf (c : Prop) [Decidable c] (f : α → Except ε α) (a : α) : Except ε α :=
  if c then f a else pure a

theorem runIf_pos {c : Prop} [Decidable c] (hc : c) (f : α → Except ε α) (a : α) :
    runIf c f a = f a := by simp [runIf, hc]

theorem runIf_neg {c : Prop} [Decidable c] (hc : ¬ c) (f : α → Except ε α) (a : α) :
    runIf c f a = .ok a := by simp [runIf, hc]

/-! ## The faults of a call -/

/-- If the call stops at a fault, it is one of `S`. -/
def FaultsIn (S : ε → Prop) (x : Except ε α) : Prop := ∀ e, x = .error e → S e

namespace FaultsIn

variable {S : ε → Prop} {x : Except ε α}

@[simp] theorem ok (a : α) : FaultsIn S (.ok a : Except ε α) := by
  intro e h
  cases h

@[simp] theorem error_iff {e : ε} : FaultsIn S (.error e : Except ε α) ↔ S e := by
  constructor
  · exact fun h => h e rfl
  · intro h e' he
    exact Except.error.inj he ▸ h

theorem bind {f : α → Except ε β} (hx : FaultsIn S x) (hf : ∀ a, FaultsIn S (f a)) : FaultsIn S (x >>= f) := by
  intro e h
  cases x with
  | error e' => exact hx e (by rw [← Except.error.inj h])
  | ok a => exact hf a e h

/-- A sequence has the faults of its first half, and those of its second half on what the first half returns. -/
theorem bind_iff {f : α → Except ε β} :
    FaultsIn S (x >>= f) ↔ FaultsIn S x ∧ ∀ a, x = .ok a → FaultsIn S (f a) := by
  cases x with
  | error e => simp
  | ok a => simp

theorem map (hx : FaultsIn S x) (f : α → β) : FaultsIn S (f <$> x) := by
  intro e h
  cases x with
  | error e' => exact hx e (by rw [← Except.error.inj h])
  | ok a => cases h

theorem runIf {c : Prop} [Decidable c] {f : α → Except ε α} (hf : ∀ a, FaultsIn S (f a)) (a : α) :
    FaultsIn S (CoEditor.runIf c f a) := by
  by_cases hc : c
  · rw [runIf_pos hc]
    exact hf a
  · rw [runIf_neg hc]
    exact .ok a

theorem foldlM {f : β → α → Except ε β} (hf : ∀ b a, FaultsIn S (f b a)) : ∀ (l : List α) (b : β),
    FaultsIn S (l.foldlM f b) := by
  intro l
  induction l with
  | nil => exact fun b => .ok b
  | cons a l ih => exact fun b => (hf b a).bind ih

end FaultsIn

/-! ## What a call returns -/

/-- If the call returns, it returns something with property `P`. -/
def Yields (P : α → Prop) (x : Except ε α) : Prop := ∀ a, x = .ok a → P a

namespace Yields

variable {P : α → Prop} {Q : β → Prop} {x : Except ε α}

theorem ok {a : α} (h : P a) : Yields P (.ok a : Except ε α) := by
  intro a' ha
  exact Except.ok.inj ha ▸ h

@[simp] theorem error (e : ε) : Yields P (.error e : Except ε α) := by
  intro a h
  cases h

theorem bind {f : α → Except ε β} (hx : Yields P x) (hf : ∀ a, P a → Yields Q (f a)) : Yields Q (x >>= f) := by
  intro b h
  obtain ⟨a, ha, hb⟩ := Except.bind_eq_ok.mp h
  exact hf a (hx a ha) b hb

/-- Nothing is known of what the first call returns. -/
theorem read {f : α → Except ε β} (hf : ∀ a, Yields Q (f a)) : Yields Q (x >>= f) := by
  intro b h
  obtain ⟨a, -, hb⟩ := Except.bind_eq_ok.mp h
  exact hf a b hb

/-- A value `g` that each of two calls keeps is kept by their sequence. -/
theorem keep {τ : Type} {g : α → τ} {g' : β → τ} {t : τ} {f : α → Except ε β} (hx : Yields (fun a => g a = t) x)
    (hf : ∀ a, Yields (fun b => g' b = g a) (f a)) : Yields (fun b => g' b = t) (x >>= f) :=
  hx.bind fun a ha => ha ▸ hf a

theorem map {f : α → β} (hx : Yields P x) (hf : ∀ a, P a → Q (f a)) : Yields Q (f <$> x) := by
  intro b h
  obtain ⟨a, ha, rfl⟩ := Except.map_eq_ok.mp h
  exact hf a (hx a ha)

theorem runIf {τ : Type} {g : α → τ} {c : Prop} [Decidable c] {f : α → Except ε α}
    (hf : ∀ a, Yields (fun b => g b = g a) (f a)) (a : α) : Yields (fun b => g b = g a) (CoEditor.runIf c f a) := by
  by_cases hc : c
  · rw [runIf_pos hc]
    exact hf a
  · rw [runIf_neg hc]
    exact .ok rfl

theorem foldlM {τ : Type} {g : α → τ} {f : α → β → Except ε α} (hf : ∀ a b, Yields (fun a' => g a' = g a) (f a b)) :
    ∀ (l : List β) (a : α), Yields (fun a' => g a' = g a) (l.foldlM f a) := by
  intro l
  induction l with
  | nil => exact fun a => .ok rfl
  | cons b l ih => exact fun a => (hf a b).keep ih

end Yields

/-! ## Simulation of outcomes -/

/-- Two calls end alike: both return related results or both stop at the same fault. -/
inductive Sim (R : α → β → Prop) : Except ε α → Except ε β → Prop where
  | ok {a : α} {b : β} : R a b → Sim R (.ok a) (.ok b)
  | error {e : ε} : Sim R (.error e) (.error e)

namespace Sim

variable {R : α → β → Prop} {S : γ → δ → Prop} {x : Except ε α} {y : Except ε β}

theorem refl (x : Except ε α) : Sim Eq x x := by
  cases x with
  | ok a => exact .ok rfl
  | error e => exact .error

theorem eq {x y : Except ε α} (h : Sim Eq x y) : x = y := by
  cases h with
  | ok hab => rw [hab]
  | error => rfl

theorem of_eq {x y : Except ε α} (h : x = y) : Sim Eq x y := h ▸ refl x

/-- Simulations compose along sequencing. -/
theorem bind {f : α → Except ε γ} {g : β → Except ε δ} (h : Sim R x y)
    (hfg : ∀ a b, R a b → Sim S (f a) (g b)) : Sim S (x >>= f) (y >>= g) := by
  cases h with
  | ok hab => exact hfg _ _ hab
  | error => exact .error

/-- Simulations compose along sequencing, and the rest knows what the first step returned. -/
theorem bind' {f : α → Except ε γ} {g : β → Except ε δ} (h : Sim R x y)
    (hfg : ∀ a b, x = .ok a → y = .ok b → R a b → Sim S (f a) (g b)) : Sim S (x >>= f) (y >>= g) := by
  cases h with
  | ok hab => exact hfg _ _ rfl rfl hab
  | error => exact .error

/-- Sequencing after a step that is known to return on the right. -/
theorem bind_ok {b : β} {f : α → Except ε γ} {z : Except ε δ} (h : Sim R x (.ok b))
    (hf : ∀ a, R a b → Sim S (f a) z) : Sim S (x >>= f) z := by
  cases h with
  | ok hab => exact hf _ hab

/-- A conditional call, where both sides test alike. -/
theorem runIf {f : α → Except ε α} {g : β → Except ε β} {a : α} {b : β} {c d : Prop}
    [Decidable c] [Decidable d] (hcd : c ↔ d) (hab : R a b) (h : d → Sim R (f a) (g b)) :
    Sim R (runIf c f a) (runIf d g b) := by
  by_cases hd : d
  · rw [runIf_pos (hcd.mpr hd), runIf_pos hd]
    exact h hd
  · rw [runIf_neg (fun hc => hd (hcd.mp hc)), runIf_neg hd]
    exact .ok hab

/-- A conditional call against a conditional value. -/
theorem runIf_ok {f : α → Except ε α} {a : α} {b b' : β} {c d : Prop}
    [Decidable c] [Decidable d] (hcd : c ↔ d) (hab : R a b) (h : d → Sim R (f a) (.ok b')) :
    Sim R (CoEditor.runIf c f a) (.ok (if d then b' else b) : Except ε β) := by
  by_cases hd : d
  · rw [runIf_pos (hcd.mpr hd), if_pos hd]
    exact h hd
  · rw [runIf_neg (fun hc => hd (hcd.mp hc)), if_neg hd]
    exact .ok hab

theorem of_exists {b : β} (h : ∃ a, x = .ok a ∧ R a b) : Sim R x (.ok b : Except ε β) := by
  obtain ⟨a, rfl, hab⟩ := h
  exact .ok hab

/-- Loops over the same list end alike if their bodies do. -/
theorem foldlM {ι : Type} {f : α → ι → Except ε α} {g : β → ι → Except ε β} (l : List ι)
    (hfg : ∀ a b i, R a b → Sim R (f a i) (g b i)) :
    ∀ {a : α} {b : β}, R a b → Sim R (l.foldlM f a) (l.foldlM g b) := by
  induction l with
  | nil => exact fun hab => .ok hab
  | cons i l ih => exact fun hab => (hfg _ _ i hab).bind fun a' b' hab' => ih hab'

/-- A simulation also says which results it relates. -/
theorem and_eq (h : Sim R x y) : Sim (fun a b => R a b ∧ x = .ok a ∧ y = .ok b) x y := by
  cases h with
  | ok hab => exact .ok ⟨hab, rfl, rfl⟩
  | error => exact .error

/-- Only the left side goes on, and its rest returns what the right side has. -/
theorem bind_left {T : γ → β → Prop} {f : α → Except ε γ} (h : Sim R x y)
    (hf : ∀ a b, R a b → Sim T (f a) (.ok b)) : Sim T (x >>= f) y := by
  cases h with
  | ok hab => exact hf _ _ hab
  | error => exact .error

/-- The values of both calls are post-processed. -/
theorem map {f : α → γ} {g : β → δ} (h : Sim R x y) (hfg : ∀ a b, R a b → S (f a) (g b)) : Sim S (f <$> x) (g <$> y) := by
  cases h with
  | ok hab => exact .ok (hfg _ _ hab)
  | error => exact .error

/-- Only the value of the first call is post-processed. -/
theorem map_left {T : γ → β → Prop} {f : α → γ} (h : Sim R x y) (hf : ∀ a b, R a b → T (f a) b) :
    Sim T (f <$> x) y := by
  cases h with
  | ok hab => exact .ok (hf _ _ hab)
  | error => exact .error

theorem mono {R' : α → β → Prop} (h : Sim R x y) (hR : ∀ a b, R a b → R' a b) :
    Sim R' x y := by
  cases h with
  | ok hab => exact .ok (hR _ _ hab)
  | error => exact .error

/-- What the first call returns, the second one returns too. -/
theorem of_ok_left {a : α} (h : Sim R (.ok a : Except ε α) y) : ∃ b, y = .ok b ∧ R a b := by
  cases h with
  | ok hab => exact ⟨_, rfl, hab⟩

theorem of_ok_right {b : β} (h : Sim R x (.ok b : Except ε β)) : ∃ a, x = .ok a ∧ R a b := by
  cases h with
  | ok hab => exact ⟨_, rfl, hab⟩

/-- Both calls stop at the same faults. -/
theorem error_iff (h : Sim R x y) (e : ε) : x = .error e ↔ y = .error e := by
  cases h with
  | ok hab => simp
  | error => simp

end Sim

end CoEditor
