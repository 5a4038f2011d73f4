-- SUMMARY: A hub and a leaf that make the same changes in different orders, and when they stay in step.
import Mathlib.Data.List.Basic

/-!
# Changes that cross

A leaf makes its own changes at once and sends them up to the hub; the hub makes
the changes of all leaves as they arrive, and sends each down to the other
leaves. Hub and leaf are in step if they would have the same state after all
changes under way between them. They stay in step exactly as long as it makes no
difference which of the changes that cross comes first.
-/

namespace CoEditor

variable {σ α : Type} {apply : σ → α → σ} {s hub leaf : σ} {a : α} {ops up down : List α}

/-- It is the same to make `a` before or after the changes `ops`. -/
def Commutes (apply : σ → α → σ) (a : α) (s : σ) (ops : List α) : Prop :=
  ops.foldl apply (apply s a) = apply (ops.foldl apply s) a

/-- It is the same to make `a` before or after each of the changes `ops`. -/
def Passes (apply : σ → α → σ) (a : α) : σ → List α → Prop
  | _, [] => True
  | s, b :: ops => apply (apply s a) b = apply (apply s b) a ∧ Passes apply a (apply s b) ops

theorem Passes.commutes (h : Passes apply a s ops) : Commutes apply a s ops := by
  induction ops generalizing s with
  | nil => rfl
  | cons b ops ih => rw [Commutes, List.foldl_cons, List.foldl_cons, h.1, ih h.2]

/-- `up` is on the way from the leaf to the hub, and `down` on the way back. -/
def InStep (apply : σ → α → σ) (hub leaf : σ) (up down : List α) : Prop := down.foldl apply leaf = up.foldl apply hub

namespace InStep

/-- The leaf makes a change of its own. -/
theorem press_iff (h : InStep apply hub leaf up down) :
    InStep apply hub (apply leaf a) (up ++ [a]) down ↔ Commutes apply a leaf down := by
  rw [InStep, Commutes, h, List.foldl_append, List.foldl_cons, List.foldl_nil]

/-- A change of the leaf arrives at the hub. -/
theorem own (h : InStep apply hub leaf (a :: up) down) : InStep apply (apply hub a) leaf up down := h

/-- A change of another leaf arrives at the hub. -/
theorem other_iff (h : InStep apply hub leaf up down) :
    InStep apply (apply hub a) leaf up (down ++ [a]) ↔ Commutes apply a hub up := by
  rw [InStep, Commutes, ← h, List.foldl_append, List.foldl_cons, List.foldl_nil, eq_comm]

/-- A change arrives at the leaf. -/
theorem deliver (h : InStep apply hub leaf up (a :: down)) : InStep apply hub (apply leaf a) up down := h

/-- With nothing under way the states are the same. -/
theorem quiet (h : InStep apply hub leaf [] []) : leaf = hub := h

end InStep

end CoEditor
