-- SUMMARY: A heap of cells with allocation, update and release, and its read-over-write laws.
import CoEditor.Lib.Outcome
import Mathlib.Data.List.Perm.Subperm

/-!
# Heaps

A heap hands out addresses in increasing order and never gives one out twice,
so a released cell can be told from one that was never allocated and a stale
pointer never comes back to life.
-/

namespace CoEditor

/-- The address of a heap cell. A pointer that may be `NULL` is an `Option Ptr`. -/
abbrev Ptr := Nat

/-- The cells handed out so far; a released cell is `none`. -/
structure Heap (α : Type) where
  cells : List (Option α)

namespace Heap

variable {α : Type}

def empty : Heap α := ⟨[]⟩

/-- The live cell at an address. -/
def get? (h : Heap α) (p : Ptr) : Option α := h.cells[p]?.join

def malloc (h : Heap α) (x : α) : Heap α × Ptr := (⟨h.cells ++ [some x]⟩, h.cells.length)

def set (h : Heap α) (p : Ptr) (x : α) : Heap α := ⟨h.cells.set p (some x)⟩

def free (h : Heap α) (p : Ptr) : Heap α := ⟨h.cells.set p none⟩

/-! ## Reading after writing -/

theorem lt_of_get? {h : Heap α} {p : Ptr} {x : α} (hp : h.get? p = some x) :
    p < h.cells.length := by
  by_cases hlt : p < h.cells.length
  · exact hlt
  · rw [get?, List.getElem?_eq_none (Nat.le_of_not_lt hlt)] at hp
    simp at hp

/-- Writing a live cell changes that cell and no other. -/
theorem get?_set {h : Heap α} {p q : Ptr} {x y : α} (hp : h.get? p = some y) :
    (h.set p x).get? q = if q = p then some x else h.get? q := by
  have hlt := lt_of_get? hp
  by_cases hq : q = p
  · subst hq
    simp [get?, set, hlt]
  · have hpq : p ≠ q := fun e => hq e.symm
    simp [get?, set, hq, hpq]

theorem get?_set_self {h : Heap α} {p : Ptr} {x y : α} (hp : h.get? p = some y) :
    (h.set p x).get? p = some x := by
  rw [get?_set hp, if_pos rfl]

theorem get?_set_ne {h : Heap α} {p q : Ptr} {x : α} (hq : q ≠ p) :
    (h.set p x).get? q = h.get? q := by
  have hpq : p ≠ q := fun e => hq e.symm
  simp [get?, set, hpq]

theorem get?_free_ne {h : Heap α} {p q : Ptr} (hq : q ≠ p) :
    (h.free p).get? q = h.get? q := by
  have hpq : p ≠ q := fun e => hq e.symm
  simp [get?, free, hpq]

theorem get?_malloc_self (h : Heap α) (x : α) :
    (h.malloc x).1.get? (h.malloc x).2 = some x := by
  simp [get?, malloc]

theorem get?_malloc_of_get? {h : Heap α} {p : Ptr} {x y : α} (hp : h.get? p = some y) :
    (h.malloc x).1.get? p = some y := by
  have hlt := lt_of_get? hp
  simpa [get?, malloc, List.getElem?_append_left hlt] using hp

theorem get?_free_self (h : Heap α) (p : Ptr) : (h.free p).get? p = none := by
  rcases Nat.lt_or_ge p h.cells.length with hlt | hle
  · simp [get?, free, hlt]
  · simp [get?, free, hle]

/-! ## Live cells -/

/-- The addresses of the cells that have not been released. -/
def live (h : Heap α) : List Ptr := (List.range h.cells.length).filter fun p => (h.get? p).isSome

theorem mem_live {h : Heap α} {p : Ptr} : p ∈ h.live ↔ ∃ x, h.get? p = some x := by
  rw [live, List.mem_filter, List.mem_range, Option.isSome_iff_exists, and_iff_right_iff_imp]
  exact fun ⟨x, hx⟩ => lt_of_get? hx

theorem nodup_live (h : Heap α) : h.live.Nodup := List.nodup_range.filter _

theorem length_live_le (h : Heap α) : h.live.length ≤ h.cells.length := by
  have hle := List.length_filter_le (fun p => (h.get? p).isSome) (List.range h.cells.length)
  rwa [List.length_range] at hle

theorem live_set {h : Heap α} {p : Ptr} {x y : α} (hp : h.get? p = some y) : (h.set p x).live = h.live := by
  have hlen : (h.set p x).cells.length = h.cells.length := List.length_set
  rw [live, live, hlen]
  refine List.filter_congr fun q _ => ?_
  rw [get?_set hp]
  split
  · next hq => rw [hq, hp]; rfl
  · rfl

theorem live_malloc (h : Heap α) (x : α) : (h.malloc x).1.live = h.live ++ [h.cells.length] := by
  have hlen : (h.malloc x).1.cells.length = h.cells.length + 1 := by simp [malloc]
  have hnew : (h.malloc x).1.get? h.cells.length = some x := get?_malloc_self h x
  rw [live, hlen, List.range_succ, List.filter_append, List.filter_singleton, hnew]
  congr 1
  refine List.filter_congr fun q hq => ?_
  rw [get?, malloc, List.getElem?_append_left (List.mem_range.mp hq), get?]

theorem live_free {h : Heap α} {p : Ptr} {x : α} (hp : h.get? p = some x) : (h.free p).live.length + 1 = h.live.length := by
  have hlen : (h.free p).cells.length = h.cells.length := List.length_set
  have herase : (h.free p).live = h.live.erase p := by
    rw [h.nodup_live.erase_eq_filter, live, live, hlen, List.filter_filter]
    refine List.filter_congr fun q _ => ?_
    by_cases hq : q = p
    · simp [hq, get?_free_self]
    · simp [hq, get?_free_ne hq]
  have hmem : p ∈ h.live := mem_live.mpr ⟨x, hp⟩
  rw [herase, List.length_erase_of_mem hmem]
  exact Nat.succ_pred_eq_of_pos (List.length_pos_of_mem hmem)

/-- As many live cells as there are live ones are all that there are. -/
theorem mem_of_live {h : Heap α} {ps : List Ptr} (hnodup : ps.Nodup) (hps : ∀ p ∈ ps, ∃ x, h.get? p = some x)
    (hlen : h.live.length ≤ ps.length) {p : Ptr} {x : α} (hp : h.get? p = some x) : p ∈ ps := by
  have hsub : ps ⊆ h.live := fun q hq => mem_live.mpr (hps q hq)
  exact ((hnodup.subperm hsub).perm_of_length_le hlen).mem_iff.mpr (mem_live.mpr ⟨x, hp⟩)

end Heap

end CoEditor
