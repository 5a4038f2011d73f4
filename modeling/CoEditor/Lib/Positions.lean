-- SUMMARY: How positions in a list move when an element is put in or taken out.
import Mathlib.Data.List.InsertIdx

/-!
# Positions in a list

A mark that names an element by its position has to move when the list changes
before it. `bump` and `unbump` are these movements, and the lemmas say that the
moved position holds what the old one held.
-/

namespace CoEditor

variable {α : Type}

/-- Where position `i` goes when an element is put in at position `k`. -/
def bump (k i : Nat) : Nat := if k ≤ i then i + 1 else i

/-- Where position `i` goes when element `k` is taken out. -/
def unbump (k i : Nat) : Nat := if k < i then i - 1 else i

/-! ## Order -/

theorem bump_lt {k i n : Nat} (hi : i < n) : bump k i < n + 1 := by grind [bump]

theorem bump_mono {k i j : Nat} (hij : i ≤ j) : bump k i ≤ bump k j := by grind [bump]

theorem bump_lt_bump {k i j : Nat} (hij : i < j) : bump k i < bump k j := by grind [bump]

theorem unbump_lt {k i n : Nat} (hi : i < n) (hik : i ≠ k) (hk : k < n) : unbump k i < n - 1 := by
  grind [unbump]

theorem unbump_mono {k i j : Nat} (hij : i ≤ j) : unbump k i ≤ unbump k j := by grind [unbump]

/-! ## Elements -/

theorem getElem?_insertIdx_bump (l : List α) (k i : Nat) (x : α) :
    (l.insertIdx k x)[bump k i]? = l[i]? := by
  unfold bump
  split
  · rw [List.getElem?_insertIdx_of_gt (by omega)]
    simp
  · rw [List.getElem?_insertIdx_of_lt (by omega)]

theorem getElem?_eraseIdx_unbump (l : List α) {k i : Nat} (hi : i ≠ k) :
    (l.eraseIdx k)[unbump k i]? = l[i]? := by
  unfold unbump
  split
  · rw [List.getElem?_eraseIdx_of_ge (by omega)]
    congr 1
    omega
  · rw [List.getElem?_eraseIdx_of_lt (by omega)]

end CoEditor
