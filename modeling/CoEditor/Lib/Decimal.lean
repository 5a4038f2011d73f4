-- SUMMARY: Decimal numerals as byte lists, read back and told apart.
import CoEditor.Lib.Utf8

/-!
# Decimal numerals

`digits n` is what `%d` prints for `n`, and `ofDigits` is the value of a list
of digits.
-/

namespace CoEditor

/-- The byte of an ASCII character. -/
def ch (c : Char) : UInt8 := UInt8.ofNat c.toNat

/-- The bytes of an ASCII string. -/
def bytes (s : String) : Bytes := s.toList.map ch

namespace Decimal

def isDigit (b : UInt8) : Bool := ch '0' ≤ b && b ≤ ch '9'

def natDigits (n : Nat) : Bytes := (Nat.toDigits 10 n).map ch

/-- The value of a list of digits. -/
def ofDigits (ds : Bytes) : Nat := ds.foldl (fun n d => 10 * n + (d.toNat - 48)) 0

/-- The decimal numeral of an integer. -/
def digits (n : Int) : Bytes := if n < 0 then ch '-' :: natDigits n.natAbs else natDigits n.natAbs

theorem isDigit_ch {c : Char} (h : c.isDigit = true) : isDigit (ch c) = true ∧ (ch c).toNat = c.toNat := by
  have hc : 48 ≤ c.toNat ∧ c.toNat ≤ 57 := by simpa [Char.isDigit, UInt32.le_iff_toNat_le] using h
  have hnat : (ch c).toNat = c.toNat := by
    rw [ch, UInt8.toNat_ofNat']
    omega
  refine ⟨?_, hnat⟩
  have h0 : (ch '0').toNat = 48 := rfl
  have h9 : (ch '9').toNat = 57 := rfl
  simp only [isDigit, Bool.and_eq_true, decide_eq_true_eq, UInt8.le_iff_toNat_le, h0, h9, hnat]
  exact hc

theorem isDigit_of_mem {n : Nat} {b : UInt8} (hb : b ∈ natDigits n) : isDigit b = true := by
  obtain ⟨c, hc, rfl⟩ := List.mem_map.mp hb
  exact (isDigit_ch (Nat.isDigit_of_mem_toDigits (by decide) (by decide) hc)).1

theorem natDigits_ne_nil (n : Nat) : natDigits n ≠ [] := by
  rw [natDigits, Ne, List.map_eq_nil_iff]
  exact Nat.toDigits_ne_nil

theorem ofDigits_natDigits (n : Nat) : ofDigits (natDigits n) = n := by
  have hfold : ∀ (cs : List Char) (k : Nat), (∀ c ∈ cs, c.isDigit = true) →
      (cs.map ch).foldl (fun n d => 10 * n + (d.toNat - 48)) k = Nat.ofDigitChars 10 cs k := by
    intro cs
    induction cs with
    | nil => intro k _; simp
    | cons c cs ih =>
        intro k hcs
        rw [List.map_cons, List.foldl_cons, (isDigit_ch (hcs c (by simp))).2, ih _ fun d hd => hcs d (by simp [hd]),
          Nat.ofDigitChars_cons]
        rfl
  rw [ofDigits, natDigits, hfold _ _ fun c hc => Nat.isDigit_of_mem_toDigits (by decide) (by decide) hc]
  exact Nat.ofDigitChars_ten_toDigits

/-- Only the numeral of zero starts with a zero. -/
theorem natDigits_head {n : Nat} {ds : Bytes} (h : natDigits n = ch '0' :: ds) : n = 0 := by
  induction n using Nat.strongRecOn generalizing ds with
  | ind n ih =>
      by_cases hn : n < 10
      · have hsmall : ∀ m < 10, (natDigits m).head? = some (ch '0') → m = 0 := by decide
        exact hsmall n hn (by rw [h]; rfl)
      · rw [natDigits, Nat.toDigits_of_base_le (by decide) (by omega), List.map_append] at h
        obtain ⟨d, ds', hd⟩ := List.exists_cons_of_ne_nil (natDigits_ne_nil (n / 10))
        rw [natDigits] at hd
        rw [hd] at h
        obtain ⟨rfl, -⟩ := List.cons.inj h
        have := ih (n / 10) (by omega) hd
        omega

theorem minus_notMem {n : Nat} : ch '-' ∉ natDigits n := fun h => absurd (isDigit_of_mem h) (by decide)

theorem digits_injective {m n : Int} (h : digits m = digits n) : m = n := by
  have hne : ∀ k l : Nat, ch '-' :: natDigits k ≠ natDigits l := by
    intro k l e
    exact minus_notMem (n := l) (by rw [← e]; simp)
  have hval : ∀ k l : Nat, natDigits k = natDigits l → k = l := by
    intro k l e
    rw [← ofDigits_natDigits k, e, ofDigits_natDigits]
  unfold digits at h
  split at h <;> split at h
  · have := hval _ _ (List.cons.inj h).2
    omega
  · exact absurd h (hne _ _)
  · exact absurd h.symm (hne _ _)
  · have := hval _ _ h
    omega

theorem zero_notMem_digits (n : Int) : (0 : UInt8) ∉ digits n := by
  intro h
  unfold digits at h
  split at h
  · rcases List.mem_cons.mp h with h | h
    · exact absurd h (by decide)
    · exact absurd (isDigit_of_mem h) (by decide)
  · exact absurd (isDigit_of_mem h) (by decide)

end Decimal

end CoEditor
