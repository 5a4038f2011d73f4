-- SUMMARY: Rounding a fraction to the nearest number of a floating-point format, and the range of the format.
import Mathlib.Algebra.Order.Group.Nat
import Mathlib.Data.Nat.Log

/-!
# Floating-point formats

A number of a format that is not negative is a multiple of the smallest positive
one. It is kept as this multiple, so that fractions are rounded and compared in
natural numbers.
-/

namespace CoEditor

/-- Every number has at most `prec` significant bits, is below `2 ^ top` and is a multiple of `2 ^ -depth`. -/
structure Format where
  prec : Nat
  top : Nat
  depth : Nat
  prec_pos : 0 < prec
  prec_le_top : prec ≤ top

namespace Format

/-- IEEE 754 binary64. -/
def double : Format := ⟨53, 1024, 1074, by decide, by decide⟩

/-- The whole number nearest to `a / b`, the even one of two. -/
def roundQuot (a b : Nat) : Nat :=
  if 2 * (a % b) < b ∨ (2 * (a % b) = b ∧ a / b % 2 = 0) then a / b else a / b + 1

variable (F : Format)

/-- The number `1`, in units of the smallest one. -/
def one : Nat := 2 ^ F.depth

/-- The place of the last significant bit of `a / b`; no number has a lower one than the unit. -/
def lastPlace (a b : Nat) : Nat := 2 ^ (Nat.log2 (a * F.one / b) + 1 - F.prec)

/-- The number nearest to `a / b`, ties to even, as if there was no largest one. -/
def nearest (a b : Nat) : Nat := roundQuot (a * F.one) (b * F.lastPlace a b) * F.lastPlace a b

/-- The nearest number would be `2 ^ top` or more. -/
def Overflows (a b : Nat) : Prop := 2 ^ F.top * F.one ≤ F.nearest a b

/-- `a / b` is no number of the format, and it is so small that rounding it to `prec` bits would leave it below the
    numbers that have all of them. -/
def Underflows (a b : Nat) : Prop :=
  4 * a * F.one < b * (2 ^ (F.prec + 1) - 1) ∧ F.nearest a b * b ≠ a * F.one

instance (a b : Nat) : Decidable (F.Overflows a b) := inferInstanceAs (Decidable (_ ≤ _))
instance (a b : Nat) : Decidable (F.Underflows a b) := inferInstanceAs (Decidable (_ ∧ _))

/-- The integer part of the number nearest to `a / b`; `none` if the fraction is out of range. -/
@[irreducible] def floor (a b : Nat) : Option Nat :=
  if F.Overflows a b ∨ F.Underflows a b then none else some (F.nearest a b / F.one)

theorem one_pos : 0 < F.one := Nat.two_pow_pos _

theorem roundQuot_mul {b : Nat} (hb : 0 < b) (m : Nat) : roundQuot (b * m) b = m := by
  rw [roundQuot, Nat.mul_mod_right, Nat.mul_div_cancel_left m hb, if_pos (.inl (by omega))]

variable {F}

/-- A whole number with few enough bits is a number of the format. -/
theorem nearest_nat {n : Nat} (hn : n < 2 ^ F.prec) : F.nearest n 1 = n * F.one := by
  -- the last place of so short a number is not above the unit, so that rounding cuts nothing off
  have hbits : Nat.log2 (n * F.one) + 1 - F.prec ≤ F.depth := by
    by_cases h0 : n * F.one = 0
    · have := F.prec_pos
      rw [h0, Nat.log2_zero]
      omega
    · have hlt : n * F.one < 2 ^ (F.prec + F.depth) := by
        rw [Nat.pow_add]
        exact Nat.mul_lt_mul_of_pos_right hn F.one_pos
      have := (Nat.log2_lt h0).mpr hlt
      omega
  obtain ⟨m, hm⟩ : F.lastPlace n 1 ∣ n * F.one := by
    rw [lastPlace, Nat.div_one]
    exact Nat.dvd_mul_left_of_dvd (Nat.pow_dvd_pow 2 hbits) n
  have hpos : 0 < F.lastPlace n 1 := Nat.two_pow_pos _
  rw [nearest, hm, Nat.one_mul, roundQuot_mul hpos, Nat.mul_comm]

theorem floor_nat {n : Nat} (hn : n < 2 ^ F.prec) : F.floor n 1 = some n := by
  have hover : ¬ F.Overflows n 1 := by
    rw [Overflows, nearest_nat hn, Nat.not_le]
    exact Nat.mul_lt_mul_of_pos_right (hn.trans_le (Nat.pow_le_pow_right (by decide) F.prec_le_top)) F.one_pos
  have hunder : ¬ F.Underflows n 1 := fun h => h.2 (by rw [nearest_nat hn, Nat.mul_one])
  rw [floor, if_neg (not_or.mpr ⟨hover, hunder⟩), nearest_nat hn, Nat.mul_div_cancel _ F.one_pos]

example : double.floor 599999999999999999999 100000000000000000000 = some 6 := by decide +kernel
example : double.floor 1 (10 ^ 400) = none := by decide +kernel

end Format

end CoEditor
