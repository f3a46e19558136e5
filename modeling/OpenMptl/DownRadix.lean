/-
A time of two digits whose low digit counts down.  A period has `base` units; the
high digit counts periods, the low digit says what is left of the current one.
Both ends of the low digit are in use, so that the end of a period and the start
of the next one are the same time.
-/
import Mathlib.Data.Int.ModEq
import Mathlib.Tactic.Linarith
import Mathlib.Tactic.Ring

namespace OpenMptl

namespace DownRadix

/-- The units that have passed: all periods, and the used part of one more. -/
def value (base high low : ℤ) : ℤ := high * base + (base - low)

variable {base high high' low low' m : ℤ}

theorem value_add_high (d : ℤ) :
    value base (high + d) low = value base high low + d * base := by
  unfold value
  ring

theorem value_sub_low (d : ℤ) : value base high (low - d) = value base high low + d := by
  unfold value
  ring

/-- A borrow exchanges one period for `base` units. -/
theorem value_borrow : value base (high + 1) (low + base) = value base high low := by
  unfold value
  ring

/-- One period less, and what it is short of a whole period. -/
theorem value_sub_one_sub :
    value base (high - 1) (low - low') = high * base + (low' - low) := by
  unfold value
  ring

theorem value_sub_value :
    value base high low - value base high' low' = (high - high') * base + (low' - low) := by
  unfold value
  ring

/-- A high digit that wraps around changes the time by whole rounds. -/
theorem value_modEq (h : high ≡ high' [ZMOD m]) :
    value base high low ≡ value base high' low [ZMOD base * m] := by
  have hrounds := h.mul_left' (c := base)
  rw [mul_comm base high, mul_comm base high'] at hrounds
  exact hrounds.add_right _

theorem value_le_of_high_lt (hbase : 0 ≤ base) (hlow : 0 ≤ low) (hlow' : low' ≤ base)
    (h : high < high') : value base high low ≤ value base high' low' := by
  have hperiods := mul_le_mul_of_nonneg_right (Int.add_one_le_of_lt h) hbase
  unfold value
  linarith

/-- Different times compare by the high digits first, then by the low ones. -/
theorem value_lt_value_iff (hbase : 0 ≤ base) (hlow : 0 ≤ low ∧ low ≤ base)
    (hlow' : 0 ≤ low' ∧ low' ≤ base) (hne : value base high low ≠ value base high' low') :
    value base high low < value base high' low' ↔
      high < high' ∨ high = high' ∧ low' < low := by
  rcases lt_trichotomy high high' with hlt | rfl | hgt
  · have hle := value_le_of_high_lt hbase hlow.1 hlow'.2 hlt
    exact iff_of_true (lt_of_le_of_ne hle hne) (.inl hlt)
  · have hdiff := @value_sub_value base high high low low'
    constructor
    · intro h
      exact .inr ⟨rfl, by linarith⟩
    · rintro (h | ⟨-, h⟩)
      · exact absurd h (lt_irrefl _)
      · linarith
  · have hle := value_le_of_high_lt hbase hlow'.1 hlow.2 hgt
    refine iff_of_false hle.not_gt ?_
    rintro (h | ⟨h, -⟩)
    · exact lt_asymm h hgt
    · exact hgt.ne h.symm

end DownRadix

end OpenMptl
