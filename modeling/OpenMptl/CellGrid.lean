/-
Cells of a grid laid out row by row: rows are `stride` apart, cells of one row
`pitch` apart, and each takes `size` places.
-/
import Mathlib.Algebra.Order.Ring.Nat
import Mathlib.Tactic.Ring

namespace OpenMptl

namespace CellGrid

/-- Where the cell of column `x` and row `y` starts. -/
def start (stride pitch x y : Nat) : Nat := y * stride + x * pitch

variable {stride pitch size columns rows x y x' y' : Nat}

/-- No cell starts behind the one of the last column and row. -/
theorem start_le_last (hx : x < columns) (hy : y < rows) :
    start stride pitch x y ≤ start stride pitch (columns - 1) (rows - 1) :=
  Nat.add_le_add (Nat.mul_le_mul_right _ (Nat.le_sub_one_of_lt hy))
    (Nat.mul_le_mul_right _ (Nat.le_sub_one_of_lt hx))

/-- Cells of an earlier column of the same row end before a later one starts. -/
theorem end_le_start_of_column (hsize : size ≤ pitch) (hx : x < x') :
    start stride pitch x y + size ≤ start stride pitch x' y :=
  calc start stride pitch x y + size
      ≤ y * stride + x * pitch + pitch := Nat.add_le_add_left hsize _
    _ = y * stride + (x + 1) * pitch := by ring
    _ ≤ start stride pitch x' y := Nat.add_le_add_left (Nat.mul_le_mul_right _ hx) _

/-- Cells of an earlier row end before a later row starts, when a row holds its
columns. -/
theorem end_le_start_of_row (hrow : (columns - 1) * pitch + size ≤ stride) (hx : x < columns)
    (hy : y < y') : start stride pitch x y + size ≤ start stride pitch x' y' :=
  calc start stride pitch x y + size
      ≤ y * stride + (columns - 1) * pitch + size :=
        Nat.add_le_add_right (Nat.add_le_add_left
          (Nat.mul_le_mul_right _ (Nat.le_sub_one_of_lt hx)) _) _
    _ = y * stride + ((columns - 1) * pitch + size) := Nat.add_assoc _ _ _
    _ ≤ y * stride + stride := Nat.add_le_add_left hrow _
    _ = (y + 1) * stride := by ring
    _ ≤ y' * stride := Nat.mul_le_mul_right _ hy
    _ ≤ start stride pitch x' y' := Nat.le_add_right _ _

/-- Distinct cells do not overlap. -/
theorem separated (hsize : size ≤ pitch) (hrow : (columns - 1) * pitch + size ≤ stride)
    (hx : x < columns) (hx' : x' < columns) (hne : ¬ (x = x' ∧ y = y')) :
    start stride pitch x y + size ≤ start stride pitch x' y' ∨
      start stride pitch x' y' + size ≤ start stride pitch x y := by
  rcases Nat.lt_trichotomy y y' with hlt | rfl | hgt
  · exact Or.inl (end_le_start_of_row hrow hx hlt)
  · rcases Nat.lt_trichotomy x x' with hlt | rfl | hgt
    · exact Or.inl (end_le_start_of_column hsize hlt)
    · exact absurd ⟨rfl, rfl⟩ hne
    · exact Or.inr (end_le_start_of_column hsize hgt)
  · exact Or.inr (end_le_start_of_row hrow hx' hgt)

end CellGrid

end OpenMptl
