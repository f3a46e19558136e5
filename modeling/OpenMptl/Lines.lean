/-
A stream cut into lines at a separator: the lines that a separator has ended, and
the line still open at the end.  A stream grows at its end, so the lemmas say what
one more element does.
-/
import Mathlib.Data.List.Basic

namespace OpenMptl

universe u

variable {α : Type u} [DecidableEq α] (sep : α)

/-- The lines that are ended by a separator. -/
def completeLines (input : List α) : List (List α) := (input.splitOn sep).dropLast

/-- What stands behind the last separator. -/
def partialLine (input : List α) : List α :=
  (input.splitOn sep).getLast (List.splitOn_ne_nil sep input)

theorem splitOn_eq_lines (input : List α) :
    input.splitOn sep = completeLines sep input ++ [partialLine sep input] :=
  (List.dropLast_append_getLast (List.splitOn_ne_nil sep input)).symm

/-- A decomposition of the split is the one into complete and partial lines. -/
theorem lines_of_splitOn_eq {input : List α} {lines : List (List α)} {last : List α}
    (h : input.splitOn sep = lines ++ [last]) :
    completeLines sep input = lines ∧ partialLine sep input = last := by
  have hsplit := (splitOn_eq_lines sep input).symm.trans h
  simpa using List.append_inj' hsplit rfl

@[simp] theorem completeLines_nil : completeLines sep ([] : List α) = [] := rfl

@[simp] theorem partialLine_nil : partialLine sep ([] : List α) = [] := rfl

theorem splitOn_concat_of_ne {sep c : α} (hc : c ≠ sep) (input : List α) :
    (input ++ [c]).splitOn sep =
      completeLines sep input ++ [partialLine sep input ++ [c]] := by
  induction input with
  | nil => exact List.splitOn_eq_singleton (by simpa using hc.symm)
  | cons x xs ih =>
      have hcons : (x :: xs).splitOn sep = _ := List.splitOn_cons_eq_if_modifyHead x xs
      rw [splitOn_eq_lines sep xs] at hcons
      rw [List.cons_append, List.splitOn_cons_eq_if_modifyHead, ih]
      by_cases hx : (x == sep) = true
      · rw [if_pos hx] at hcons ⊢
        obtain ⟨hlines, hlast⟩ :=
          @lines_of_splitOn_eq α _ sep (x :: xs) ([] :: completeLines sep xs) _ hcons
        rw [hlines, hlast]
        rfl
      · rw [if_neg hx] at hcons ⊢
        cases hxs : completeLines sep xs with
        | nil =>
            rw [hxs] at hcons
            obtain ⟨hlines, hlast⟩ := @lines_of_splitOn_eq α _ sep (x :: xs) [] _ hcons
            rw [hlines, hlast]
            rfl
        | cons line rest =>
            rw [hxs] at hcons
            obtain ⟨hlines, hlast⟩ :=
              @lines_of_splitOn_eq α _ sep (x :: xs) ((x :: line) :: rest) _ hcons
            rw [hlines, hlast]
            rfl

/-- A separator ends the partial line. -/
theorem lines_concat_sep (input : List α) :
    completeLines sep (input ++ [sep]) = completeLines sep input ++ [partialLine sep input] ∧
      partialLine sep (input ++ [sep]) = [] := by
  apply lines_of_splitOn_eq
  rw [List.splitOn_append_cons_self, ← splitOn_eq_lines]
  rfl

/-- Anything else is appended to it. -/
theorem lines_concat_of_ne {sep c : α} (hc : c ≠ sep) (input : List α) :
    completeLines sep (input ++ [c]) = completeLines sep input ∧
      partialLine sep (input ++ [c]) = partialLine sep input ++ [c] :=
  lines_of_splitOn_eq sep (splitOn_concat_of_ne hc input)

end OpenMptl
