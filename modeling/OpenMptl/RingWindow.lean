/-
A window on an unbounded stream, kept in a ring of slots.  Element `k` of the
stream lives in slot `k % size`; as long as the window is shorter than the ring,
no two of its elements share a slot.
-/
import Mathlib.Data.List.Basic
import Mathlib.Data.Nat.ModEq
import Mathlib.Logic.Function.Basic

namespace OpenMptl

universe u

variable {α : Type u}

/-- From position `lo` on, the ring shows the elements of the stream. -/
def Window (size : Nat) (buf : Nat → α) (stream : List α) (lo : Nat) : Prop :=
  ∀ k, lo ≤ k → ∀ x, stream[k]? = some x → buf (k % size) = x

/-- Positions less than one round apart use different slots. -/
theorem slot_ne {size a b : Nat} (h : a < b) (hb : b < a + size) : a % size ≠ b % size := by
  intro heq
  have hdvd : size ∣ b - a := (Nat.modEq_iff_dvd' h.le).mp heq
  exact absurd (Nat.le_of_dvd (by omega) hdvd) (by omega)

/-- A position that does not meet the slot of `a` has not gone round yet. -/
theorem lt_round_of_slot_ne {size a b : Nat} (hb : b ≤ a + size)
    (hne : b % size ≠ a % size) : b < a + size := by
  refine lt_of_le_of_ne hb ?_
  rintro rfl
  exact hne (Nat.add_mod_right a size)

/-- Less than one round lies between two positions: it can be read off their slots. -/
theorem slot_distance {size a b : Nat} (h : a ≤ b) (hb : b < a + size) :
    (b % size + size - a % size) % size = b - a := by
  obtain ⟨d, rfl⟩ := Nat.exists_eq_add_of_le h
  have ha : a % size < size := Nat.mod_lt _ (by omega)
  rw [Nat.add_sub_cancel_left, ← Nat.mod_add_mod]
  rcases Nat.lt_or_ge (a % size + d) size with hin | hround
  · have hsum : a % size + d + size - a % size = d + size := by omega
    rw [Nat.mod_eq_of_lt hin, hsum, Nat.add_mod_right, Nat.mod_eq_of_lt (by omega)]
  · have hsum : a % size + d - size + size - a % size = d := by omega
    have hslot : (a % size + d - size) % size = a % size + d - size :=
      Nat.mod_eq_of_lt (by omega)
    rw [Nat.mod_eq_sub_mod hround, hslot, hsum, Nat.mod_eq_of_lt (by omega)]

namespace Window

variable {size lo : Nat} {buf : Nat → α} {stream pending : List α}

theorem empty (size : Nat) (buf : Nat → α) : Window size buf [] 0 := by
  intro k _ x hx
  simp at hx

/-- Dropping unpublished elements keeps the window. -/
theorem of_append (h : Window size buf (stream ++ pending) lo) :
    Window size buf stream lo := by
  intro k hk x hx
  have hlt : k < stream.length := (List.getElem?_eq_some_iff.mp hx).1
  exact h k hk x (by rw [List.getElem?_append_left hlt, hx])

theorem advance (h : Window size buf stream lo) {hi : Nat} (hle : lo ≤ hi) :
    Window size buf stream hi :=
  fun k hk => h k (hle.trans hk)

/-- The slot behind the last element is free, so writing it disturbs nothing. -/
theorem write (h : Window size buf stream lo) (hroom : stream.length < lo + size) (x : α) :
    Window size (Function.update buf (stream.length % size) x) (stream ++ [x]) lo := by
  intro k hk y hy
  rcases lt_trichotomy k stream.length with hlt | rfl | hgt
  · rw [List.getElem?_append_left hlt] at hy
    rw [Function.update_of_ne (slot_ne hlt (by omega))]
    exact h k hk y hy
  · simp only [List.getElem?_concat_length, Option.some.injEq] at hy
    rw [Function.update_self, hy]
  · have hlen : k < (stream ++ [x]).length := (List.getElem?_eq_some_iff.mp hy).1
    simp only [List.length_append, List.length_singleton] at hlen
    omega

/-- The elements from `lo` on can be read off the ring. -/
theorem drop_eq (h : Window size buf stream lo) :
    stream.drop lo = (List.range (stream.length - lo)).map fun k => buf ((lo + k) % size) := by
  apply List.ext_getElem?
  intro k
  rw [List.getElem?_drop, List.getElem?_map]
  by_cases hk : lo + k < stream.length
  · have hget := List.getElem?_eq_getElem hk
    rw [List.getElem?_range (by omega), hget, Option.map_some,
      h (lo + k) (Nat.le_add_right lo k) _ hget]
  · rw [List.getElem?_eq_none (by omega), List.getElem?_eq_none (by simp; omega),
      Option.map_none]

end Window

end OpenMptl
