/-
Fields of a machine word: consecutive bit positions, read as a number.  A field
depends on its own positions only, so writing one leaves the disjoint ones alone.
-/
import OpenMptl.BitMask

namespace OpenMptl

/-- The bit positions of a field. -/
def fieldBits (offset width : Nat) : Set Nat := { i | offset ≤ i ∧ i < offset + width }

/-- The content of a field. -/
def fieldOf (offset width v : Nat) : Nat := (v >>> offset) % 2 ^ width

variable {offset width v x : Nat}

@[simp] theorem mem_fieldBits (offset width i : Nat) :
    i ∈ fieldBits offset width ↔ offset ≤ i ∧ i < offset + width := Iff.rfl

theorem fieldOf_lt (offset width v : Nat) : fieldOf offset width v < 2 ^ width :=
  Nat.mod_lt _ (Nat.two_pow_pos width)

theorem testBit_fieldOf (offset width v i : Nat) :
    (fieldOf offset width v).testBit i = (decide (i < width) && v.testBit (offset + i)) := by
  rw [fieldOf, Nat.testBit_mod_two_pow, Nat.testBit_shiftRight]

theorem mem_bits_shiftLeft (x offset i : Nat) :
    i ∈ bits (x <<< offset) ↔ offset ≤ i ∧ i - offset ∈ bits x := by
  simp [Nat.testBit_shiftLeft]

theorem bits_shiftLeft_subset (hx : x < 2 ^ width) :
    bits (x <<< offset) ⊆ fieldBits offset width := by
  intro i hi
  obtain ⟨hle, hmem⟩ := (mem_bits_shiftLeft x offset i).mp hi
  have hlt := lt_of_mem_bits hx hmem
  exact ⟨hle, by omega⟩

/-- A field holds `x` when the word shows the shifted `x` at its positions. -/
theorem fieldOf_eq_iff :
    fieldOf offset width v = x ↔
      bits v ∩ fieldBits offset width = bits (x <<< offset) := by
  rw [← bits_injective.eq_iff, Set.ext_iff, Set.ext_iff]
  constructor
  · intro h i
    rw [mem_bits_shiftLeft, Set.mem_inter_iff, mem_fieldBits]
    rcases Nat.lt_or_ge i offset with hlow | hhigh
    · simp [Nat.not_le.mpr hlow]
    · have hbit := h (i - offset)
      rw [mem_bits, testBit_fieldOf, Nat.add_sub_cancel' hhigh, Bool.and_eq_true,
        decide_eq_true_eq] at hbit
      rw [← hbit, mem_bits, and_iff_right hhigh, and_iff_right hhigh, and_comm]
      exact and_congr_left' (by omega)
  · intro h i
    have hbit := h (offset + i)
    rw [mem_bits_shiftLeft, Set.mem_inter_iff, mem_fieldBits, Nat.add_sub_cancel_left,
      and_iff_right (Nat.le_add_right offset i), and_iff_right (Nat.le_add_right offset i)]
      at hbit
    rw [mem_bits, testBit_fieldOf, Bool.and_eq_true, decide_eq_true_eq, and_comm, ← hbit,
      mem_bits]
    exact and_congr_right' (by omega)

/-- A word whose field has been cleared and filled holds the new value. -/
theorem fieldOf_of_write {v' : Nat} (hx : x < 2 ^ width)
    (h : bits v' = bits v \ fieldBits offset width ∪ bits (x <<< offset)) :
    fieldOf offset width v' = x := by
  have hsub : bits (x <<< offset) ⊆ fieldBits offset width := bits_shiftLeft_subset hx
  rw [fieldOf_eq_iff, h, Set.union_inter_distrib_right, Set.sdiff_inter_self, Set.empty_union,
    Set.inter_eq_left.mpr hsub]

theorem fieldOf_eq_zero_iff :
    fieldOf offset width v = 0 ↔ bits v ∩ fieldBits offset width = ∅ := by
  rw [fieldOf_eq_iff, Nat.zero_shiftLeft, bits_zero]

/-- The field sees its own positions only. -/
theorem fieldOf_congr {v' : Nat}
    (h : bits v ∩ fieldBits offset width = bits v' ∩ fieldBits offset width) :
    fieldOf offset width v = fieldOf offset width v' := by
  rw [fieldOf_eq_iff, h, ← fieldOf_eq_iff]

/-- A word masked to the field and shifted down is the field. -/
theorem and_shiftRight_eq_fieldOf {mask : Nat} (hmask : bits mask = fieldBits offset width) :
    (v &&& mask) >>> offset = fieldOf offset width v := by
  apply Nat.eq_of_testBit_eq
  intro i
  have hbit : mask.testBit (offset + i) = decide (i < width) := by
    rw [Bool.eq_iff_iff, ← mem_bits, hmask, mem_fieldBits, decide_eq_true_iff]
    omega
  rw [Nat.testBit_shiftRight, Nat.testBit_and, testBit_fieldOf, hbit, Bool.and_comm]

theorem and_eq_shiftLeft_iff {mask : Nat} (hmask : bits mask = fieldBits offset width) :
    v &&& mask = x <<< offset ↔ fieldOf offset width v = x := by
  rw [fieldOf_eq_iff, ← hmask, ← bits_and, bits_injective.eq_iff]

theorem and_ne_zero_iff {mask : Nat} (hmask : bits mask = fieldBits offset width) :
    v &&& mask ≠ 0 ↔ fieldOf offset width v ≠ 0 := by
  rw [ne_eq, ne_eq, ← bits_eq_empty_iff, bits_and, hmask, fieldOf_eq_zero_iff]

theorem and_ne_zero_iff_exists (a b : Nat) : a &&& b ≠ 0 ↔ ∃ i, i ∈ bits a ∧ i ∈ bits b := by
  rw [ne_eq, ← bits_eq_empty_iff, bits_and, ← ne_eq, ← Set.nonempty_iff_ne_empty]
  rfl

/-- A shifted value shares a bit with the word when it shares one with the field. -/
theorem and_shiftLeft_ne_zero_iff (hx : x < 2 ^ width) :
    v &&& x <<< offset ≠ 0 ↔ fieldOf offset width v &&& x ≠ 0 := by
  rw [and_ne_zero_iff_exists, and_ne_zero_iff_exists]
  constructor
  · rintro ⟨i, hv, hi⟩
    obtain ⟨hle, hmem⟩ := (mem_bits_shiftLeft x offset i).mp hi
    have hlt := lt_of_mem_bits hx hmem
    refine ⟨i - offset, ?_, hmem⟩
    rw [mem_bits, testBit_fieldOf, Nat.add_sub_cancel' hle, decide_eq_true hlt, Bool.true_and]
    exact hv
  · rintro ⟨i, hfield, hmem⟩
    rw [mem_bits, testBit_fieldOf, Bool.and_eq_true] at hfield
    refine ⟨offset + i, hfield.2, ?_⟩
    rw [mem_bits_shiftLeft, Nat.add_sub_cancel_left]
    exact ⟨Nat.le_add_right offset i, hmem⟩

/-- A field below bit `n` does not see the bits from `n` on. -/
theorem fieldOf_mod_two_pow {n : Nat} (h : offset + width ≤ n) :
    fieldOf offset width (v % 2 ^ n) = fieldOf offset width v := by
  apply fieldOf_congr
  ext i
  simp only [Set.mem_inter_iff, mem_bits, Nat.testBit_mod_two_pow, mem_fieldBits,
    Bool.and_eq_true, decide_eq_true_eq]
  constructor
  · rintro ⟨⟨-, hbit⟩, hi⟩
    exact ⟨hbit, hi⟩
  · rintro ⟨hbit, hi⟩
    exact ⟨⟨by omega, hbit⟩, hi⟩

/-- The all-ones value fills its field. -/
theorem bits_ones_shiftLeft (offset width : Nat) :
    bits ((2 ^ width - 1) <<< offset) = fieldBits offset width := by
  ext i
  rw [mem_bits_shiftLeft, mem_bits, Nat.testBit_two_pow_sub_one, decide_eq_true_iff,
    mem_fieldBits]
  omega

end OpenMptl
