/-
Machine words as natural numbers, read as sets of bit positions.  The reading
turns the word operations into the Boolean algebra of `Set Nat`, so that a
set mask and a clear mask become one patch.
-/
import Mathlib.Data.Nat.Bitwise
import Mathlib.Order.BooleanAlgebra.Set
import OpenMptl.Patch

namespace OpenMptl

/-- The bit positions at which a word holds a one. -/
def bits (m : Nat) : Set Nat := { i | m.testBit i = true }

/-- Bitwise complement of a word of `w` bits. -/
def bitNot (w m : Nat) : Nat := (2 ^ w - 1) ^^^ m

@[simp] theorem mem_bits (m i : Nat) : i ∈ bits m ↔ m.testBit i = true := Iff.rfl

@[simp] theorem bits_zero : bits 0 = ∅ := by
  ext i
  simp

@[simp] theorem bits_or (a b : Nat) : bits (a ||| b) = bits a ∪ bits b := by
  ext i
  simp

@[simp] theorem bits_and (a b : Nat) : bits (a &&& b) = bits a ∩ bits b := by
  ext i
  simp

@[simp] theorem bits_two_pow (n : Nat) : bits (2 ^ n) = {n} := by
  ext i
  simp [Nat.testBit_two_pow, eq_comm]

theorem bits_injective : Function.Injective bits := by
  intro a b h
  apply Nat.eq_of_testBit_eq
  intro i
  exact Bool.eq_iff_iff.mpr (Set.ext_iff.mp h i)

theorem bits_eq_empty_iff (m : Nat) : bits m = ∅ ↔ m = 0 := by
  rw [← bits_zero]
  exact bits_injective.eq_iff

theorem lt_of_mem_bits {v w i : Nat} (hv : v < 2 ^ w) (hi : i ∈ bits v) : i < w := by
  by_contra hle
  have hfalse : v.testBit i = false :=
    Nat.testBit_lt_two_pow (hv.trans_le (Nat.pow_le_pow_right Nat.two_pos (by omega)))
  simp [hfalse] at hi

/-- A mask operand may have any width: the first operand bounds the result. -/
theorem bits_and_bitNot {v w : Nat} (hv : v < 2 ^ w) (m : Nat) :
    bits (v &&& bitNot w m) = bits v \ bits m := by
  ext i
  by_cases hi : i ∈ bits v
  · have hlt := lt_of_mem_bits hv hi
    simp only [mem_bits] at hi
    simp [bitNot, Nat.testBit_xor, Nat.testBit_two_pow_sub_one, hlt, hi]
  · simp only [mem_bits] at hi
    simp [hi]

theorem and_bitNot_lt {v w : Nat} (hv : v < 2 ^ w) (m : Nat) :
    v &&& bitNot w m < 2 ^ w :=
  Nat.and_le_left.trans_lt hv

theorem bits_subset_iff (s c : Nat) : bits s ⊆ bits c ↔ s ||| c = c := by
  rw [← Set.union_eq_right, ← bits_or]
  exact bits_injective.eq_iff

theorem and_bitNot_eq_zero_iff {v w : Nat} (hv : v < 2 ^ w) (m : Nat) :
    v &&& bitNot w m = 0 ↔ bits v ⊆ bits m := by
  rw [← bits_eq_empty_iff, bits_and_bitNot hv, Set.sdiff_eq_empty]

end OpenMptl
