/-
Integer promotion.  An operand narrower than `int` takes part in an expression
as an `int` of 32 bits, a wider one as it is; the result is narrowed to the type
it is stored in.
-/
import OpenMptl.BitField

namespace OpenMptl

/-- The bit size of an operand of `w` bits within an expression. -/
def promotedWidth (w : Nat) : Nat := max 32 w

/-- An operand of an unsigned type with `w` bits. -/
def promote (w v : Nat) : BitVec (promotedWidth w) := BitVec.ofNat _ v

/-- The conversion to an unsigned type with `w` bits. -/
def narrow (w : Nat) {n : Nat} (x : BitVec n) : Nat := x.toNat % 2 ^ w

/-- `1 << n`, an `int`; the shift is undefined from 32 on. -/
def intBit (n : Nat) : Option (BitVec 32) := if n < 32 then some (1#32 <<< n) else none

/-- An `int` beside an operand of `w` bits: the sign is extended. -/
def fromInt (w : Nat) (x : BitVec 32) : BitVec (promotedWidth w) := x.signExtend _

/-- Right shift of a promoted operand; an `int` keeps its sign. -/
def promotedShiftRight (w : Nat) (x : BitVec (promotedWidth w)) (n : Nat) :
    BitVec (promotedWidth w) :=
  if w < 32 then x.sshiftRight n else x >>> n

variable {w v : Nat}

/-- `(1 << n) - 1` in an unsigned type. -/
theorem ones_eq {n : Nat} (h : n < w) : (1#w <<< n) - 1#w = BitVec.ofNat w (2 ^ n - 1) := by
  have hpow : 2 ^ n < 2 ^ w := Nat.pow_lt_pow_right (by omega) h
  have hpos : 0 < 2 ^ n := Nat.two_pow_pos n
  have hone : (1#w).toNat = 1 := Nat.mod_eq_of_lt (by omega)
  have hshift : (1#w <<< n).toNat = 2 ^ n := by
    rw [BitVec.toNat_shiftLeft, hone, Nat.one_shiftLeft, Nat.mod_eq_of_lt hpow]
  apply BitVec.eq_of_toNat_eq
  rw [BitVec.toNat_sub_of_le (by rw [BitVec.le_def, hone, hshift]; exact hpos), hone, hshift,
    BitVec.toNat_ofNat, Nat.mod_eq_of_lt (by omega)]

theorem le_promotedWidth (w : Nat) : w ≤ promotedWidth w := Nat.le_max_right 32 w

theorem narrow_lt (w : Nat) {n : Nat} (x : BitVec n) : narrow w x < 2 ^ w :=
  Nat.mod_lt _ (Nat.two_pow_pos w)

theorem mem_bits_narrow (w : Nat) {n : Nat} (x : BitVec n) (i : Nat) :
    i ∈ bits (narrow w x) ↔ i < w ∧ x.getLsbD i = true := by
  rw [mem_bits, narrow, Nat.testBit_mod_two_pow, Bool.and_eq_true, decide_eq_true_iff]
  rfl

theorem getLsbD_promote (w v i : Nat) :
    (promote w v).getLsbD i = (decide (i < promotedWidth w) && v.testBit i) := by
  rw [promote, BitVec.getLsbD_ofNat]

/-- A value of the type goes through an expression unharmed. -/
theorem toNat_promote (hv : v < 2 ^ w) : (promote w v).toNat = v := by
  rw [promote, BitVec.toNat_ofNat]
  exact Nat.mod_eq_of_lt (hv.trans_le (Nat.pow_le_pow_right Nat.two_pos (le_promotedWidth w)))

theorem narrow_promote (hv : v < 2 ^ w) : narrow w (promote w v) = v := by
  rw [narrow, toNat_promote hv, Nat.mod_eq_of_lt hv]

theorem narrow_and (w : Nat) {n : Nat} (x y : BitVec n) :
    narrow w (x &&& y) = narrow w x &&& narrow w y := by
  rw [narrow, BitVec.toNat_and, Nat.and_mod_two_pow]
  rfl

theorem narrow_or (w : Nat) {n : Nat} (x y : BitVec n) :
    narrow w (x ||| y) = narrow w x ||| narrow w y := by
  rw [narrow, BitVec.toNat_or, Nat.or_mod_two_pow]
  rfl

/-- The complement of an operand has ones above its type, the narrowing drops
them. -/
theorem narrow_and_not (hv : v < 2 ^ w) (x : BitVec (promotedWidth w)) :
    narrow w (promote w v &&& ~~~x) = v &&& bitNot w (narrow w x) := by
  apply bits_injective
  rw [bits_and_bitNot hv]
  ext i
  have hle := le_promotedWidth w
  have hmem : i ∈ bits v ↔ i < w ∧ (promote w v).getLsbD i = true := by
    rw [← mem_bits_narrow, narrow_promote hv]
  rw [Set.mem_sdiff, hmem, mem_bits_narrow, mem_bits_narrow, BitVec.getLsbD_and,
    BitVec.getLsbD_not]
  by_cases hi : i < w
  · have hlt : i < promotedWidth w := by omega
    simp [hi, hlt]
  · simp [hi]

/-- What a left shift leaves in the type. -/
theorem bits_narrow_shiftLeft (w v offset : Nat) :
    bits (narrow w (promote w v <<< offset)) = bits (v <<< offset) ∩ { i | i < w } := by
  ext i
  have hle := le_promotedWidth w
  rw [mem_bits_narrow, BitVec.getLsbD_shiftLeft, getLsbD_promote, Set.mem_inter_iff,
    mem_bits_shiftLeft, mem_bits]
  constructor
  · rintro ⟨hi, h⟩
    simp only [Bool.and_eq_true, decide_eq_true_eq, Bool.not_eq_true', decide_eq_false_iff_not]
      at h
    exact ⟨⟨by omega, h.2.2⟩, hi⟩
  · rintro ⟨⟨hoffset, hbit⟩, hi⟩
    have hi' : i < w := hi
    refine ⟨hi', ?_⟩
    simp only [Bool.and_eq_true, decide_eq_true_eq, Bool.not_eq_true', decide_eq_false_iff_not]
    exact ⟨⟨by omega, by omega⟩, by omega, hbit⟩

/-- Right shifts of register values are never negative. -/
theorem narrow_shiftRight (hv : v < 2 ^ w) (n : Nat) :
    narrow w (promotedShiftRight w (promote w v) n) = v >>> n := by
  have hshift : promotedShiftRight w (promote w v) n = promote w v >>> n := by
    rw [promotedShiftRight]
    split
    · next hw =>
        apply BitVec.sshiftRight_eq_of_msb_false
        rw [BitVec.msb_eq_decide, toNat_promote hv, decide_eq_false_iff_not, Nat.not_le]
        refine hv.trans_le (Nat.pow_le_pow_right Nat.two_pos ?_)
        rw [promotedWidth]
        omega
    · rfl
  have hlt : v >>> n < 2 ^ w := (Nat.shiftRight_le v n).trans_lt hv
  rw [hshift, narrow, BitVec.toNat_ushiftRight, toNat_promote hv, Nat.mod_eq_of_lt hlt]

/-! The bit mask `1 << n` beside an operand of `w` bits. -/

theorem getLsbD_intBit {n i : Nat} (hn : n < 32) :
    (1#32 <<< n).getLsbD i = decide (i = n) := by
  rw [← BitVec.twoPow_eq, BitVec.getLsbD_twoPow]
  simp [hn, eq_comm]

theorem msb_intBit {n : Nat} (hn : n < 32) : (1#32 <<< n).msb = decide (n = 31) := by
  rw [BitVec.msb_eq_getLsbD_last, getLsbD_intBit hn]
  simp [eq_comm]

theorem getLsbD_fromInt (w : Nat) (x : BitVec 32) (i : Nat) :
    (fromInt w x).getLsbD i =
      (decide (i < promotedWidth w) && if i < 32 then x.getLsbD i else x.msb) := by
  rw [fromInt, BitVec.getLsbD_signExtend]

theorem fromInt_not (w : Nat) (x : BitVec 32) : fromInt w (~~~x) = ~~~fromInt w x :=
  BitVec.signExtend_not (by decide)

end OpenMptl
