/-
The register access of the simulation.  A register is a variable of its value
type; the single-bit functions build their mask as `1 << bit_no`, an `int`.  The
state is `none` once a run has no defined meaning.
-/
import OpenMptl.Regbits

namespace OpenMptl

/-! The three bit functions on the content of a register of `w` bits. -/

def simBitset (w v bitNo : Nat) : Option Nat :=
  (intBit bitNo).map fun bit => narrow w (promote w v ||| fromInt w bit)

def simBitclear (w v bitNo : Nat) : Option Nat :=
  (intBit bitNo).map fun bit => narrow w (promote w v &&& fromInt w (~~~ bit))

def simBittest (w v bitNo : Nat) : Option Bool :=
  (intBit bitNo).map fun bit => decide (narrow w (promote w v &&& fromInt w bit) ≠ 0)

/-- `reg_access<>` of the simulation. -/
def simAccess : RegAccess (Option RegFile) where
  load r s := ((s.map fun f => f.value r).getD 0, s)
  store r v s := s.map fun f => f.store r v
  bitset r bitNo s := s.bind fun f =>
    (simBitset r.width (f.value r) bitNo).map fun v => f.store r v
  bitclear r bitNo s := s.bind fun f =>
    (simBitclear r.width (f.value r) bitNo).map fun v => f.store r v
  bittest r bitNo s :=
    match s.bind fun f => simBittest r.width (f.value r) bitNo with
    | some bit => (bit, s)
    | none => (false, none)

section Bits

variable {w v n : Nat}

/-- The mask `1 << bit_no` is the bit, as long as no sign is extended. -/
theorem getLsbD_fromInt_intBit {i : Nat} (hn : n < 32) (hi : i < w)
    (hsign : w ≤ 32 ∨ n ≤ 30) : (fromInt w (1#32 <<< n)).getLsbD i = decide (i = n) := by
  have hlt : i < promotedWidth w := hi.trans_le (le_promotedWidth w)
  rw [getLsbD_fromInt, msb_intBit hn, getLsbD_intBit hn]
  by_cases hint : i < 32
  · simp [hlt, hint]
  · have hne : n ≠ 31 := by omega
    have hother : i ≠ n := by omega
    simp [hint, hne, hother]

theorem lt_int_of_sign (hn : n < w) (hsign : w ≤ 32 ∨ n ≤ 30) : n < 32 := by omega

theorem narrow_fromInt_intBit (hn : n < w) (hsign : w ≤ 32 ∨ n ≤ 30) :
    narrow w (fromInt w (1#32 <<< n)) = 2 ^ n := by
  have hint := lt_int_of_sign hn hsign
  apply bits_injective
  rw [bits_two_pow]
  ext i
  rw [mem_bits_narrow, Set.mem_singleton_iff]
  constructor
  · rintro ⟨hi, hset⟩
    rw [getLsbD_fromInt_intBit hint hi hsign] at hset
    exact of_decide_eq_true hset
  · rintro rfl
    exact ⟨hn, by rw [getLsbD_fromInt_intBit hint hn hsign, decide_eq_true rfl]⟩

theorem simBitset_eq (hv : v < 2 ^ w) (hn : n < w) (hsign : w ≤ 32 ∨ n ≤ 30) :
    simBitset w v n = some (v ||| 2 ^ n) := by
  rw [simBitset, intBit, if_pos (lt_int_of_sign hn hsign), Option.map_some, narrow_or,
    narrow_promote hv, narrow_fromInt_intBit hn hsign]

theorem simBitclear_eq (hv : v < 2 ^ w) (hn : n < w) (hsign : w ≤ 32 ∨ n ≤ 30) :
    simBitclear w v n = some (v &&& bitNot w (2 ^ n)) := by
  rw [simBitclear, intBit, if_pos (lt_int_of_sign hn hsign), Option.map_some, fromInt_not,
    narrow_and_not hv, narrow_fromInt_intBit hn hsign]

theorem simBittest_eq (hv : v < 2 ^ w) (hn : n < w) (hsign : w ≤ 32 ∨ n ≤ 30) :
    simBittest w v n = some (v.testBit n) := by
  have hand := Regmask.and_two_pow_ne_zero_iff v n
  rw [simBittest, intBit, if_pos (lt_int_of_sign hn hsign), Option.map_some, narrow_and,
    narrow_promote hv, narrow_fromInt_intBit hn hsign, Option.some_inj]
  exact Bool.eq_iff_iff.mpr (decide_eq_true_iff.trans hand)

/-- With the sign extended, bit 31 takes all higher bits along. -/
theorem simBitset_sign (hw : 32 < w) {x : Nat} (hx : simBitset w v 31 = some x) :
    x < 2 ^ w ∧ 32 ∈ bits x := by
  have hlt : 32 < promotedWidth w := hw.trans_le (le_promotedWidth w)
  obtain rfl : narrow w (promote w v ||| fromInt w (1#32 <<< 31)) = x := by
    simpa [simBitset, intBit] using hx
  refine ⟨narrow_lt _ _, (mem_bits_narrow _ _ _).mpr ⟨hw, ?_⟩⟩
  rw [BitVec.getLsbD_or, getLsbD_fromInt, msb_intBit (by decide)]
  simp [hlt]

theorem simBitclear_sign {x : Nat} (hx : simBitclear w v 31 = some x) :
    x < 2 ^ w ∧ 32 ∉ bits x := by
  obtain rfl : narrow w (promote w v &&& fromInt w (~~~ (1#32 <<< 31))) = x := by
    simpa [simBitclear, intBit] using hx
  refine ⟨narrow_lt _ _, fun hmem => ?_⟩
  have hset := ((mem_bits_narrow _ _ _).mp hmem).2
  rw [BitVec.getLsbD_and, getLsbD_fromInt, BitVec.msb_not, msb_intBit (by decide)] at hset
  simp at hset

end Bits

variable {r : Reg} {f g : RegFile} {n : Nat}

theorem simAccess_bitset_eq_some (h : simAccess.bitset r n (some f) = some g) :
    ∃ x, simBitset r.width (f.value r) n = some x ∧ f.store r x = g := by
  simpa [simAccess] using h

theorem simAccess_bitclear_eq_some (h : simAccess.bitclear r n (some f) = some g) :
    ∃ x, simBitclear r.width (f.value r) n = some x ∧ f.store r x = g := by
  simpa [simAccess] using h

theorem simAccess_bitset (hn : n < r.width) (hsign : r.width ≤ 32 ∨ n ≤ 30) (f : RegFile) :
    ∃ g, simAccess.bitset r n (some f) = some g ∧
      f.Becomes g r (bits (f.value r) ∪ {n}) := by
  have hv := f.value_lt r
  have hlt := Nat.or_lt_two_pow hv ((Nat.pow_lt_pow_iff_right (by omega)).mpr hn)
  refine ⟨f.store r (f.value r ||| 2 ^ n), ?_, ?_⟩
  · simp [simAccess, simBitset_eq hv hn hsign]
  · have hbecomes := f.store_becomes r hlt
    rwa [bits_or, bits_two_pow] at hbecomes

theorem simAccess_bitclear (hn : n < r.width) (hsign : r.width ≤ 32 ∨ n ≤ 30)
    (f : RegFile) :
    ∃ g, simAccess.bitclear r n (some f) = some g ∧
      f.Becomes g r (bits (f.value r) \ {n}) := by
  have hv := f.value_lt r
  refine ⟨f.store r (f.value r &&& bitNot r.width (2 ^ n)), ?_, ?_⟩
  · simp [simAccess, simBitclear_eq hv hn hsign]
  · have hbecomes := f.store_becomes r (and_bitNot_lt hv (2 ^ n))
    rwa [bits_and_bitNot hv, bits_two_pow] at hbecomes

theorem simAccess_bittest (hn : n < r.width) (hsign : r.width ≤ 32 ∨ n ≤ 30)
    (f : RegFile) :
    simAccess.bittest r n (some f) = ((f.value r).testBit n, some f) := by
  simp [simAccess, simBittest_eq (f.value_lt r) hn hsign]

/-- The simulated bit functions act on one bit unless the sign of `1 << bit_no` is
extended or the shift has no meaning. -/
theorem simAccess_bit_iff (r : Reg) (f : RegFile) {n : Nat} (hn : n < r.width) :
    ((∃ g, simAccess.bitset r n (some f) = some g ∧
        f.Becomes g r (bits (f.value r) ∪ {n})) ∧
      (∃ g, simAccess.bitclear r n (some f) = some g ∧
        f.Becomes g r (bits (f.value r) \ {n})) ∧
      simAccess.bittest r n (some f) = ((f.value r).testBit n, some f)) ↔
    (r.width ≤ 32 ∨ n ≤ 30) := by
  constructor
  · rintro ⟨⟨g, hg, hset⟩, ⟨g', hg', hclear⟩, -⟩
    by_contra hsign
    rw [not_or, Nat.not_le, Nat.not_le] at hsign
    obtain ⟨x, hx, rfl⟩ := simAccess_bitset_eq_some hg
    obtain ⟨y, hy, rfl⟩ := simAccess_bitclear_eq_some hg'
    rcases Nat.lt_or_ge n 32 with hint | hundefined
    · -- bit 32 is set by one function and cleared by the other one
      obtain rfl : n = 31 := by omega
      obtain ⟨hxlt, hxmem⟩ := simBitset_sign hsign.1 hx
      obtain ⟨hylt, hymem⟩ := simBitclear_sign hy
      have hxbits := hset.1
      have hybits := hclear.1
      rw [f.store_value_of_lt r hxlt] at hxbits
      rw [f.store_value_of_lt r hylt] at hybits
      rw [hxbits] at hxmem
      rw [hybits] at hymem
      exact hymem ⟨hxmem.resolve_right (by decide), by decide⟩
    · have hnone : ¬ n < 32 := by omega
      simp [simBitset, intBit, hnone] at hx
  · intro hsign
    exact ⟨simAccess_bitset hn hsign f, simAccess_bitclear hn hsign f,
      simAccess_bittest hn hsign f⟩

namespace SimAccessTest

/-- A register of type `uint_fast16_t`, which has 64 bits on the host. -/
def fastReg : Reg := ⟨.uint64, 0x40013800, .rw, 0, ValueType.two_pow_width_pos _⟩

def zeros : RegFile := ⟨fun _ => 0, Reg.two_pow_width_pos⟩

/-- `bitset<31>()` leaves 0xffffffff80000000. -/
theorem simAccess_bitset_sign_extended :
    ¬ ∃ g, simAccess.bitset fastReg 31 (some zeros) = some g ∧
      zeros.Becomes g fastReg (bits (zeros.value fastReg) ∪ {31}) := by
  rintro ⟨g, hg, hset⟩
  obtain ⟨x, hx, rfl⟩ := simAccess_bitset_eq_some hg
  obtain ⟨hlt, hmem⟩ := simBitset_sign (by decide) hx
  have hbits := hset.1
  rw [zeros.store_value_of_lt fastReg hlt] at hbits
  rw [hbits] at hmem
  simp [zeros] at hmem

theorem simAccess_bit_iff_bit7 :
    simAccess.bittest fastReg 7 (some zeros) = (false, some zeros) :=
  ((simAccess_bit_iff fastReg zeros (by decide : 7 < fastReg.width)).mpr
    (.inr (by decide))).2.2

end SimAccessTest

end OpenMptl
