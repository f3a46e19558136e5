/-
What `test()` says about a constant of a field.  A constant whose mask is the
whole field is tested like the field itself, for any bit set; these are the
all-ones constants, and for a field of several bits they are not told from the
other values.
-/
import OpenMptl.RegbitsField

namespace OpenMptl

/-- The part of a field that its mask covers. -/
def Regbits.masked {T : Target} (f : Regbits T) (v : Nat) : Nat :=
  fieldOf f.offset f.maskWidth v

theorem Regbits.masked_eq {T : Target} (f : Regbits T) (h : f.reg.width ≤ T.ulongWidth)
    (v : Nat) : f.masked v = fieldOf f.offset f.width v := by
  rw [masked, f.maskWidth_eq h]

/-- The mask covers the low bits of the field. -/
theorem Regbits.masked_eq_mod {T : Target} (f : Regbits T) (v : Nat) :
    f.masked v = fieldOf f.offset f.width v % 2 ^ f.maskWidth := by
  rw [masked, fieldOf, fieldOf, Nat.mod_mod_of_dvd _ (Nat.pow_dvd_pow 2 f.maskWidth_le)]

/-- A field tests true when any of its bits is set. -/
theorem Regbits.holds_iff {T : Target} (f : Regbits T) (v : Nat) :
    f.toRegmask.holds v = true ↔ f.masked v ≠ 0 := by
  have hnonzero : f.toRegmask.clearMask ≠ 0 := f.clearMask_ne_zero
  have hequal : f.toRegmask.clearMask = f.toRegmask.setMask := rfl
  rw [Regmask.holds, if_neg hnonzero, if_pos hequal, decide_eq_true_iff]
  exact and_ne_zero_iff f.bits_clearMask

namespace Regval

variable {T : Target} (t : Regval T)

/-- A constant other than all ones in a field of several bits. -/
def Exact : Prop := t.field.maskWidth = 1 ∨ t.constant + 1 ≠ 2 ^ t.field.maskWidth

instance : Decidable t.Exact := inferInstanceAs (Decidable (_ ∨ _))

/-- An accepted constant has its bits inside the mask. -/
theorem constant_lt (h : t.constant < 2 ^ t.field.width) :
    t.constant < 2 ^ t.field.maskWidth := by
  have hsub : bits (t.constant <<< t.field.offset) ⊆
      fieldBits t.field.offset t.field.maskWidth := by
    rw [← t.field.valueFrom_eq h, ← t.field.bits_clearMask, bits_subset_iff]
    exact t.covers
  apply Nat.lt_pow_two_of_testBit
  intro i hi
  rw [Bool.eq_false_iff, ne_eq, ← mem_bits]
  intro hmem
  have hshift : t.field.offset + i ∈ bits (t.constant <<< t.field.offset) := by
    rw [mem_bits_shiftLeft, Nat.add_sub_cancel_left]
    exact ⟨Nat.le_add_right _ _, hmem⟩
  have hfield := hsub hshift
  rw [mem_fieldBits] at hfield
  omega

/-- The two masks agree for the all-ones constant. -/
theorem clearMask_eq_setMask_iff (h : t.constant < 2 ^ t.field.width) :
    t.toRegmask.clearMask = t.toRegmask.setMask ↔
      t.constant + 1 = 2 ^ t.field.maskWidth := by
  have hpos := Nat.two_pow_pos t.field.maskWidth
  rw [toRegmask_clearMask, toRegmask_setMask, t.field.valueFrom_eq h,
    ← bits_injective.eq_iff, t.field.bits_clearMask, ← bits_ones_shiftLeft,
    bits_injective.eq_iff, Nat.shiftLeft_eq, Nat.shiftLeft_eq,
    Nat.mul_left_inj (Nat.two_pow_pos t.field.offset).ne']
  omega

/-- Either branch of `test()`, in terms of the field. -/
theorem holds_iff (h : t.constant < 2 ^ t.field.width) (v : Nat) :
    t.toRegmask.holds v = true ↔
      if t.constant + 1 = 2 ^ t.field.maskWidth then t.field.masked v ≠ 0
      else t.field.masked v = t.constant := by
  have hnonzero : t.toRegmask.clearMask ≠ 0 := t.field.clearMask_ne_zero
  have hequal := t.clearMask_eq_setMask_iff h
  have hand : v &&& t.toRegmask.clearMask ≠ 0 ↔ t.field.masked v ≠ 0 :=
    and_ne_zero_iff t.field.bits_clearMask
  have heq : v &&& t.toRegmask.clearMask = t.toRegmask.setMask ↔
      t.field.masked v = t.constant := by
    rw [toRegmask_setMask, t.field.valueFrom_eq h]
    exact and_eq_shiftLeft_iff t.field.bits_clearMask
  rw [Regmask.holds, if_neg hnonzero]
  by_cases hones : t.constant + 1 = 2 ^ t.field.maskWidth
  · rw [if_pos (hequal.mpr hones), if_pos hones, decide_eq_true_iff, hand]
  · rw [if_neg (mt hequal.mp hones), if_neg hones, decide_eq_true_iff, heq]

/-- In a field of one bit the any-bit test is the comparison with 1. -/
theorem test_iff (h : t.constant < 2 ^ t.field.width) (cfg : BitbandConfig) (b : Bus) :
    (t.toRegmask.test busAccess cfg b).1 = true ↔
      if t.Exact then t.field.masked (b.file.value t.field.reg) = t.constant
      else t.field.masked (b.file.value t.field.reg) ≠ 0 := by
  rw [Regmask.test_busAccess, toRegmask_reg, t.holds_iff h]
  have hmasked : t.field.masked (b.file.value t.field.reg) < 2 ^ t.field.maskWidth :=
    fieldOf_lt _ _ _
  by_cases hones : t.constant + 1 = 2 ^ t.field.maskWidth
  · rw [if_pos hones]
    by_cases hone : t.field.maskWidth = 1
    · rw [if_pos (.inl hone)]
      rw [hone] at hones hmasked
      omega
    · rw [if_neg (by simp [Exact, hone, hones])]
  · rw [if_neg hones, if_pos (.inr hones)]

/-- The all-ones constant of several bits is not 0. -/
theorem constant_pos (h : ¬ t.Exact) : 0 < t.constant := by
  have hpos := t.field.maskWidth_pos
  rw [Exact, not_or, not_not] at h
  have hpow : 2 ^ 1 < 2 ^ t.field.maskWidth :=
    Nat.pow_lt_pow_right (by omega) (by omega)
  omega

/-- At most one constant of a field is the all-ones one. -/
theorem exact_of_ne {t' : Regval T} (hfield : t'.field = t.field)
    (hne : t'.constant ≠ t.constant) (h : ¬ t.Exact) : t'.Exact := by
  rw [Exact, not_or, not_not] at h
  rw [Exact, hfield]
  exact .inr (by omega)

/-- `set()` puts the constant into the masked part of the field. -/
theorem masked_set (h : t.constant < 2 ^ t.field.width) (cfg : BitbandConfig) (b : Bus) :
    t.field.masked ((t.toRegmask.set busAccess cfg b).file.value t.field.reg) =
      t.constant := by
  have hset : bits ((t.toRegmask.set busAccess cfg b).file.value t.field.reg) = _ :=
    ((t.toRegmask.set_acts cfg).becomes b).1
  simp only [Patch.apply, Regmask.patch_set, Regmask.patch_clear, toRegmask_setMask,
    toRegmask_clearMask, t.field.bits_clearMask, t.field.valueFrom_eq h,
    Set.sup_eq_union] at hset
  exact fieldOf_of_write (t.constant_lt h) hset

/-- The constant `regval<f, v>` of a field that lies in `unsigned long`. -/
def ofField {T : Target} (f : Regbits T) (hmask : f.maskWidth = f.width) (v : Nat)
    (hv : v < 2 ^ f.width) : Regval T where
  field := f
  constant := v
  narrowed := by
    have hfits := f.fits
    exact hv.trans_le (Nat.pow_le_pow_right Nat.two_pos (by omega))
  covers := by
    rw [← bits_subset_iff, f.bits_clearMask, f.valueFrom_eq hv, hmask]
    exact bits_shiftLeft_subset hv

theorem regval_self {T : Target} (t : Regval T) : regval t.field t.constant = .ok t := by
  rw [regval, dif_pos t.narrowed, dif_pos t.covers]

theorem regval_eq_ofField {T : Target} {f : Regbits T} (hmask : f.maskWidth = f.width) {v : Nat}
    (hv : v < 2 ^ f.width) : regval f v = .ok (ofField f hmask v hv) :=
  regval_self (ofField f hmask v hv)

/-- Every value of a field in `unsigned long` has its constant. -/
theorem regval_eq_ok {T : Target} {f : Regbits T} (hmask : f.maskWidth = f.width)
    {v : Nat} (hv : v < 2 ^ f.width) : ∃ t, regval f v = .ok t ∧ t.field = f ∧ t.constant = v :=
  ⟨_, regval_eq_ofField hmask hv, rfl, rfl⟩

theorem eq_of_regval {T : Target} {f : Regbits T} {v : Nat} {t : Regval T}
    (h : regval f v = .ok t) : t.field = f ∧ t.constant = v := by
  unfold regval at h
  split at h
  · split at h
    · cases h
      exact ⟨rfl, rfl⟩
    · cases h
  · cases h

end Regval

/-- When `test()` on a constant is the comparison with the field: not for the
all-ones constant of a field of several bits. -/
theorem regval_test_iff {T : Target} (cfg : BitbandConfig) (t : Regval T)
    (ht : t.constant < 2 ^ t.field.width) :
    (∀ b : Bus,
      let v := b.file.value t.field.reg
      ((t.toRegmask.test busAccess cfg b).1 = true ↔
          fieldOf t.field.offset t.field.width v = t.constant) ↔
        (t.Exact ∨ t.field.masked v = 0 ∨ t.field.masked v = t.constant) ∧
        (t.field.masked v = t.constant →
          fieldOf t.field.offset t.field.width v = t.constant)) ∧
    ∀ t' : Regval T, t'.field = t.field → t'.constant < 2 ^ t.field.width →
      t'.constant ≠ t.constant → ∀ b : Bus,
        let v := b.file.value t.field.reg
        (¬ ((t.toRegmask.test busAccess cfg b).1 = true ∧
            (t'.toRegmask.test busAccess cfg b).1 = true) ↔
          (t.Exact ∨ t.field.masked v ≠ t'.constant ∨ t'.constant = 0) ∧
            (t'.Exact ∨ t.field.masked v ≠ t.constant ∨ t.constant = 0)) ∧
        (((t.toRegmask.test busAccess cfg (t.toRegmask.set busAccess cfg b)).1 = true ∧
            (t'.toRegmask.test busAccess cfg (t.toRegmask.set busAccess cfg b)).1 = false) ↔
          t'.Exact ∨ t.constant = 0) := by
  refine ⟨fun b => ?_, fun t' hfield ht' hne b => ⟨?_, ?_⟩⟩
  · dsimp only
    have hpos := t.constant_pos
    have hwhole : fieldOf t.field.offset t.field.width (b.file.value t.field.reg) =
        t.constant → t.field.masked (b.file.value t.field.reg) = t.constant := by
      intro hfield
      rw [t.field.masked_eq_mod, hfield, Nat.mod_eq_of_lt (t.constant_lt ht)]
    rw [t.test_iff ht]
    by_cases hexact : t.Exact
    · simp only [hexact, ↓reduceIte, true_or, true_and]
      tauto
    · simp only [hexact, ↓reduceIte, false_or]
      have hconstant := hpos hexact
      omega
  · rw [t.test_iff ht, t'.test_iff (hfield ▸ ht'), hfield]
    by_cases hexact : t.Exact
    · by_cases hexact' : t'.Exact
      · simp only [hexact, hexact', ↓reduceIte, true_or, and_true, iff_true]
        omega
      · have hconstant := t'.constant_pos hexact'
        simp only [hexact, hexact', ↓reduceIte, true_or, false_or, true_and]
        omega
    · have hexact' := t.exact_of_ne hfield hne hexact
      have hconstant := t.constant_pos hexact
      simp only [hexact, hexact', ↓reduceIte, true_or, false_or, and_true]
      omega
  · have hmasked := t.masked_set ht cfg b
    rw [← Bool.not_eq_true, t.test_iff ht, t'.test_iff (hfield ▸ ht'), hfield, hmasked]
    by_cases hexact : t.Exact
    · by_cases hexact' : t'.Exact
      · simp only [hexact, hexact', ↓reduceIte, true_or, true_and, iff_true]
        omega
      · simp only [hexact, hexact', ↓reduceIte, true_and, false_or]
        omega
    · have hexact' := t.exact_of_ne hfield hne hexact
      have hconstant := t.constant_pos hexact
      simp only [hexact, hexact', ↓reduceIte, true_or, iff_true]
      omega

namespace RegvalTest

/-- The host of the simulation. -/
def host : Target := ⟨64, by decide, .uint64, by decide⟩

/-- `RCC::CFGR` with its APB1 prescaler. -/
def cfgr : Reg := ⟨.uint32, 0x40023808, .rw, 0, ValueType.two_pow_width_pos _⟩

def ppre1 : Regbits host :=
  ⟨cfgr, 10, 3, by decide, by decide, by decide, by decide⟩

/-- `PPRE1::DIV16` -/
def div16 : Regval host := ⟨ppre1, 7, by decide, by decide⟩

/-- `PPRE1::DIV2` -/
def div2 : Regval host := ⟨ppre1, 4, by decide, by decide⟩

def divided : Bus := Bus.start ⟨fun r => if r = cfgr then 4 <<< 10 else 0, by
  intro r
  split
  · next h => rw [h]; decide
  · exact Nat.two_pow_pos _⟩

/-- With the prescaler at DIV2 the test on DIV16 is true as well. -/
theorem regval_test_not_equality :
    ¬ ((div16.toRegmask.test busAccess .automatic divided).1 = true ↔
      fieldOf 10 3 (divided.file.value cfgr) = 7) := by
  rw [Regmask.test_busAccess]
  decide

theorem regval_test_iff_div2 :
    (div2.toRegmask.test busAccess .automatic divided).1 = true ↔
      fieldOf 10 3 (divided.file.value cfgr) = 4 :=
  ((regval_test_iff .automatic div2 (by decide)).1 divided).mpr (by decide)

end RegvalTest

end OpenMptl
