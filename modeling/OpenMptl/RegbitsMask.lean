/-
The mask of a field where `unsigned long` is wide enough for the value type.  Shifting
by the full bit size is undefined, which excludes the whole of a register that is as
wide as `unsigned long`; and where automatic bit-band accesses are built, the bits of
the mask are counted in an `unsigned`, which excludes every bit above 31.
-/
import OpenMptl.RegbitsField
import OpenMptl.RegvalTest

namespace OpenMptl

/-- `x << n` in an unsigned type; undefined when `n` is not smaller than its bit
size. -/
def shiftLeft? {w : Nat} (x : BitVec w) (n : Nat) : Option (BitVec w) :=
  if n < w then some (x <<< n) else none

/-- `((1ul << width) - 1) << offset`, as far as it is defined. -/
def Target.maskExpr (T : Target) (offset width : Nat) : Option (BitVec T.ulongWidth) := do
  let one ← shiftLeft? 1#T.ulongWidth width
  shiftLeft? (one - 1#T.ulongWidth) offset

/-- The class `regbits<>` with the members of its base class `regmask<>`. -/
def regbitsClass (T : Target) (cfg : BitbandConfig) (reg : Reg) (offset width : Nat) :
    Except CompileError (Regbits T) := do
  let f ← regbits T reg offset width
  f.toRegmask.checkBitcount cfg
  return f

/-- `reg::regbits_type` -/
def Reg.regbitsType (r : Reg) (T : Target) (cfg : BitbandConfig) :
    Except CompileError (Regbits T) :=
  regbitsClass T cfg r 0 r.width

/-- The mask expression is defined and gives both masks of the class, which are the
bits of the field. -/
def Target.FieldDefined (T : Target) (cfg : BitbandConfig) (r : Reg) (offset width : Nat) :
    Prop :=
  ∃ mask, T.maskExpr offset width = some mask ∧
    ∃ f : Regbits T, regbitsClass T cfg r offset width = .ok f ∧
      f.toRegmask.setMask = mask.toNat ∧ f.toRegmask.clearMask = mask.toNat ∧
      bits mask.toNat = { i | offset ≤ i ∧ i ≤ offset + width - 1 }

/-- `regbits_type` is a type, and its `set()` leaves ones only. -/
def Reg.AllBitsUsable (r : Reg) (T : Target) (cfg : BitbandConfig) : Prop :=
  ∃ f : Regbits T, r.regbitsType T cfg = .ok f ∧
    ∀ b : Bus, (f.toRegmask.set busAccess cfg b).file.value r = 2 ^ r.width - 1

section RegbitsMask

variable {T : Target} {cfg : BitbandConfig} {r : Reg} {offset width : Nat}

theorem Target.maskExpr_eq_some (hwidth : width < T.ulongWidth) (hoffset : offset < T.ulongWidth) :
    T.maskExpr offset width = some (T.fieldMask offset width) := by
  simp [maskExpr, shiftLeft?, hwidth, hoffset, fieldMask]

/-- The first shift decides. -/
theorem Target.width_lt_of_maskExpr {mask : BitVec T.ulongWidth}
    (h : T.maskExpr offset width = some mask) : width < T.ulongWidth := by
  by_contra hlt
  simp [maskExpr, shiftLeft?, hlt] at h

/-- The mask of a field fits into an `unsigned` if the field does. -/
theorem Regbits.clearMask_lt_iff {f : Regbits T} (hN : f.reg.width ≤ T.ulongWidth) :
    f.clearMask < 2 ^ 32 ↔ f.offset + f.width ≤ 32 := by
  have hbits := f.bits_clearMask
  have hpos := f.width_pos
  rw [f.maskWidth_eq hN] at hbits
  constructor
  · intro hlt
    have htop : f.offset + f.width - 1 ∈ bits f.clearMask := by
      rw [hbits, mem_fieldBits]
      omega
    have hbit := lt_of_mem_bits hlt htop
    omega
  · intro hle
    refine Nat.lt_pow_two_of_testBit _ fun i hi => ?_
    rw [Bool.eq_false_iff, ne_eq, ← mem_bits, hbits, mem_fieldBits]
    omega

/-- Which classes the compiler accepts. -/
theorem regbitsClass_eq_ok_iff (hN : r.width ≤ T.ulongWidth) (hwidth : 1 ≤ width)
    (hfits : offset + width ≤ r.width) (hlt : width < T.ulongWidth) {f : Regbits T} :
    regbitsClass T cfg r offset width = .ok f ↔
      (cfg = .disabled ∨ offset + width ≤ 32) ∧ regbits T r offset width = .ok f := by
  have hok := Regbits.regbits_eq_ok hwidth hfits hlt (by omega)
  have hfit := @Regbits.clearMask_lt_iff T ⟨r, offset, width, hwidth, hfits, hlt, by omega⟩ hN
  rw [regbitsClass, hok, ok_bind, Regmask.checkBitcount, Regbits.toRegmask_clearMask]
  by_cases hcfg : cfg = .disabled ∨ offset + width ≤ 32
  · rw [if_pos (hcfg.imp_right hfit.mpr), ok_bind]
    exact (and_iff_right hcfg).symm
  · rw [if_neg (mt (Or.imp_right hfit.mp) hcfg), error_bind]
    exact iff_of_false (nomatch ·) fun h => hcfg h.1

theorem Target.fieldDefined_iff (hN : r.width ≤ T.ulongWidth) (hwidth : 1 ≤ width)
    (hfits : offset + width ≤ r.width) :
    T.FieldDefined cfg r offset width ↔
      width < T.ulongWidth ∧ (cfg = .disabled ∨ offset + width ≤ 32) := by
  constructor
  · rintro ⟨mask, hmask, f, hf, -⟩
    have hlt := T.width_lt_of_maskExpr hmask
    exact ⟨hlt, ((regbitsClass_eq_ok_iff hN hwidth hfits hlt).mp hf).1⟩
  · rintro ⟨hlt, hcfg⟩
    have hoffset : offset < T.ulongWidth := by omega
    have hok := Regbits.regbits_eq_ok hwidth hfits hlt hoffset
    refine ⟨_, T.maskExpr_eq_some hlt hoffset, _,
      (regbitsClass_eq_ok_iff hN hwidth hfits hlt).mpr ⟨hcfg, hok⟩, rfl, rfl, ?_⟩
    rw [Regbits.bits_fieldMask T offset hlt, Nat.min_eq_left (by omega)]
    ext i
    rw [mem_fieldBits, Set.mem_ofPred_eq]
    omega

/-- A field of all bits sets all bits. -/
theorem Regbits.set_allBits {f : Regbits T} (hoffset : f.offset = 0)
    (hwidth : f.maskWidth = f.reg.width) (cfg : BitbandConfig) (b : Bus) :
    (f.toRegmask.set busAccess cfg b).file.value f.reg = 2 ^ f.reg.width - 1 := by
  have hbits := ((f.toRegmask.set_acts cfg).becomes b).1
  have hones := bits_ones_shiftLeft 0 f.reg.width
  have hmask := f.bits_clearMask
  rw [hoffset, hwidth, ← hones] at hmask
  have hvalue : bits (b.file.value f.reg) ⊆ bits ((2 ^ f.reg.width - 1) <<< 0) := by
    intro i hi
    rw [hones, mem_fieldBits]
    exact ⟨Nat.zero_le i, by simpa using lt_of_mem_bits (b.file.value_lt f.reg) hi⟩
  apply bits_injective
  simp only [Patch.apply, Regmask.patch_set, Regmask.patch_clear, toRegmask_setMask,
    toRegmask_clearMask, toRegmask_reg, hmask] at hbits
  rw [hbits, Set.sdiff_eq_empty.mpr hvalue, Nat.shiftLeft_zero]
  exact Set.empty_union _

theorem Reg.allBitsUsable_iff (hN : r.width ≤ T.ulongWidth) :
    r.AllBitsUsable T cfg ↔ r.width < T.ulongWidth ∧ (cfg = .disabled ∨ r.width ≤ 32) := by
  have hpos : 1 ≤ r.width := by
    rw [Reg.width]
    cases r.valueType <;> decide
  have hfits : 0 + r.width ≤ r.width := (Nat.zero_add _).le
  constructor
  · rintro ⟨f, hf, -⟩
    have hlt : r.width < T.ulongWidth := by
      by_contra hlt
      rw [regbitsType, regbitsClass, regbits, dif_neg fun h => hlt h.1] at hf
      cases hf
    have hcfg := ((regbitsClass_eq_ok_iff hN hpos hfits hlt).mp hf).1
    rw [Nat.zero_add] at hcfg
    exact ⟨hlt, hcfg⟩
  · rintro ⟨hlt, hcfg⟩
    rw [← Nat.zero_add r.width] at hcfg
    have hok := Regbits.regbits_eq_ok hpos hfits hlt (by omega)
    refine ⟨_, (regbitsClass_eq_ok_iff hN hpos hfits hlt).mpr ⟨hcfg, hok⟩, fun b => ?_⟩
    exact Regbits.set_allBits rfl (Regbits.maskWidth_eq _ hN) cfg b

end RegbitsMask

/-- For which accepted fields the mask is defined, and for which registers the field
of all bits. -/
theorem regbits_mask_defined_iff (T : Target) (cfg : BitbandConfig) (r : Reg)
    (hN : r.width ≤ T.ulongWidth) :
    (∀ offset width, 1 ≤ width → offset + width ≤ r.width →
      (T.FieldDefined cfg r offset width ↔
        width < T.ulongWidth ∧ (cfg = .disabled ∨ offset + width ≤ 32))) ∧
    (r.AllBitsUsable T cfg ↔ r.width < T.ulongWidth ∧ (cfg = .disabled ∨ r.width ≤ 32)) :=
  ⟨fun _ _ => T.fieldDefined_iff hN, r.allBitsUsable_iff hN⟩

namespace RegbitsMaskTest

/-- `DWT::CYCCNT` -/
def cyccnt : Reg := ⟨.uint32, 0xE0001004, .rw, 0, ValueType.two_pow_width_pos _⟩

/-- A register of 64 bits, which only the host has. -/
def wide : Reg := ⟨.uint64, 0x1000, .rw, 0, ValueType.two_pow_width_pos _⟩

/-- All bits of a 32-bit register, where `unsigned long` has 32 bits; and bit 32 of a
64-bit register, where it has 64. -/
theorem regbitsType_undefined_on_arm :
    (1 ≤ 32 ∧ 0 + 32 ≤ cyccnt.width ∧ cyccnt.width ≤ RegbitsTest.arm.ulongWidth ∧
      RegbitsTest.arm.maskExpr 0 32 = none ∧
      ¬ RegbitsTest.arm.FieldDefined .automatic cyccnt 0 32 ∧
      ¬ cyccnt.AllBitsUsable RegbitsTest.arm .automatic) ∧
    (1 ≤ 1 ∧ 32 + 1 ≤ wide.width ∧ wide.width ≤ RegvalTest.host.ulongWidth ∧
      ¬ RegvalTest.host.FieldDefined .automatic wide 32 1) := by
  refine ⟨⟨by decide, by decide, by decide, rfl, ?_, ?_⟩, by decide, by decide, by decide, ?_⟩
  · rintro ⟨mask, hmask, -⟩
    cases hmask
  · rintro ⟨f, hf, -⟩
    cases hf
  · rw [Target.fieldDefined_iff (by decide) (by decide) (by decide)]
    decide

theorem regbits_mask_defined_iff_cyccnt :
    RegbitsTest.arm.FieldDefined .automatic cyccnt 1 31 := by
  have hspec := regbits_mask_defined_iff RegbitsTest.arm .automatic cyccnt (by decide)
  exact (hspec.1 1 31 (by decide) (by decide)).mpr (by decide)

end RegbitsMaskTest

end OpenMptl
