/-
Fields of a register and their constants: `regbits<>` and `regval<>`.  The mask
of a field is built in `unsigned long`, its values are shifted as promoted
operands and narrowed to the value type.
-/
import OpenMptl.Promotion
import OpenMptl.RegmaskRun

namespace OpenMptl

universe u

/-- What the platform chooses. -/
structure Target where
  /-- The bit size of `unsigned long`: 32 on the target, 64 on the simulation host. -/
  ulongWidth : Nat
  ulongWidth_ge : 32 ≤ ulongWidth
  /-- The type `uint_fast16_t`. -/
  fast16 : ValueType
  fast16_ge : 16 ≤ fast16.width

/-- `((1ul << width) - 1) << offset` -/
def Target.fieldMask (T : Target) (offset width : Nat) : BitVec T.ulongWidth :=
  ((1#T.ulongWidth <<< width) - 1#T.ulongWidth) <<< offset

/-- The type `regbits<Tp, offset, width>`, with its assertions.  The shift counts
of the mask expression must be smaller than the bit size of `unsigned long`. -/
structure Regbits (T : Target) where
  reg : Reg
  offset : Nat
  width : Nat
  /-- "invalid width" -/
  width_pos : 1 ≤ width
  /-- "invalid width/offset" -/
  fits : offset + width ≤ reg.width
  width_lt : width < T.ulongWidth
  offset_lt : offset < T.ulongWidth

def regbits (T : Target) (reg : Reg) (offset width : Nat) :
    Except CompileError (Regbits T) :=
  if hshift : width < T.ulongWidth ∧ offset < T.ulongWidth then
    if hwidth : 1 ≤ width then
      if hfits : offset + width ≤ reg.width then
        .ok ⟨reg, offset, width, hwidth, hfits, hshift.1, hshift.2⟩
      else .error .invalidWidthOffset
    else .error .invalidWidth
  else .error .constantOverflow

/-- A field that begins in the lower 32 bits: `unsigned long` has them all. -/
def Regbits.ofLow (T : Target) (reg : Reg) (offset width : Nat)
    (h : 1 ≤ width ∧ offset + width ≤ reg.width ∧ offset < 32 ∧ width < 32) : Regbits T where
  reg := reg
  offset := offset
  width := width
  width_pos := h.1
  fits := h.2.1
  width_lt := lt_of_lt_of_le h.2.2.2 T.ulongWidth_ge
  offset_lt := lt_of_lt_of_le h.2.2.1 T.ulongWidth_ge

namespace Regbits

variable {T : Target} (f : Regbits T)

/-- The number of mask bits: a field may reach beyond `unsigned long`. -/
def maskWidth : Nat := min f.width (T.ulongWidth - f.offset)

/-- Both masks of the field, and its `value`. -/
def clearMask : Nat := (T.fieldMask f.offset f.width).toNat

theorem bits_fieldMask (T : Target) (offset : Nat) {width : Nat} (h : width < T.ulongWidth) :
    bits (T.fieldMask offset width).toNat =
      fieldBits offset (min width (T.ulongWidth - offset)) := by
  ext i
  rw [Target.fieldMask, ones_eq h, mem_bits, BitVec.testBit_toNat, BitVec.getLsbD_shiftLeft,
    BitVec.getLsbD_ofNat, Nat.testBit_two_pow_sub_one, mem_fieldBits]
  simp only [Bool.and_eq_true, Bool.not_eq_true', decide_eq_true_eq, decide_eq_false_iff_not]
  omega

theorem bits_clearMask : bits f.clearMask = fieldBits f.offset f.maskWidth :=
  bits_fieldMask T f.offset f.width_lt

theorem maskWidth_le : f.maskWidth ≤ f.width := Nat.min_le_left _ _

theorem maskWidth_pos : 0 < f.maskWidth := by
  have hoffset := f.offset_lt
  have hwidth := f.width_pos
  rw [maskWidth]
  omega

/-- The mask has the width of the field wherever `unsigned long` is not narrower
than the value type. -/
theorem maskWidth_eq (h : f.reg.width ≤ T.ulongWidth) : f.maskWidth = f.width := by
  have hfits := f.fits
  rw [maskWidth]
  omega

theorem clearMask_ne_zero : f.clearMask ≠ 0 := by
  have hpos := f.maskWidth_pos
  have hmem : f.offset ∈ bits f.clearMask := by
    rw [f.bits_clearMask, mem_fieldBits]
    omega
  intro hzero
  simp [hzero] at hmem

theorem clearMask_lt : f.clearMask < 2 ^ f.reg.width := by
  apply Nat.lt_pow_two_of_testBit
  intro i hi
  have hfits := f.fits
  have hle := f.maskWidth_le
  rw [Bool.eq_false_iff, ne_eq, ← mem_bits, f.bits_clearMask, mem_fieldBits]
  omega

def toRegmask : Regmask where
  reg := f.reg
  setMask := f.clearMask
  clearMask := f.clearMask
  covers := Nat.or_self _
  clearMask_lt := f.clearMask_lt

@[simp] theorem toRegmask_reg : f.toRegmask.reg = f.reg := rfl

@[simp] theorem toRegmask_setMask : f.toRegmask.setMask = f.clearMask := rfl

@[simp] theorem toRegmask_clearMask : f.toRegmask.clearMask = f.clearMask := rfl

def valueFrom (val : Nat) : Nat := narrow f.reg.width (promote f.reg.width val <<< f.offset)

section Functions

variable {σ : Type u} (A : RegAccess σ)

def setFrom (val : Nat) (s : σ) : σ := f.reg.setClear A (f.valueFrom val) f.clearMask s

def testFrom (val : Nat) (s : σ) : Bool × σ :=
  let (v, s) := A.load f.reg s
  (decide (v &&& f.clearMask = f.valueFrom val), s)

def loadAndShift (s : σ) : Nat × σ :=
  let (v, s) := A.load f.reg s
  (narrow f.reg.width
    (promotedShiftRight f.reg.width (promote f.reg.width (v &&& f.clearMask)) f.offset), s)

end Functions

/-- `bit<bit_no>` -/
def bit (bitNo : Nat) : Except CompileError (Regbits T) := do
  let b ← regbits T f.reg (f.offset + bitNo) 1
  if bitNo < f.width then .ok b else .error .invalidBitNo

end Regbits

/-- The type `regval<Tp, value>`.  The constant is of the value type and shifted by
the offset of the field. -/
structure Regval (T : Target) where
  field : Regbits T
  constant : Nat
  narrowed : constant < 2 ^ field.reg.width
  /-- "clear_mask does not cover all bits of set_mask" -/
  covers : field.valueFrom constant ||| field.clearMask = field.clearMask

def regval {T : Target} (field : Regbits T) (constant : Nat) :
    Except CompileError (Regval T) :=
  if hnarrow : constant < 2 ^ field.reg.width then
    if h : field.valueFrom constant ||| field.clearMask = field.clearMask then
      .ok ⟨field, constant, hnarrow, h⟩
    else .error .notCovered
  else .error .constantOverflow

def Regval.toRegmask {T : Target} (t : Regval T) : Regmask where
  reg := t.field.reg
  setMask := t.field.valueFrom t.constant
  clearMask := t.field.clearMask
  covers := t.covers
  clearMask_lt := t.field.clearMask_lt

namespace Regval

variable {T : Target} (t : Regval T)

@[simp] theorem toRegmask_reg : t.toRegmask.reg = t.field.reg := rfl

@[simp] theorem toRegmask_setMask :
    t.toRegmask.setMask = t.field.valueFrom t.constant := rfl

@[simp] theorem toRegmask_clearMask : t.toRegmask.clearMask = t.field.clearMask := rfl

end Regval

end OpenMptl
