/-
What the functions of a field do to its register: `set_from()` writes the field
and nothing else, `load_and_shift()` and `test_from()` read it back, and fields
that do not overlap are independent.
-/
import OpenMptl.Regbits

namespace OpenMptl

/-- `reg::set(set_mask, clear_mask)` stores the promoted expression, narrowed. -/
theorem Reg.setClear_promoted (r : Reg) {setMask clearMask : Nat}
    (hset : setMask < 2 ^ r.width) (hclear : clearMask < 2 ^ r.width) (b : Bus) :
    r.setClear busAccess setMask clearMask b =
      busAccess.store r (narrow r.width
        ((promote r.width (b.file.value r) &&& ~~~ promote r.width clearMask) |||
          promote r.width setMask)) (b.log (.load r)) := by
  rw [narrow_or, narrow_and_not (b.file.value_lt r), narrow_promote hset, narrow_promote hclear]
  rfl

theorem Reg.clear_promoted (r : Reg) {value : Nat} (hvalue : value < 2 ^ r.width) (b : Bus) :
    r.clear busAccess value b =
      busAccess.store r (narrow r.width
        (promote r.width (b.file.value r) &&& ~~~ promote r.width value))
        (b.log (.load r)) := by
  rw [narrow_and_not (b.file.value_lt r), narrow_promote hvalue]
  rfl

namespace Regbits

variable {T : Target} (f : Regbits T)

theorem bits_valueFrom (val : Nat) :
    bits (f.valueFrom val) = bits (val <<< f.offset) ∩ { i | i < f.reg.width } :=
  bits_narrow_shiftLeft f.reg.width val f.offset

theorem valueFrom_lt (val : Nat) : f.valueFrom val < 2 ^ f.reg.width := narrow_lt _ _

/-- A value of the field is not cut by the value type. -/
theorem valueFrom_eq {val : Nat} (hval : val < 2 ^ f.width) :
    f.valueFrom val = val <<< f.offset := by
  apply bits_injective
  rw [f.bits_valueFrom, Set.inter_eq_left]
  intro i hi
  have hfits := f.fits
  have hfield := bits_shiftLeft_subset hval hi
  rw [mem_fieldBits] at hfield
  change i < f.reg.width
  omega

theorem setFrom_becomes (val : Nat) (b : Bus) :
    b.file.Becomes (f.setFrom busAccess val b).file f.reg
      (bits (b.file.value f.reg) \ fieldBits f.offset f.maskWidth ∪
        bits (f.valueFrom val)) := by
  have h := f.reg.setClear_becomes (f.valueFrom_lt val) f.clearMask b
  rwa [f.bits_clearMask] at h

theorem loadAndShift_eq (b : Bus) :
    (f.loadAndShift busAccess b).1 =
      fieldOf f.offset f.maskWidth (b.file.value f.reg) := by
  have hlt : b.file.value f.reg &&& f.clearMask < 2 ^ f.reg.width :=
    Nat.and_le_left.trans_lt (b.file.value_lt f.reg)
  rw [← and_shiftRight_eq_fieldOf f.bits_clearMask]
  exact narrow_shiftRight hlt f.offset

theorem testFrom_iff {u : Nat} (hu : u < 2 ^ f.width) (b : Bus) :
    (f.testFrom busAccess u b).1 = true ↔
      fieldOf f.offset f.maskWidth (b.file.value f.reg) = u := by
  rw [← and_eq_shiftLeft_iff f.bits_clearMask, ← f.valueFrom_eq hu]
  exact decide_eq_true_iff

/-- Written bits outside of the field would survive, but a value of the field has
none. -/
theorem fieldOf_setFrom (hmask : f.maskWidth = f.width) {val : Nat}
    (hval : val < 2 ^ f.width) (b : Bus) :
    fieldOf f.offset f.width ((f.setFrom busAccess val b).file.value f.reg) = val := by
  have hbits := (f.setFrom_becomes val b).1
  rw [f.valueFrom_eq hval, hmask] at hbits
  exact fieldOf_of_write hval hbits

theorem testBit_setFrom (hmask : f.maskWidth = f.width) {val : Nat}
    (hval : val < 2 ^ f.width) (b : Bus) {i : Nat}
    (hi : i ∉ fieldBits f.offset f.width) :
    ((f.setFrom busAccess val b).file.value f.reg).testBit i =
      (b.file.value f.reg).testBit i := by
  have hsub : bits (val <<< f.offset) ⊆ fieldBits f.offset f.width :=
    bits_shiftLeft_subset hval
  have hnot : i ∉ bits (val <<< f.offset) := fun hmem => hi (hsub hmem)
  rw [Bool.eq_iff_iff, ← mem_bits, ← mem_bits, (f.setFrom_becomes val b).1,
    f.valueFrom_eq hval, hmask]
  simp only [Set.mem_union, Set.mem_sdiff, hi, not_false_eq_true, and_true, hnot, or_false]

/-- A field of one bit is that bit. -/
theorem clearMask_eq_two_pow (hwidth : f.width = 1) : f.clearMask = 2 ^ f.offset := by
  have hpos := f.maskWidth_pos
  have hle := f.maskWidth_le
  apply bits_injective
  rw [f.bits_clearMask, bits_two_pow]
  ext i
  rw [mem_fieldBits, Set.mem_singleton_iff]
  omega

theorem set_bit (hwidth : f.width = 1) (cfg : BitbandConfig) (b : Bus) :
    b.file.Becomes (f.toRegmask.set busAccess cfg b).file f.reg
      (bits (b.file.value f.reg) ∪ {f.offset}) := by
  have h := (f.toRegmask.set_acts cfg).becomes b
  simp only [Patch.apply, Regmask.patch_set, Regmask.patch_clear, toRegmask_reg,
    toRegmask_setMask, toRegmask_clearMask, f.clearMask_eq_two_pow hwidth, bits_two_pow,
    Set.sup_eq_union, Set.sdiff_union_self] at h
  exact h

theorem clear_bit (hwidth : f.width = 1) (cfg : BitbandConfig) (b : Bus) :
    b.file.Becomes (f.toRegmask.clear busAccess cfg b).file f.reg
      (bits (b.file.value f.reg) \ {f.offset}) := by
  have h := (f.toRegmask.clear_acts cfg).becomes b
  simp only [Regmask.patch_clear, toRegmask_reg, toRegmask_clearMask,
    f.clearMask_eq_two_pow hwidth, bits_two_pow] at h
  exact h

theorem test_bit (hwidth : f.width = 1) (cfg : BitbandConfig) (b : Bus) :
    (f.toRegmask.test busAccess cfg b).1 = (b.file.value f.reg).testBit f.offset := by
  have hpos := (Nat.two_pow_pos f.offset).ne'
  have hand := Regmask.and_two_pow_ne_zero_iff (b.file.value f.reg) f.offset
  rw [Regmask.test_busAccess, Regmask.holds]
  simp only [toRegmask_reg, toRegmask_setMask, toRegmask_clearMask,
    f.clearMask_eq_two_pow hwidth, hpos, ↓reduceIte]
  exact Bool.eq_iff_iff.mpr (decide_eq_true_iff.trans hand)

/-- What a write to the field clears lies outside of a field that does not overlap
it. -/
theorem inter_fieldBits_eq_empty {g : Regbits T}
    (h : f.offset + f.width ≤ g.offset ∨ g.offset + g.width ≤ f.offset) :
    fieldBits f.offset f.width ∩ fieldBits g.offset g.maskWidth = ∅ := by
  have hle := g.maskWidth_le
  rw [Set.eq_empty_iff_forall_notMem]
  rintro i ⟨hmine, hyours⟩
  rw [mem_fieldBits] at hmine hyours
  omega

/-- So do the bits of the value that is written. -/
theorem bits_sdiff_fieldBits {g : Regbits T}
    (h : f.offset + f.width ≤ g.offset ∨ g.offset + g.width ≤ f.offset) {val : Nat}
    (hval : val < 2 ^ f.width) :
    bits (val <<< f.offset) \ fieldBits g.offset g.maskWidth = bits (val <<< f.offset) := by
  have hdisjoint := Set.disjoint_iff_inter_eq_empty.mpr (f.inter_fieldBits_eq_empty h)
  exact (hdisjoint.mono_left (bits_shiftLeft_subset hval)).sdiff_eq_left

theorem fieldBits_maskWidth_subset :
    fieldBits f.offset f.maskWidth ⊆ fieldBits f.offset f.width := by
  intro i hi
  have hle := f.maskWidth_le
  rw [mem_fieldBits] at hi ⊢
  omega

/-- Writes to fields that do not overlap commute. -/
theorem setFrom_comm {g : Regbits T} (hreg : g.reg = f.reg)
    (hdisjoint : f.offset + f.width ≤ g.offset ∨ g.offset + g.width ≤ f.offset)
    {val val' : Nat} (hval : val < 2 ^ f.width) (hval' : val' < 2 ^ g.width) (b : Bus) :
    (g.setFrom busAccess val' (f.setFrom busAccess val b)).file =
      (f.setFrom busAccess val (g.setFrom busAccess val' b)).file := by
  obtain ⟨hf, hfo⟩ := f.setFrom_becomes val b
  obtain ⟨hg, hgo⟩ := g.setFrom_becomes val' b
  obtain ⟨hgf, hgfo⟩ := g.setFrom_becomes val' (f.setFrom busAccess val b)
  obtain ⟨hfg, hfgo⟩ := f.setFrom_becomes val (g.setFrom busAccess val' b)
  rw [hreg] at hg hgo hgf hgfo
  apply RegFile.ext_bits
  intro q
  by_cases hq : q = f.reg
  · rw [hq, hgf, hfg, hf, hg, f.valueFrom_eq hval, g.valueFrom_eq hval',
      Set.union_sdiff_distrib, Set.union_sdiff_distrib, f.bits_sdiff_fieldBits hdisjoint hval,
      g.bits_sdiff_fieldBits hdisjoint.symm hval', Set.sdiff_sdiff_comm, Set.union_right_comm]
  · rw [hgfo q hq, hfo q hq, hfgo q hq, hgo q hq]

/-- A write to one field is not seen by the other one. -/
theorem loadAndShift_setFrom {g : Regbits T} (hreg : g.reg = f.reg)
    (hdisjoint : f.offset + f.width ≤ g.offset ∨ g.offset + g.width ≤ f.offset)
    {val : Nat} (hval : val < 2 ^ f.width) (b : Bus) :
    (g.loadAndShift busAccess (f.setFrom busAccess val b)).1 =
      (g.loadAndShift busAccess b).1 := by
  have hcleared := Set.disjoint_iff_inter_eq_empty.mpr (f.inter_fieldBits_eq_empty hdisjoint)
  have hmine := hcleared.mono_left (bits_shiftLeft_subset hval)
  have hkept := hcleared.symm.mono (@Set.inter_subset_right _ (bits (b.file.value f.reg)) _)
    f.fieldBits_maskWidth_subset
  rw [g.loadAndShift_eq, g.loadAndShift_eq, hreg]
  apply fieldOf_congr
  rw [(f.setFrom_becomes val b).1, f.valueFrom_eq hval, Set.union_inter_distrib_right,
    hmine.inter_eq, Set.union_empty, Set.sdiff_inter_right_comm, hkept.sdiff_eq_left]

theorem regbits_eq_ok {T : Target} {r : Reg} {offset width : Nat} (hwidth : 1 ≤ width)
    (hfits : offset + width ≤ r.width) (hwidthLt : width < T.ulongWidth)
    (hoffsetLt : offset < T.ulongWidth) :
    regbits T r offset width = .ok ⟨r, offset, width, hwidth, hfits, hwidthLt, hoffsetLt⟩ := by
  rw [regbits, dif_pos ⟨hwidthLt, hoffsetLt⟩, dif_pos hwidth, dif_pos hfits]

/-- Every bit of a field that lies in `unsigned long` has its type. -/
theorem bit_eq_ok (hmask : f.offset + f.width ≤ T.ulongWidth) {i : Nat} (hi : i < f.width) :
    ∃ g, f.bit i = .ok g ∧ g.reg = f.reg ∧ g.offset = f.offset + i ∧ g.width = 1 := by
  have hfits := f.fits
  have hge := T.ulongWidth_ge
  let g : Regbits T :=
    ⟨f.reg, f.offset + i, 1, le_rfl, by omega, by omega, by omega⟩
  have hg : regbits T f.reg (f.offset + i) 1 = .ok g := regbits_eq_ok _ _ _ _
  exact ⟨g, by rw [bit, hg, ok_bind, if_pos hi], rfl, rfl, rfl⟩

end Regbits

/-- A field behaves as a variable of its own. -/
theorem regbits_is_variable (T : Target) {r : Reg} (hperm : r.permission = .rw)
    (hN : r.width ≤ 32) {offset width : Nat} (hwidth : 1 ≤ width)
    (hfits : offset + width ≤ r.width) (hdefined : width < T.ulongWidth) :
    r.checkLoad = .ok () ∧ r.checkStore = .ok () ∧
    ∃ f : Regbits T, regbits T r offset width = .ok f ∧
      (∀ (b : Bus) val, val < 2 ^ width →
        (f.loadAndShift busAccess (f.setFrom busAccess val b)).1 = val ∧
        (∀ u, u < 2 ^ width →
          ((f.testFrom busAccess u (f.setFrom busAccess val b)).1 = true ↔ u = val)) ∧
        ∀ i, ¬ (offset ≤ i ∧ i < offset + width) →
          ((f.setFrom busAccess val b).file.value r).testBit i =
            (b.file.value r).testBit i) ∧
      (∀ i, i < width → ∃ g, f.bit i = .ok g ∧ ∀ cfg (b : Bus),
        b.file.Becomes (g.toRegmask.set busAccess cfg b).file r
          (bits (b.file.value r) ∪ {offset + i}) ∧
        b.file.Becomes (g.toRegmask.clear busAccess cfg b).file r
          (bits (b.file.value r) \ {offset + i}) ∧
        (g.toRegmask.test busAccess cfg b).1 = (b.file.value r).testBit (offset + i)) ∧
      ∀ g : Regbits T, g.reg = r →
        (offset + width ≤ g.offset ∨ g.offset + g.width ≤ offset) →
        ∀ (b : Bus) val val', val < 2 ^ width → val' < 2 ^ g.width →
          (g.setFrom busAccess val' (f.setFrom busAccess val b)).file =
            (f.setFrom busAccess val (g.setFrom busAccess val' b)).file ∧
          (g.loadAndShift busAccess (f.setFrom busAccess val b)).1 =
            (g.loadAndShift busAccess b).1 := by
  have hge := T.ulongWidth_ge
  have hok : regbits T r offset width = .ok _ :=
    Regbits.regbits_eq_ok hwidth hfits hdefined (by omega)
  refine ⟨by simp [Reg.checkLoad, hperm], by simp [Reg.checkStore, hperm], _, hok, ?_⟩
  generalize hf : (⟨r, offset, width, hwidth, hfits, hdefined, _⟩ : Regbits T) = f
  obtain rfl : f.reg = r := by rw [← hf]
  obtain rfl : f.offset = offset := by rw [← hf]
  obtain rfl : f.width = width := by rw [← hf]
  have hmask : f.maskWidth = f.width := f.maskWidth_eq (hN.trans hge)
  refine ⟨fun b val hval => ⟨?_, fun u hu => ?_, fun i hi => ?_⟩, fun i hi => ?_, ?_⟩
  · rw [f.loadAndShift_eq, hmask, f.fieldOf_setFrom hmask hval]
  · rw [f.testFrom_iff hu, hmask, f.fieldOf_setFrom hmask hval, eq_comm]
  · exact f.testBit_setFrom hmask hval b hi
  · obtain ⟨g, hg, hreg, hoffset, hone⟩ := f.bit_eq_ok (by omega) hi
    refine ⟨g, hg, fun cfg b => ?_⟩
    rw [← hreg, ← hoffset]
    exact ⟨g.set_bit hone cfg b, g.clear_bit hone cfg b, g.test_bit hone cfg b⟩
  · intro g hreg hdisjoint b val val' hval hval'
    exact ⟨f.setFrom_comm hreg hdisjoint hval hval' b,
      f.loadAndShift_setFrom hreg hdisjoint hval b⟩

namespace RegbitsTest

def arm : Target := ⟨32, le_rfl, .uint32, by decide⟩

def device : Reg := ⟨.uint8, 0x1000, .rw, 0, ValueType.two_pow_width_pos _⟩

/-- The field at the top of an 8-bit register. -/
theorem regbits_is_variable_top :
    ∃ f : Regbits arm, regbits arm device 5 3 = .ok f ∧
      ∀ b, (f.loadAndShift busAccess (f.setFrom busAccess 5 b)).1 = 5 := by
  obtain ⟨-, -, f, hf, hset, -⟩ := @regbits_is_variable arm device rfl (by decide) 5 3
    (by decide) (by decide) (by decide)
  exact ⟨f, hf, fun b => (hset b 5 (by decide)).1⟩

end RegbitsTest

end OpenMptl
