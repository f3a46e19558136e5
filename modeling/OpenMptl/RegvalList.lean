/-
Lists of constants whose fields are equal or share no bit.  Such a list is accepted when
no field gets two constants; after a reset every field reads back its constant, and a
field that is not in the list reads 0.
-/
import Mathlib.Data.Set.BooleanAlgebra
import Mathlib.Order.CompletePartialOrder
import OpenMptl.Baudrate
import OpenMptl.StrictReset

namespace OpenMptl

open Patch

variable {T : Target}

/-- What a field holds. -/
def Regbits.contents (f : Regbits T) (file : RegFile) : Nat :=
  fieldOf f.offset f.width (file.value f.reg)

/-- One of the fields ends before the other one begins. -/
theorem disjoint_fieldBits {offset width offset' width' : Nat}
    (h : offset + width ≤ offset' ∨ offset' + width' ≤ offset) :
    Disjoint (fieldBits offset width) (fieldBits offset' width') := by
  refine Set.disjoint_left.mpr fun i hi hi' => ?_
  rw [mem_fieldBits] at hi hi'
  omega

/-- Fields of different registers, or without a common bit. -/
def Regbits.Apart (f g : Regbits T) : Prop :=
  f.reg = g.reg → Disjoint (fieldBits f.offset f.width) (fieldBits g.offset g.width)

theorem Regbits.Apart.symm {f g : Regbits T} (h : f.Apart g) : g.Apart f :=
  fun hreg => (h hreg.symm).symm

theorem Regbits.not_apart_self (f : Regbits T) : ¬ f.Apart f := by
  intro h
  have hwidth := f.width_pos
  have hmem : f.offset ∈ fieldBits f.offset f.width := by
    rw [mem_fieldBits]
    omega
  exact Set.disjoint_left.mp (h rfl) hmem hmem

/-- The elements of a list of constants. -/
def regvalElements (vals : List (Regval T)) : List RegmaskType := vals.map Regval.toRegmaskType

/-- Constants that fit their fields, on fields that are equal or apart. -/
structure Separated (vals : List (Regval T)) : Prop where
  whole : ∀ v ∈ vals, v.field.maskWidth = v.field.width
  constant_lt : ∀ v ∈ vals, v.constant < 2 ^ v.field.width
  apart : ∀ v ∈ vals, ∀ w ∈ vals, v.field = w.field ∨ v.field.Apart w.field

/-- No field gets two constants. -/
def Unambiguous (vals : List (Regval T)) : Prop :=
  ∀ v ∈ vals, ∀ w ∈ vals, v.field = w.field → v.constant = w.constant

namespace Regval

variable {v w : Regval T}

theorem bits_setMask (h : v.constant < 2 ^ v.field.width) :
    v.toRegmask.patch.set = bits (v.constant <<< v.field.offset) :=
  congrArg bits (v.field.valueFrom_eq h)

theorem bits_clearMask (h : v.field.maskWidth = v.field.width) :
    v.toRegmask.patch.clear = fieldBits v.field.offset v.field.width := by
  rw [Regmask.patch_clear, toRegmask_clearMask, v.field.bits_clearMask, h]

theorem set_subset (h : v.constant < 2 ^ v.field.width) :
    v.toRegmask.patch.set ⊆ fieldBits v.field.offset v.field.width := by
  rw [bits_setMask h]
  exact bits_shiftLeft_subset h

end Regval

theorem shiftLeft_right_injective {a b : Nat} (offset : Nat)
    (h : bits (a <<< offset) = bits (b <<< offset)) : a = b := by
  have heq := bits_injective h
  rwa [Nat.shiftLeft_eq, Nat.shiftLeft_eq, Nat.mul_left_inj (Nat.two_pow_pos offset).ne'] at heq

namespace Separated

variable {vals : List (Regval T)} {v w : Regval T} {r : Reg}

theorem compatible_iff (h : Separated vals) (hv : v ∈ vals) (hw : w ∈ vals)
    (hfield : v.field = w.field) :
    v.toRegmask.patch.Compatible w.toRegmask.patch ↔ v.constant = w.constant := by
  have hvset := Regval.bits_setMask (h.constant_lt v hv)
  have hwset := Regval.bits_setMask (h.constant_lt w hw)
  have hvclear := Regval.bits_clearMask (h.whole v hv)
  have hwclear := Regval.bits_clearMask (h.whole w hw)
  constructor
  · rintro ⟨hvw, hwv⟩
    apply shiftLeft_right_injective v.field.offset
    rw [← hvset, hfield, ← hwset]
    apply Set.Subset.antisymm
    · intro i hi
      have hmem := Regval.set_subset (h.constant_lt v hv) hi
      rw [hfield, ← hwclear] at hmem
      exact hvw ⟨hi, hmem⟩
    · intro i hi
      have hmem := Regval.set_subset (h.constant_lt w hw) hi
      rw [← hfield, ← hvclear] at hmem
      exact hwv ⟨hi, hmem⟩
  · intro hconstant
    have hsame : v.toRegmask.patch.set = w.toRegmask.patch.set := by
      rw [hvset, hwset, hfield, hconstant]
    constructor
    · exact hsame ▸ inf_le_left
    · exact hsame ▸ inf_le_left

theorem compatible_of_apart (h : Separated vals) (hv : v ∈ vals) (hw : w ∈ vals)
    (hreg : v.field.reg = w.field.reg) (hapart : v.field.Apart w.field) :
    v.toRegmask.patch.Compatible w.toRegmask.patch := by
  have hdisjoint := Set.disjoint_left.mp (hapart hreg)
  constructor
  · rintro i ⟨hset, hclear⟩
    rw [Regval.bits_clearMask (h.whole w hw)] at hclear
    exact absurd hclear (hdisjoint (Regval.set_subset (h.constant_lt v hv) hset))
  · rintro i ⟨hset, hclear⟩
    rw [Regval.bits_clearMask (h.whole v hv)] at hclear
    exact absurd (Regval.set_subset (h.constant_lt w hw) hset) (hdisjoint hclear)

theorem mem_onReg_regvalElements {t : RegmaskType} :
    t ∈ onReg (regvalElements vals) r ↔
      ∃ v ∈ vals, v.toRegmaskType = t ∧ v.field.reg = r := by
  rw [mem_onReg, regvalElements, List.mem_map]
  constructor
  · rintro ⟨⟨v, hv, rfl⟩, hreg⟩
    exact ⟨v, hv, rfl, hreg⟩
  · rintro ⟨v, hv, rfl, hreg⟩
    exact ⟨⟨v, hv, rfl⟩, hreg⟩

/-- The list is accepted on every register exactly when it is unambiguous. -/
theorem allCompatible_iff (h : Separated vals) :
    (∀ r, AllCompatible (patches (onReg (regvalElements vals) r))) ↔ Unambiguous vals := by
  constructor
  · intro hcompat v hv w hw hfield
    refine (h.compatible_iff hv hw hfield).mp (hcompat v.field.reg _ ?_ _ ?_)
    · exact List.mem_map_of_mem (mem_onReg_regvalElements.mpr ⟨v, hv, rfl, rfl⟩)
    · exact List.mem_map_of_mem
        (mem_onReg_regvalElements.mpr ⟨w, hw, rfl, congrArg Regbits.reg hfield.symm⟩)
  · intro hunambiguous r p hp q hq
    obtain ⟨t, ht, rfl⟩ := List.mem_map.mp hp
    obtain ⟨u, hu, rfl⟩ := List.mem_map.mp hq
    obtain ⟨v, hv, rfl, hvreg⟩ := mem_onReg_regvalElements.mp ht
    obtain ⟨w, hw, rfl, hwreg⟩ := mem_onReg_regvalElements.mp hu
    rcases h.apart v hv w hw with hfield | hapart
    · exact (h.compatible_iff hv hw hfield).mpr (hunambiguous v hv w hw hfield)
    · exact h.compatible_of_apart hv hw (hvreg.trans hwreg.symm) hapart

end Separated

/-- On a register that is reset to 0 the constants are all that is set. -/
theorem mem_bits_resetUnion {vals : List (Regval T)} {r : Reg} (hreset : r.resetValue = 0)
    {i : Nat} : i ∈ bits (resetUnion r (onReg (regvalElements vals) r)) ↔
      ∃ v ∈ vals, v.field.reg = r ∧ i ∈ v.toRegmask.patch.set := by
  have hset : bits (resetUnion r (onReg (regvalElements vals) r)) =
      (mergeAll (patches (onReg (regvalElements vals) r))).set := by
    rw [bits_resetUnion, Patch.apply, hreset, bits_zero]
    simp
  rw [hset]
  constructor
  · intro hi
    by_contra hnone
    have hle : (mergeAll (patches (onReg (regvalElements vals) r))).set ⊆ {i}ᶜ := by
      refine (mergeAll_set_le_iff _ _).mpr fun p hp => ?_
      obtain ⟨t, ht, rfl⟩ := List.mem_map.mp hp
      obtain ⟨v, hv, rfl, hreg⟩ := Separated.mem_onReg_regvalElements.mp ht
      rintro j hj rfl
      exact hnone ⟨v, hv, hreg, hj⟩
    exact hle hi rfl
  · rintro ⟨v, hv, hreg, hi⟩
    have hmem := Separated.mem_onReg_regvalElements.mpr ⟨v, hv, rfl, hreg⟩
    have hpatch : v.toRegmask.patch ∈ patches (onReg (regvalElements vals) r) :=
      List.mem_map.mpr ⟨v.toRegmaskType, hmem, rfl⟩
    have hle : v.toRegmask.patch.set ⊆ _ := set_le_mergeAll hpatch
    exact hle hi

namespace Separated

variable {vals : List (Regval T)} {r : Reg}

theorem fieldOf_resetUnion (h : Separated vals) (hunambiguous : Unambiguous vals)
    {v : Regval T} (hv : v ∈ vals) (hreset : v.field.reg.resetValue = 0) :
    fieldOf v.field.offset v.field.width
      (resetUnion v.field.reg (onReg (regvalElements vals) v.field.reg)) = v.constant := by
  rw [fieldOf_eq_iff, ← Regval.bits_setMask (h.constant_lt v hv)]
  ext i
  rw [Set.mem_inter_iff, mem_bits_resetUnion hreset]
  constructor
  · rintro ⟨⟨w, hw, hreg, hi⟩, hmem⟩
    rcases h.apart v hv w hw with hfield | hapart
    · have hsame : v.toRegmask.patch.set = w.toRegmask.patch.set := by
        rw [Regval.bits_setMask (h.constant_lt v hv), Regval.bits_setMask (h.constant_lt w hw),
          hfield, hunambiguous v hv w hw hfield]
      exact hsame ▸ hi
    · exact absurd (Regval.set_subset (h.constant_lt w hw) hi)
        (Set.disjoint_left.mp (hapart hreg.symm) hmem)
  · intro hi
    exact ⟨⟨v, hv, rfl, hi⟩, Regval.set_subset (h.constant_lt v hv) hi⟩

theorem fieldOf_resetUnion_of_apart (h : Separated vals) {f : Regbits T}
    (hf : ∀ v ∈ vals, f.Apart v.field) (hreset : f.reg.resetValue = 0) :
    fieldOf f.offset f.width (resetUnion f.reg (onReg (regvalElements vals) f.reg)) = 0 := by
  rw [fieldOf_eq_zero_iff, Set.eq_empty_iff_forall_notMem]
  rintro i ⟨hi, hmem⟩
  obtain ⟨v, hv, hreg, hset⟩ := (mem_bits_resetUnion hreset).mp hi
  exact Set.disjoint_left.mp (hf v hv hreg.symm) hmem (Regval.set_subset (h.constant_lt v hv) hset)

end Separated

/-! Strict resets of lists that are written as trees. -/

section Trees

variable {trees : List (ListTree Element)} {ts : List RegmaskType}

theorem exists_ofElements_iff :
    (∃ l, Reglist.ofElements ts = .ok l) ↔ ∀ r, AllCompatible (patches (onReg ts r)) := by
  constructor
  · rintro ⟨l, hl⟩ r
    obtain rfl := Reglist.ofElements_eq_ok_iff.mp hl
    exact l.allCompatible_onReg r
  · intro h
    exact Reglist.exists_ofElements fun t ht => exists_merged_of_mem ht (h t.reg)

theorem elements_of_reglistOf (hleaves : ListTree.leavesAll trees = ts.map Element.regmask)
    {l : Reglist} (h : reglistOf trees = .ok l) : l.elements = ts := by
  have hinj : Function.Injective (List.map Element.regmask) :=
    List.map_injective_iff.mpr fun a b h => Element.regmask.inj h
  exact hinj ((reglistOf_elements h).symm.trans hleaves)

/-- A tree of regmasks is accepted when its inner lists are and its leaves merge. -/
theorem exists_reglistOf_iff (hleaves : ListTree.leavesAll trees = ts.map Element.regmask)
    (hcheck : ListTree.checkAll trees = .ok ()) :
    (∃ l, reglistOf trees = .ok l) ↔ ∀ r, AllCompatible (patches (onReg ts r)) := by
  rw [← exists_ofElements_iff]
  constructor
  · rintro ⟨l, hl⟩
    exact ⟨l, Reglist.ofElements_eq_ok_iff.mpr (elements_of_reglistOf hleaves hl)⟩
  · rintro ⟨l, hl⟩
    refine ⟨l, check_bind_eq_ok_iff.mpr ⟨hcheck, ?_⟩⟩
    rw [reglist_eq_ok_iff, ListTree.typelist_args, hleaves, Reglist.ofElements_eq_ok_iff.mp hl]

theorem exists_strictResetTo_leaves_iff {σ : Type} {A : RegAccess σ}
    (hleaves : ListTree.leavesAll trees = ts.map Element.regmask)
    (hcheck : ListTree.checkAll trees = .ok ()) {regs : List Reg}
    (hregs : ∀ t ∈ ts, t.reg ∈ regs) (hperm : ∀ r ∈ regs, r.permission ≠ .ro) :
    (∃ prog, strictResetTo A trees regs = .ok prog) ↔
      ∀ r, AllCompatible (patches (onReg ts r)) := by
  rw [← exists_reglistOf_iff hleaves hcheck]
  constructor
  · rintro ⟨prog, hprog⟩
    obtain ⟨l, hl, -⟩ := strictResetTo_eq_ok_iff.mp hprog
    exact ⟨l, hl⟩
  · rintro ⟨l, hl⟩
    refine (exists_strictResetTo_iff hl regs).mpr ⟨?_, hperm⟩
    rw [elements_of_reglistOf hleaves hl]
    exact hregs

theorem value_strictResetTo (hleaves : ListTree.leavesAll trees = ts.map Element.regmask)
    {regs : List Reg} {prog : Bus → Bus} (h : strictResetTo busAccess trees regs = .ok prog)
    {r : Reg} (hr : r ∈ regs) (b : Bus) :
    (prog b).file.value r = resetUnion r (onReg ts r) := by
  obtain ⟨l, hl, -, strictList, hs, hreset⟩ := strictResetTo_eq_ok_iff.mp h
  rw [Reglist.value_strict_of_mem hs hreset b hr, elements_of_reglistOf hleaves hl]

/-- A `reglist<>` of constants, as it is written inside other lists. -/
def regvalTree (vals : List (Regval T)) : ListTree Element :=
  .node .reglist ((regvalElements vals).map fun t => .leaf (.regmask t))

theorem leavesAll_leaf (es : List Element) : ListTree.leavesAll (es.map .leaf) = es := by
  induction es with
  | nil => rfl
  | cons e es ih => simp [ListTree.leavesAll, ListTree.leaves, ih]

theorem checkAll_leaf (es : List Element) : ListTree.checkAll (es.map .leaf) = .ok () := by
  induction es with
  | nil => rfl
  | cons e es ih =>
      simp only [List.map_cons, ListTree.checkAll, ListTree.check]
      exact ih

theorem leaves_regvalTree (vals : List (Regval T)) :
    (regvalTree vals).leaves = (regvalElements vals).map Element.regmask := by
  have hleaf := leavesAll_leaf ((regvalElements vals).map Element.regmask)
  rw [List.map_map] at hleaf
  exact hleaf

theorem check_regvalTree {vals : List (Regval T)}
    (h : ∀ r, AllCompatible (patches (onReg (regvalElements vals) r))) :
    (regvalTree vals).check = .ok () := by
  have hleaf := checkAll_leaf ((regvalElements vals).map Element.regmask)
  have hleaves := leaves_regvalTree vals
  rw [List.map_map] at hleaf
  rw [regvalTree, ListTree.leaves] at hleaves
  rw [regvalTree, ListTree.check, check_bind_eq_ok_iff]
  refine ⟨hleaf, ?_⟩
  rw [ListTree.typelist_args, hleaves, checkReglist_regmask, exists_ofElements_iff]
  exact h

theorem Separated.check_regvalTree {vals : List (Regval T)} (h : Separated vals)
    (hunambiguous : Unambiguous vals) : (regvalTree vals).check = .ok () :=
  OpenMptl.check_regvalTree (h.allCompatible_iff.mpr hunambiguous)

end Trees

end OpenMptl
