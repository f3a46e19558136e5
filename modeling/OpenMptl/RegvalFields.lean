/-
Lists of masks on fields without a common bit.  Such lists are always accepted, and after
a reset each field holds its constant and the other bits their reset value; whether the
fields are apart is decided from their positions.
-/
import Mathlib.Data.List.Pairwise
import OpenMptl.RegvalList
import OpenMptl.StatusBus

namespace OpenMptl

open Patch

/-- A field of one bit. -/
theorem fieldOf_one_iff {i v : Nat} : fieldOf i 1 v = 1 ↔ v.testBit i = true := by
  rw [Nat.testBit_eq_decide_div_mod_eq, decide_eq_true_iff, fieldOf, Nat.shiftRight_eq_div_pow]
  rfl

/-- The place of a field. -/
structure FieldKey where
  reg : Reg
  offset : Nat
  width : Nat
deriving DecidableEq

namespace FieldKey

/-- On different registers, or one ends before the other begins. -/
def Apart (k l : FieldKey) : Prop :=
  k.reg = l.reg → k.offset + k.width ≤ l.offset ∨ l.offset + l.width ≤ k.offset

instance : DecidableRel Apart := fun k l =>
  inferInstanceAs (Decidable (k.reg = l.reg →
    k.offset + k.width ≤ l.offset ∨ l.offset + l.width ≤ k.offset))

end FieldKey

namespace RegmaskType

/-- The mask of `t` is the field `k`. -/
structure OnField (k : FieldKey) (t : RegmaskType) : Prop where
  reg : t.reg = k.reg
  clear : t.patch.clear = fieldBits k.offset k.width

variable {k l : FieldKey} {t u : RegmaskType} {keys : List FieldKey} {ts : List RegmaskType}

theorem OnField.compatible (ht : OnField k t) (hu : OnField l u) (h : k.Apart l)
    (hreg : t.reg = u.reg) : t.patch.Compatible u.patch := by
  have hdisjoint : Disjoint t.patch.clear u.patch.clear := by
    rw [ht.clear, hu.clear]
    exact disjoint_fieldBits (h (ht.reg.symm.trans (hreg.trans hu.reg)))
  constructor
  · rintro i ⟨hset, hclear⟩
    exact absurd hclear (Set.disjoint_left.mp hdisjoint (t.patch.set_le hset))
  · rintro i ⟨hset, hclear⟩
    exact absurd (u.patch.set_le hset) (Set.disjoint_left.mp hdisjoint hclear)

/-- Equal registers have compatible masks. -/
def Agree (t u : RegmaskType) : Prop := t.reg = u.reg → t.patch.Compatible u.patch

instance : Std.Symm Agree := ⟨fun _ _ h hreg => (h hreg.symm).symm⟩

theorem pairwise_agree (h : List.Forall₂ OnField keys ts)
    (hkeys : keys.Pairwise FieldKey.Apart) : ts.Pairwise Agree := by
  induction h with
  | nil => exact List.Pairwise.nil
  | cons ht hts ih =>
      obtain ⟨hhead, hrest⟩ := List.pairwise_cons.mp hkeys
      refine List.pairwise_cons.mpr ⟨fun u hu => ?_, ih hrest⟩
      obtain ⟨l, hl, hul⟩ := exists_of_mem_forall₂ hts.flip hu
      exact ht.compatible hul (hhead l hl)

/-- Masks on fields that are apart are never in conflict. -/
theorem allCompatible_of_apart (h : List.Forall₂ OnField keys ts)
    (hkeys : keys.Pairwise FieldKey.Apart) (r : Reg) :
    AllCompatible (patches (onReg ts r)) := by
  intro p hp q hq
  obtain ⟨t, ht, rfl⟩ := List.mem_map.mp hp
  obtain ⟨u, hu, rfl⟩ := List.mem_map.mp hq
  obtain ⟨ht, htreg⟩ := mem_onReg.mp ht
  obtain ⟨hu, hureg⟩ := mem_onReg.mp hu
  have hself : ∀ t ∈ ts, Agree t t := fun t _ _ => compatible_self t.patch
  exact (pairwise_agree h hkeys).forall_of_forall hself ht hu (htreg.trans hureg.symm)

end RegmaskType

section Regvals

variable {T : Target}

/-- `regval<field, value>` -/
abbrev FieldValue (T : Target) := Regbits T × Nat

def FieldValue.key (x : FieldValue T) : FieldKey := ⟨x.1.reg, x.1.offset, x.1.width⟩

/-- A value that the field can hold. -/
structure FieldValue.Fits (x : FieldValue T) : Prop where
  whole : x.1.maskWidth = x.1.width
  value_lt : x.2 < 2 ^ x.1.width

/-- The constants of a list of fields and values. -/
def regvals (xs : List (FieldValue T)) : Except CompileError (List (Regval T)) :=
  xs.mapM fun x => regval x.1 x.2

/-- `v` is the constant of `x`. -/
structure FieldValue.Is (x : FieldValue T) (v : Regval T) : Prop where
  field : v.field = x.1
  constant : v.constant = x.2

variable {xs : List (FieldValue T)} {vs : List (Regval T)} {x : FieldValue T} {v : Regval T}

theorem regvals_eq_ok_iff :
    regvals xs = .ok vs ↔ List.Forall₂ FieldValue.Is xs vs := by
  rw [regvals, mapM_eq_ok_iff]
  refine ⟨fun h => h.imp fun x v hv => ?_, fun h => h.imp fun x v hv => ?_⟩
  · obtain ⟨hfield, hconstant⟩ := Regval.eq_of_regval hv
    exact ⟨hfield, hconstant⟩
  · rw [← hv.field, ← hv.constant]
    exact v.regval_self

theorem exists_regvals (h : ∀ x ∈ xs, FieldValue.Fits x) : ∃ vs, regvals xs = .ok vs := by
  induction xs with
  | nil => exact ⟨[], rfl⟩
  | cons x xs ih =>
      obtain ⟨vs, hvs⟩ := ih fun y hy => h y (List.mem_cons_of_mem x hy)
      have hx := h x List.mem_cons_self
      obtain ⟨v, -, hfield, hconstant⟩ := Regval.regval_eq_ok hx.whole hx.value_lt
      exact ⟨v :: vs, regvals_eq_ok_iff.mpr
        (.cons ⟨hfield, hconstant⟩ (regvals_eq_ok_iff.mp hvs))⟩

theorem FieldValue.Is.onField (h : FieldValue.Is x v) (hx : FieldValue.Fits x) :
    RegmaskType.OnField (FieldValue.key x) v.toRegmaskType := by
  refine ⟨congrArg Regbits.reg h.field, ?_⟩
  have hwhole : v.field.maskWidth = v.field.width := by rw [h.field, hx.whole]
  have hclear := Regval.bits_clearMask hwhole
  rwa [h.field] at hclear

theorem onField_regvals (h : List.Forall₂ FieldValue.Is xs vs)
    (hfits : ∀ x ∈ xs, FieldValue.Fits x) :
    List.Forall₂ RegmaskType.OnField (xs.map FieldValue.key) (regvalElements vs) := by
  induction h with
  | nil => exact .nil
  | cons hx hxs ih =>
      exact .cons (hx.onField (hfits _ List.mem_cons_self))
        (ih fun y hy => hfits y (List.mem_cons_of_mem _ hy))

theorem Regval.testBit_clearMask (h : v.field.maskWidth = v.field.width) (i : Nat) :
    v.toRegmask.clearMask.testBit i = true ↔
      v.field.offset ≤ i ∧ i < v.field.offset + v.field.width := by
  have hclear : bits v.toRegmask.clearMask = fieldBits v.field.offset v.field.width :=
    Regval.bits_clearMask h
  rw [← mem_bits, hclear, mem_fieldBits]

/-- The set bits are those of the value, at its place. -/
theorem FieldValue.Is.bits_setMask (h : FieldValue.Is x v) (hx : FieldValue.Fits x) :
    bits v.toRegmask.setMask = bits (x.2 <<< x.1.offset) := by
  have hlt : v.constant < 2 ^ v.field.width := by
    rw [h.field, h.constant]
    exact hx.value_lt
  have hset : bits v.toRegmask.setMask = bits (v.constant <<< v.field.offset) :=
    Regval.bits_setMask hlt
  rwa [h.field, h.constant] at hset

/-- The masked bits are those of the constant. -/
theorem FieldValue.Is.fieldOf_of_testBit (h : FieldValue.Is x v) (hx : FieldValue.Fits x)
    {w : Nat} (hw : ∀ i, v.toRegmask.clearMask.testBit i = true →
      w.testBit i = v.toRegmask.setMask.testBit i) :
    fieldOf x.1.offset x.1.width w = x.2 := by
  have hwhole : v.field.maskWidth = v.field.width := by rw [h.field, hx.whole]
  rw [fieldOf_eq_iff, ← h.bits_setMask hx, ← h.field]
  ext i
  rw [Set.mem_inter_iff, mem_fieldBits, ← Regval.testBit_clearMask hwhole, mem_bits, mem_bits]
  constructor
  · rintro ⟨hi, hmask⟩
    rwa [← hw i hmask]
  · intro hi
    have hmask : v.toRegmask.clearMask.testBit i = true := by
      have hset : bits v.toRegmask.setMask ⊆ fieldBits x.1.offset x.1.width :=
        (h.bits_setMask hx).trans_subset (bits_shiftLeft_subset hx.value_lt)
      rw [Regval.testBit_clearMask hwhole, ← mem_fieldBits, h.field]
      exact hset hi
    exact ⟨(hw i hmask).trans hi, hmask⟩

/-- A field as a template argument: all its bits are set. -/
def Regbits.toRegmaskType (f : Regbits T) : RegmaskType where
  toRegmask := f.toRegmask
  spelling := .regbits 0 f.offset f.width

theorem Regbits.holds_of_single {f : Regbits T} (hwidth : f.width = 1) (v : Nat) :
    f.toRegmask.holds v = v.testBit f.offset := by
  have hmask := f.clearMask_eq_two_pow hwidth
  have hand := Regmask.and_two_pow_ne_zero_iff v f.offset
  have hne : f.toRegmask.clearMask ≠ 0 := f.clearMask_ne_zero
  rw [Regmask.holds, if_neg hne]
  simp only [Regbits.toRegmask_setMask, Regbits.toRegmask_clearMask, hmask, ↓reduceIte]
  exact Bool.eq_iff_iff.mpr (decide_eq_true_iff.trans hand)

theorem Regbits.onField {f : Regbits T} (h : f.maskWidth = f.width) :
    RegmaskType.OnField ⟨f.reg, f.offset, f.width⟩ f.toRegmaskType := by
  refine ⟨rfl, ?_⟩
  change bits f.clearMask = _
  rw [f.bits_clearMask, h]

end Regvals

/-! The reset value that a list stores. -/

section ResetUnion

variable {r : Reg} {ts : List RegmaskType}

theorem resetUnion_lt (h : ∀ t ∈ ts, t.reg = r) : resetUnion r ts < 2 ^ r.width := by
  apply Nat.lt_pow_two_of_testBit
  intro i hi
  rw [testBit_resetUnion_of_not_mem]
  · exact Nat.testBit_lt_two_pow (lt_of_lt_of_le r.resetValue_lt
      (Nat.pow_le_pow_right Nat.two_pos hi))
  · intro t ht
    have hwidth : t.reg.width ≤ i := (congrArg Reg.width (h t ht)).trans_le hi
    exact Nat.testBit_lt_two_pow (lt_of_lt_of_le t.clearMask_lt
      (Nat.pow_le_pow_right Nat.two_pos hwidth))

/-- A field of the list holds its constant. -/
theorem FieldValue.Is.fieldOf_resetUnion {T : Target} {x : FieldValue T} {v : Regval T}
    (h : FieldValue.Is x v) (hx : FieldValue.Fits x) (hcompat : AllCompatible (patches ts))
    (hv : v.toRegmaskType ∈ ts) : fieldOf x.1.offset x.1.width (resetUnion r ts) = x.2 :=
  h.fieldOf_of_testBit hx fun _ hi => testBit_resetUnion hcompat hv hi

/-- A field beside those of the list keeps its reset value. -/
theorem fieldOf_resetUnion_of_apart {offset width : Nat}
    (h : ∀ t ∈ ts, Disjoint t.patch.clear (fieldBits offset width)) :
    fieldOf offset width (resetUnion r ts) = fieldOf offset width r.resetValue := by
  apply fieldOf_congr
  ext i
  rw [Set.mem_inter_iff, Set.mem_inter_iff]
  refine and_congr_left fun hi => ?_
  rw [mem_bits, mem_bits, testBit_resetUnion_of_not_mem]
  intro t ht
  exact Bool.eq_false_iff.mpr fun hmask => Set.disjoint_left.mp (h t ht) hmask hi

end ResetUnion

namespace RegmaskType

/-- The mask of `t` is the field `k`, and it sets the constant `c`. -/
structure Writes (k : FieldKey) (c : Nat) (t : RegmaskType) : Prop extends OnField k t where
  set : t.patch.set = bits (c <<< k.offset)
  lt : c < 2 ^ k.width

variable {k : FieldKey} {c d : Nat} {t u : RegmaskType} {r : Reg} {ts : List RegmaskType}

theorem Writes.compatible_iff (ht : Writes k c t) (hu : Writes k d u) :
    t.patch.Compatible u.patch ↔ c = d := by
  constructor
  · rintro ⟨htu, hut⟩
    apply shiftLeft_right_injective k.offset
    rw [← ht.set, ← hu.set]
    apply Set.Subset.antisymm
    · intro i hi
      exact htu ⟨hi, hu.clear.symm ▸ ht.clear ▸ t.patch.set_le hi⟩
    · intro i hi
      exact hut ⟨hi, ht.clear.symm ▸ hu.clear ▸ u.patch.set_le hi⟩
  · rintro rfl
    have hsame : t.patch = u.patch :=
      Patch.ext (ht.set.trans hu.set.symm) (ht.clear.trans hu.clear.symm)
    rw [hsame]
    exact compatible_self u.patch

/-- The field of a mask holds the constant after the reset. -/
theorem Writes.fieldOf_resetUnion (h : Writes k c t) (hcompat : AllCompatible (patches ts))
    (ht : t ∈ ts) : fieldOf k.offset k.width (resetUnion r ts) = c := by
  rw [fieldOf_eq_iff, ← h.set, ← h.clear]
  ext i
  constructor
  · rintro ⟨hi, hclear⟩
    exact (testBit_resetUnion hcompat ht hclear).symm.trans hi
  · intro hi
    have hclear : i ∈ t.patch.clear := t.patch.set_le hi
    exact ⟨(testBit_resetUnion hcompat ht hclear).trans hi, hclear⟩

theorem Writes.of_is {T : Target} {x : FieldValue T} {v : Regval T} (h : FieldValue.Is x v)
    (hx : FieldValue.Fits x) : Writes (FieldValue.key x) x.2 v.toRegmaskType where
  toOnField := h.onField hx
  set := h.bits_setMask hx
  lt := hx.value_lt

theorem Writes.of_single {T : Target} {f : Regbits T} (hwidth : f.width = 1) :
    Writes ⟨f.reg, f.offset, 1⟩ 1 f.toRegmaskType := by
  have hmask : f.maskWidth = f.width := by
    have hpos := f.maskWidth_pos
    have hle := f.maskWidth_le
    omega
  have hfield := f.onField hmask
  rw [hwidth] at hfield
  refine ⟨hfield, ?_, Nat.one_lt_two_pow Nat.one_ne_zero⟩
  have hclear : f.toRegmaskType.setMask = 2 ^ f.offset := f.clearMask_eq_two_pow hwidth
  change bits f.toRegmaskType.setMask = bits (1 <<< f.offset)
  rw [hclear, Nat.one_shiftLeft]

end RegmaskType

end OpenMptl
