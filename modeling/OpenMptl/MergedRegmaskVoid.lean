/-
`mpl::merged_regmask<>` with its five templates, on lists that contain `void`.  Voids
are removed from the first two positions; two of them at the front match both of the
templates that remove one, and neither of these is more specialised.
-/
import Mathlib.Data.List.ReduceOption
import OpenMptl.MergedRegmask
import OpenMptl.PartialSpec

namespace OpenMptl

open PartialSpec

namespace MergedRegmask

/-- The templates, in the order of the source. -/
inductive Specialization
  | empty
  | single
  | leadingVoid
  | secondVoid
  | general
deriving DecidableEq, Repr

def specializations : List Specialization :=
  [.empty, .single, .leadingVoid, .secondVoid, .general]

/-- What stands behind the name of the template; `none` is `void`. -/
def Specialization.pattern : Specialization → ArgPattern (Option RegmaskType)
  | .empty => ⟨[], false⟩
  | .single => ⟨[.param], false⟩
  | .leadingVoid => ⟨[.given none], true⟩
  | .secondVoid => ⟨[.param, .given none], true⟩
  | .general => ⟨[.param], true⟩

inductive TemplateError
  | selection (e : SelectError)
  /-- `void` has no members. -/
  | voidMember
  | merge (e : CompileError)
deriving DecidableEq

/-- `typename T0::regmask_type::template merge<rm>::type` -/
def mergeType : Option RegmaskType → Option RegmaskType → Except TemplateError (Option RegmaskType)
  | some t0, some rm =>
      ((t0.toRegmask.merge rm.toRegmask).map fun merged =>
        some ⟨merged, .regmask 0⟩).mapError .merge
  | _, _ => .error .voidMember

/-- `typename merged_regmask<Tp...>::type` -/
def type (rule : PackRule) (l : List (Option RegmaskType)) :
    Except TemplateError (Option RegmaskType) :=
  match select rule Specialization.pattern specializations l, l with
  | .ok .empty, [] => .ok none
  | .ok .single, [tp] => .ok tp
  | .ok .leadingVoid, none :: tp => type rule tp
  | .ok .secondVoid, t0 :: none :: tp => type rule (t0 :: tp)
  | .ok .general, t0 :: tp => do
      let rest ← type rule tp
      mergeType t0 rest
  | .error e, _ => .error (.selection e)
  -- a template is only selected for a list that its pattern matches
  | _, _ => .error (.selection .noMatch)
termination_by l.length

variable {rule : PackRule}

/-- The order of the templates.  Only the pack rule can compare `<Tp>` and
`<void, Tp...>`. -/
theorem moreSpecialized_iff (i j : Specialization) :
    i.pattern.moreSpecialized rule j.pattern = true ↔
      j = .general ∧ i ∈ [Specialization.single, .leadingVoid, .secondVoid] ∨
        i = .leadingVoid ∧ j = .single ∧ rule = .ignored := by
  cases rule <;> cases i <;> cases j <;> decide

theorem mem_specializations (i : Specialization) : i ∈ specializations := by
  cases i <;> decide

/-! Which template is selected, by the first two arguments. -/

section Select

variable {l : List (Option RegmaskType)}

theorem select_of_moreSpecialized {i : Specialization} (hi : i.pattern.matches l = true)
    (hmore : ∀ j : Specialization, j.pattern.matches l = true → j ≠ i →
      i.pattern.moreSpecialized rule j.pattern = true) :
    select rule Specialization.pattern specializations l = .ok i :=
  select_eq_ok_iff.mpr ⟨mem_specializations i, hi, fun j _ => hmore j⟩

/-- Two templates match, and none is more specialised than both or than the other one. -/
theorem select_ambiguous {i j : Specialization} (hi : i.pattern.matches l = true)
    (hj : j.pattern.matches l = true)
    (hless : ∀ w : Specialization, w ≠ i ∧ w.pattern.moreSpecialized rule i.pattern = false ∨
      w ≠ j ∧ w.pattern.moreSpecialized rule j.pattern = false) :
    select rule Specialization.pattern specializations l = .error .ambiguous := by
  refine select_eq_ambiguous_iff.mpr ⟨⟨i, mem_specializations i, hi⟩, ?_⟩
  rintro w - ⟨-, hmost⟩
  rcases hless w with ⟨hne, hfalse⟩ | ⟨hne, hfalse⟩
  · rw [hmost i (mem_specializations i) hi hne.symm] at hfalse
    cases hfalse
  · rw [hmost j (mem_specializations j) hj hne.symm] at hfalse
    cases hfalse

theorem select_nil : select rule Specialization.pattern specializations [] = .ok .empty := by
  refine select_of_moreSpecialized rfl fun j hmatch hne => ?_
  cases j with
  | empty => exact absurd rfl hne
  | single | leadingVoid | secondVoid | general => exact absurd hmatch Bool.false_ne_true

theorem select_single (t : RegmaskType) :
    select rule Specialization.pattern specializations [some t] = .ok .single := by
  refine select_of_moreSpecialized rfl fun j hmatch hne => ?_
  cases j with
  | single => exact absurd rfl hne
  | general => exact (moreSpecialized_iff _ _).mpr (.inl ⟨rfl, by decide⟩)
  | empty | leadingVoid | secondVoid => exact absurd hmatch Bool.false_ne_true

/-- Where the pack of `<void, Tp...>` is ignored, it is more specialised than `<Tp>`. -/
theorem select_void_ignored :
    select .ignored Specialization.pattern specializations [none] = .ok .leadingVoid := by
  refine select_of_moreSpecialized rfl fun j hmatch hne => ?_
  cases j with
  | leadingVoid => exact absurd rfl hne
  | single => exact (moreSpecialized_iff _ _).mpr (.inr ⟨rfl, rfl, rfl⟩)
  | general => exact (moreSpecialized_iff _ _).mpr (.inl ⟨rfl, by decide⟩)
  | empty | secondVoid => exact absurd hmatch Bool.false_ne_true

theorem select_void_mismatch :
    select .mismatch Specialization.pattern specializations [none] = .error .ambiguous := by
  refine select_ambiguous (i := .single) (j := .leadingVoid) rfl rfl fun w => ?_
  cases w <;> decide

theorem select_leadingVoid (t : RegmaskType) :
    select rule Specialization.pattern specializations (none :: some t :: l) =
      .ok .leadingVoid := by
  refine select_of_moreSpecialized rfl fun j hmatch hne => ?_
  cases j with
  | leadingVoid => exact absurd rfl hne
  | general => exact (moreSpecialized_iff _ _).mpr (.inl ⟨rfl, by decide⟩)
  | empty | single | secondVoid => exact absurd hmatch Bool.false_ne_true

theorem select_void_void :
    select rule Specialization.pattern specializations (none :: none :: l) =
      .error .ambiguous := by
  have hless : ∀ w : Specialization,
      w ≠ .leadingVoid ∧
          w.pattern.moreSpecialized rule Specialization.leadingVoid.pattern = false ∨
        w ≠ .secondVoid ∧
          w.pattern.moreSpecialized rule Specialization.secondVoid.pattern = false := by
    intro w
    cases rule <;> cases w <;> decide
  exact select_ambiguous rfl rfl hless

theorem select_secondVoid (t : RegmaskType) :
    select rule Specialization.pattern specializations (some t :: none :: l) =
      .ok .secondVoid := by
  refine select_of_moreSpecialized rfl fun j hmatch hne => ?_
  cases j with
  | secondVoid => exact absurd rfl hne
  | general => exact (moreSpecialized_iff _ _).mpr (.inl ⟨rfl, by decide⟩)
  | empty | single | leadingVoid => exact absurd hmatch Bool.false_ne_true

theorem select_general (t u : RegmaskType) :
    select rule Specialization.pattern specializations (some t :: some u :: l) =
      .ok .general := by
  refine select_of_moreSpecialized rfl fun j hmatch hne => ?_
  cases j with
  | general => exact absurd rfl hne
  | empty | single | leadingVoid | secondVoid => exact absurd hmatch Bool.false_ne_true

end Select

/-! What it resolves to. -/

theorem type_nil : type rule [] = .ok none := by
  rw [type.eq_def, select_nil]

theorem type_single (t : RegmaskType) : type rule [some t] = .ok (some t) := by
  rw [type.eq_def, select_single]

theorem type_leadingVoid (t : RegmaskType) (l : List (Option RegmaskType)) :
    type rule (none :: some t :: l) = type rule (some t :: l) := by
  rw [type.eq_def, select_leadingVoid]

theorem type_void_void (l : List (Option RegmaskType)) :
    type rule (none :: none :: l) = .error (.selection .ambiguous) := by
  rw [type.eq_def, select_void_void]

theorem type_secondVoid (t : RegmaskType) (l : List (Option RegmaskType)) :
    type rule (some t :: none :: l) = type rule (some t :: l) := by
  rw [type.eq_def, select_secondVoid]

theorem type_general (t u : RegmaskType) (l : List (Option RegmaskType)) :
    type rule (some t :: some u :: l) = (do
      let rest ← type rule (some u :: l)
      mergeType (some t) rest) := by
  rw [type.eq_def, select_general]

theorem type_void_ignored : type .ignored [none] = .ok none := by
  rw [type.eq_def, select_void_ignored]
  exact type_nil

theorem type_void_mismatch : type .mismatch [none] = .error (.selection .ambiguous) := by
  rw [type.eq_def, select_void_mismatch]

theorem mergedRegmask_cons_of_ok {t u rest : RegmaskType} {us : List RegmaskType}
    (h : mergedRegmask u us = .ok rest) :
    mergedRegmask t (u :: us) =
      (t.toRegmask.merge rest.toRegmask).map fun merged => ⟨merged, .regmask 0⟩ := by
  rw [mergedRegmask, h]
  change (t.toRegmask.merge rest.toRegmask >>= _) = _
  cases t.toRegmask.merge rest.toRegmask with
  | error e => rfl
  | ok merged => rfl

/-- From the first regmask on every void is removed, and what is left is merged. -/
theorem type_some (t : RegmaskType) (l : List (Option RegmaskType)) :
    type rule (some t :: l) =
      ((mergedRegmask t l.reduceOption).map some).mapError TemplateError.merge := by
  induction l generalizing t with
  | nil => exact type_single t
  | cons u l ih =>
      cases u with
      | none => rw [type_secondVoid, List.reduceOption_cons_of_none, ih]
      | some u =>
          rw [type_general, List.reduceOption_cons_of_some, ih]
          cases hrest : mergedRegmask u l.reduceOption with
          | error e =>
              rw [mergedRegmask, hrest]
              rfl
          | ok rest =>
              rw [mergedRegmask_cons_of_ok hrest]
              change mergeType (some t) (some rest) = _
              rw [mergeType]
              cases t.toRegmask.merge rest.toRegmask with
              | error e => rfl
              | ok merged => rfl

/-- The merge of a list of regmasks: `void` if there is none, a single one itself, and
the union of the masks otherwise. -/
def IsMergeOf : List RegmaskType → Option RegmaskType → Prop
  | [], v => v = none
  | [t], v => v = some t
  | t :: u :: us, v => ∃ m, v = some m ∧ m.reg = t.reg ∧
      m.setMask = unionMask Regmask.setMask (t :: u :: us) ∧
      m.clearMask = unionMask Regmask.clearMask (t :: u :: us)

theorem isMergeOf_mergedRegmask {t m : RegmaskType} {ts : List RegmaskType}
    (h : mergedRegmask t ts = .ok m) : IsMergeOf (t :: ts) (some m) := by
  cases ts with
  | nil =>
      cases h
      rfl
  | cons u us =>
      obtain ⟨hreg, -, -, hpatch⟩ := mergedRegmask_eq_ok h
      exact ⟨m, rfl, hreg, masks_eq_union_of_patch hpatch⟩

theorem type_some_isMergeOf {r : Reg} {t : RegmaskType} {l : List (Option RegmaskType)}
    (hreg : ∀ u ∈ t :: l.reduceOption, u.reg = r) (hfree : ConflictFree (t :: l.reduceOption)) :
    ∃ v, type rule (some t :: l) = .ok v ∧ IsMergeOf (t :: l.reduceOption) v := by
  have ht : t.reg = r := hreg t List.mem_cons_self
  have hsame : ∀ u ∈ l.reduceOption, u.reg = t.reg :=
    fun u hu => (hreg u (List.mem_cons_of_mem t hu)).trans ht.symm
  obtain ⟨m, hm⟩ := (mergedRegmask_isOk_iff hsame).mpr hfree
  refine ⟨some m, ?_, isMergeOf_mergedRegmask hm⟩
  rw [type_some, hm]
  rfl

end MergedRegmask

/-- On conflict-free regmasks of one register, voids are ignored wherever and however
often they occur, except for two at the front of the list; whether `void` alone is one
of the exceptions depends on the pack rule. -/
theorem mergedRegmask_ignores_void_iff (rule : PackRule) (r : Reg)
    (l : List (Option RegmaskType)) (hreg : ∀ t ∈ l.reduceOption, t.reg = r)
    (hfree : ConflictFree l.reduceOption) :
    (∃ v, MergedRegmask.type rule l = .ok v ∧ MergedRegmask.IsMergeOf l.reduceOption v) ↔
      ¬ [none, none] <+: l ∧ ¬ (rule = .mismatch ∧ l = [none]) := by
  cases l with
  | nil => exact iff_of_true ⟨none, MergedRegmask.type_nil, rfl⟩ (by simp)
  | cons x l =>
      cases x with
      | some t =>
          rw [List.reduceOption_cons_of_some] at hreg hfree ⊢
          exact iff_of_true (MergedRegmask.type_some_isMergeOf hreg hfree) (by simp)
      | none =>
          rw [List.reduceOption_cons_of_none] at hreg hfree ⊢
          cases l with
          | nil =>
              cases rule with
              | ignored =>
                  exact iff_of_true ⟨none, MergedRegmask.type_void_ignored, rfl⟩ (by simp)
              | mismatch => simp [MergedRegmask.type_void_mismatch]
          | cons y l =>
              cases y with
              | none => simp [MergedRegmask.type_void_void]
              | some t =>
                  rw [List.reduceOption_cons_of_some] at hreg hfree ⊢
                  rw [MergedRegmask.type_leadingVoid]
                  exact iff_of_true (MergedRegmask.type_some_isMergeOf hreg hfree) (by simp)

namespace MergedRegmaskTest

open TypelistTest (testA0 testA1)

/-- Voids at the front, in the middle and at the end, as far apart as they are. -/
theorem mergedRegmask_ignores_void_iff_testA :
    ∃ v, MergedRegmask.type .mismatch [none, some testA0, none, none, some testA1, none] =
        .ok v ∧
      MergedRegmask.IsMergeOf [testA0, testA1] v := by
  have hreg : ∀ t ∈ [testA0, testA1], t.reg = testA0.reg := by decide
  have hfree : ConflictFree [testA0, testA1] :=
    (mergedRegmask_isOk_iff (by decide)).mp ⟨_, rfl⟩
  exact (mergedRegmask_ignores_void_iff .mismatch testA0.reg
    [none, some testA0, none, none, some testA1, none] hreg hfree).mpr (by decide)

/-- Two voids before a regmask are ambiguous under both rules. -/
theorem mergedRegmask_void_void_ambiguous :
    ConflictFree [testA0] ∧
      MergedRegmask.type .ignored [none, none, some testA0] =
        .error (.selection .ambiguous) ∧
      MergedRegmask.type .mismatch [none, none, some testA0] =
        .error (.selection .ambiguous) := by
  have hfree : ConflictFree [testA0] := (mergedRegmask_isOk_iff (by decide)).mp ⟨_, rfl⟩
  exact ⟨hfree, MergedRegmask.type_void_void _, MergedRegmask.type_void_void _⟩

end MergedRegmaskTest

end OpenMptl
