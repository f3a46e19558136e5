/-
Masked writes over an arbitrary generalized Boolean algebra.  A patch erases
what lies below `clear` and then adds `set`; compatible patches commute and
fold into one patch, whatever the order and the number of repetitions.
-/
import Mathlib.Order.BooleanAlgebra.Basic
import Mathlib.Data.List.Basic

namespace OpenMptl

universe u

variable {α : Type u} [GeneralizedBooleanAlgebra α]

/-- A masked write whose added part lies inside its erased part. -/
@[ext]
structure Patch (α : Type u) [GeneralizedBooleanAlgebra α] where
  set : α
  clear : α
  set_le : set ≤ clear

namespace Patch

/-- Erase below `clear`, then add `set`. -/
def apply (p : Patch α) (v : α) : α := v \ p.clear ⊔ p.set

/-- Neither patch adds a part that the other one erases and leaves out. -/
def Compatible (p q : Patch α) : Prop :=
  p.set ⊓ q.clear ≤ q.set ∧ q.set ⊓ p.clear ≤ p.set

def neutral : Patch α := ⟨⊥, ⊥, le_rfl⟩

def merge (p q : Patch α) : Patch α :=
  ⟨p.set ⊔ q.set, p.clear ⊔ q.clear, sup_le_sup p.set_le q.set_le⟩

def mergeAll (ps : List (Patch α)) : Patch α := ps.foldr merge neutral

/-- Apply the patches of a list one after the other. -/
def applyAll (ps : List (Patch α)) (v : α) : α :=
  ps.foldl (fun w p => p.apply w) v

/-- No two members of the list conflict.  A patch never conflicts with itself,
so repetitions do not matter. -/
def AllCompatible (ps : List (Patch α)) : Prop :=
  ∀ p ∈ ps, ∀ q ∈ ps, p.Compatible q

theorem Compatible.symm {p q : Patch α} (h : p.Compatible q) : q.Compatible p :=
  ⟨h.2, h.1⟩

theorem compatible_self (p : Patch α) : p.Compatible p :=
  ⟨inf_le_left, inf_le_left⟩

theorem compatible_neutral (p : Patch α) : p.Compatible neutral := by
  constructor <;> simp [neutral]

@[simp] theorem merge_set (p q : Patch α) : (p.merge q).set = p.set ⊔ q.set := rfl

@[simp] theorem merge_clear (p q : Patch α) :
    (p.merge q).clear = p.clear ⊔ q.clear := rfl

@[simp] theorem mergeAll_nil : mergeAll ([] : List (Patch α)) = neutral := rfl

@[simp] theorem mergeAll_cons (p : Patch α) (ps : List (Patch α)) :
    mergeAll (p :: ps) = p.merge (mergeAll ps) := rfl

@[simp] theorem merge_neutral (p : Patch α) : p.merge neutral = p := by
  ext <;> simp [neutral]

theorem mergeAll_append (ps qs : List (Patch α)) :
    mergeAll (ps ++ qs) = (mergeAll ps).merge (mergeAll qs) := by
  induction ps with
  | nil => ext <;> simp [neutral]
  | cons p ps ih => ext <;> simp [ih, sup_assoc]

theorem mergeAll_set_le_iff (ps : List (Patch α)) (a : α) :
    (mergeAll ps).set ≤ a ↔ ∀ p ∈ ps, p.set ≤ a := by
  induction ps with
  | nil => simp [neutral]
  | cons p ps ih => simp [ih]

theorem mergeAll_clear_le_iff (ps : List (Patch α)) (a : α) :
    (mergeAll ps).clear ≤ a ↔ ∀ p ∈ ps, p.clear ≤ a := by
  induction ps with
  | nil => simp [neutral]
  | cons p ps ih => simp [ih]

theorem set_le_mergeAll {ps : List (Patch α)} {p : Patch α} (hp : p ∈ ps) :
    p.set ≤ (mergeAll ps).set :=
  (mergeAll_set_le_iff ps _).mp le_rfl p hp

theorem clear_le_mergeAll {ps : List (Patch α)} {p : Patch α} (hp : p ∈ ps) :
    p.clear ≤ (mergeAll ps).clear :=
  (mergeAll_clear_le_iff ps _).mp le_rfl p hp

/-- The merge of a list depends only on which patches occur in it. -/
theorem mergeAll_eq_of_mem_iff {ps qs : List (Patch α)}
    (h : ∀ p, p ∈ ps ↔ p ∈ qs) : mergeAll ps = mergeAll qs := by
  ext
  · apply le_antisymm
    · exact (mergeAll_set_le_iff ps _).mpr fun p hp => set_le_mergeAll ((h p).mp hp)
    · exact (mergeAll_set_le_iff qs _).mpr fun p hp => set_le_mergeAll ((h p).mpr hp)
  · apply le_antisymm
    · exact (mergeAll_clear_le_iff ps _).mpr fun p hp =>
        clear_le_mergeAll ((h p).mp hp)
    · exact (mergeAll_clear_le_iff qs _).mpr fun p hp =>
        clear_le_mergeAll ((h p).mpr hp)

/-- Erasing a merged part below another patch splits over the members. -/
theorem mergeAll_inf_le_iff (ps : List (Patch α)) (a b : α) :
    (mergeAll ps).set ⊓ a ≤ b ↔ ∀ p ∈ ps, p.set ⊓ a ≤ b := by
  induction ps with
  | nil => simp [neutral]
  | cons p ps ih => simp [inf_sup_right, ih]

theorem inf_mergeAll_le_iff (ps : List (Patch α)) (a b : α) :
    a ⊓ (mergeAll ps).clear ≤ b ↔ ∀ p ∈ ps, a ⊓ p.clear ≤ b := by
  induction ps with
  | nil => simp [neutral]
  | cons p ps ih => simp [inf_sup_left, ih]

theorem allCompatible_nil : AllCompatible ([] : List (Patch α)) := by
  simp [AllCompatible]

theorem AllCompatible.of_subset {ps qs : List (Patch α)} (h : AllCompatible qs)
    (hsub : ∀ p ∈ ps, p ∈ qs) : AllCompatible ps :=
  fun p hp q hq => h p (hsub p hp) q (hsub q hq)

theorem allCompatible_cons_iff (p : Patch α) (ps : List (Patch α)) :
    AllCompatible (p :: ps) ↔ (∀ q ∈ ps, p.Compatible q) ∧ AllCompatible ps := by
  constructor
  · intro h
    exact ⟨fun q hq => h p List.mem_cons_self q (List.mem_cons_of_mem p hq),
      h.of_subset fun q hq => List.mem_cons_of_mem p hq⟩
  · rintro ⟨hhead, htail⟩ q hq r hr
    rcases List.mem_cons.mp hq with rfl | hqTail
    · rcases List.mem_cons.mp hr with rfl | hrTail
      · exact compatible_self r
      · exact hhead r hrTail
    · rcases List.mem_cons.mp hr with rfl | hrTail
      · exact (hhead q hqTail).symm
      · exact htail q hqTail r hrTail

theorem allCompatible_append_iff (ps qs : List (Patch α)) :
    AllCompatible (ps ++ qs) ↔ AllCompatible ps ∧ AllCompatible qs ∧
      ∀ p ∈ ps, ∀ q ∈ qs, p.Compatible q := by
  induction ps with
  | nil => simp [allCompatible_nil]
  | cons p ps ih =>
      simp only [List.cons_append, allCompatible_cons_iff, ih, List.mem_append,
        List.mem_cons, forall_eq_or_imp]
      constructor
      · rintro ⟨hp, hps, hqs, hcross⟩
        exact ⟨⟨fun q hq => hp q (Or.inl hq), hps⟩, hqs,
          fun q hq => hp q (Or.inr hq), hcross⟩
      · rintro ⟨⟨hp, hps⟩, hqs, hpq, hcross⟩
        exact ⟨fun q hq => hq.elim (hp q) (hpq q), hps, hqs, hcross⟩

/-- A conflict with the merge of a conflict-free list is a conflict with one of
its members: no third patch can hide it. -/
theorem compatible_mergeAll_iff {ps : List (Patch α)} (hps : AllCompatible ps)
    (p : Patch α) :
    p.Compatible (mergeAll ps) ↔ ∀ q ∈ ps, p.Compatible q := by
  constructor
  · rintro ⟨hset, hclear⟩ q hq
    refine ⟨?_, (mergeAll_inf_le_iff ps _ _).mp hclear q hq⟩
    -- what `p` sets inside `q.clear` is set by some member, which `q` agrees with
    have hbelow : p.set ⊓ q.clear ≤ (mergeAll ps).set ⊓ q.clear :=
      le_inf ((inf_mergeAll_le_iff ps _ _).mp hset q hq) inf_le_right
    exact hbelow.trans ((mergeAll_inf_le_iff ps _ _).mpr fun r hr => (hps r hr q hq).1)
  · intro h
    exact ⟨(inf_mergeAll_le_iff ps _ _).mpr fun q hq =>
        (h q hq).1.trans (set_le_mergeAll hq),
      (mergeAll_inf_le_iff ps _ _).mpr fun q hq => (h q hq).2⟩

theorem allCompatible_cons_iff_mergeAll (p : Patch α) (ps : List (Patch α)) :
    AllCompatible (p :: ps) ↔ p.Compatible (mergeAll ps) ∧ AllCompatible ps := by
  rw [allCompatible_cons_iff]
  exact and_congr_left fun hps => (compatible_mergeAll_iff hps p).symm

theorem mergeAll_compatible_mergeAll_iff {ps qs : List (Patch α)}
    (hps : AllCompatible ps) (hqs : AllCompatible qs) :
    (mergeAll ps).Compatible (mergeAll qs) ↔
      ∀ p ∈ ps, ∀ q ∈ qs, p.Compatible q := by
  rw [compatible_mergeAll_iff hqs]
  constructor
  · intro h p hp q hq
    exact ((compatible_mergeAll_iff hps q).mp (h q hq).symm p hp).symm
  · intro h q hq
    exact ((compatible_mergeAll_iff hps q).mpr fun p hp => (h p hp q hq).symm).symm

theorem allCompatible_append_iff_mergeAll (ps qs : List (Patch α)) :
    AllCompatible (ps ++ qs) ↔ AllCompatible ps ∧ AllCompatible qs ∧
      (mergeAll ps).Compatible (mergeAll qs) := by
  rw [allCompatible_append_iff]
  refine and_congr_right fun hps => and_congr_right fun hqs => ?_
  exact (mergeAll_compatible_mergeAll_iff hps hqs).symm

/-- One merged patch does the work of two, provided the first adds nothing
that the second one would have erased. -/
theorem merge_apply {p q : Patch α} (h : p.set ⊓ q.clear ≤ q.set) (v : α) :
    (p.merge q).apply v = q.apply (p.apply v) := by
  have hset : p.set \ q.clear ⊔ q.set = p.set ⊔ q.set := by
    apply le_antisymm
    · exact sup_le_sup_right sdiff_le q.set
    · refine sup_le ?_ le_sup_right
      calc p.set = p.set ⊓ q.clear ⊔ p.set \ q.clear := (sup_inf_sdiff _ _).symm
        _ ≤ q.set ⊔ p.set \ q.clear := sup_le_sup_right h _
        _ = p.set \ q.clear ⊔ q.set := sup_comm _ _
  calc (p.merge q).apply v = v \ (p.clear ⊔ q.clear) ⊔ (p.set ⊔ q.set) := rfl
    _ = (v \ p.clear) \ q.clear ⊔ (p.set \ q.clear ⊔ q.set) := by
      rw [sdiff_sdiff_left, hset]
    _ = ((v \ p.clear) \ q.clear ⊔ p.set \ q.clear) ⊔ q.set := (sup_assoc _ _ _).symm
    _ = q.apply (p.apply v) := by rw [← sup_sdiff]; rfl

/-- Applying compatible patches one by one is one application of their merge. -/
theorem applyAll_eq_apply_mergeAll {ps : List (Patch α)} (hps : AllCompatible ps)
    (v : α) : applyAll ps v = (mergeAll ps).apply v := by
  induction ps generalizing v with
  | nil => simp [applyAll, apply, neutral]
  | cons p ps ih =>
      obtain ⟨hp, hrest⟩ := (allCompatible_cons_iff p ps).mp hps
      have hcompat := (compatible_mergeAll_iff hrest p).mpr hp
      rw [mergeAll_cons, merge_apply hcompat.1]
      exact ih hrest (p.apply v)

/-- Order and repetition do not matter for compatible patches. -/
theorem applyAll_eq_of_mem_iff {ps qs : List (Patch α)} (hps : AllCompatible ps)
    (h : ∀ p, p ∈ ps ↔ p ∈ qs) (v : α) : applyAll ps v = applyAll qs v := by
  have hqs : AllCompatible qs := hps.of_subset fun p hp => (h p).mpr hp
  rw [applyAll_eq_apply_mergeAll hps, applyAll_eq_apply_mergeAll hqs,
    mergeAll_eq_of_mem_iff h]

/-- The part of `clear` that `set` restores need not be erased first. -/
theorem apply_eq_cropped (p : Patch α) (v : α) :
    v \ (p.clear \ p.set) ⊔ p.set = p.apply v := by
  apply le_antisymm
  · refine sup_le ?_ le_sup_right
    rw [sdiff_sdiff_right']
    exact sup_le_sup_left inf_le_right _
  · exact sup_le_sup_right (sdiff_le_sdiff_left sdiff_le) _

/-- Erasing the cleared parts one after the other erases their union. -/
theorem foldl_sdiff_clear (ps : List (Patch α)) (v : α) :
    ps.foldl (fun w p => w \ p.clear) v = v \ (mergeAll ps).clear := by
  induction ps generalizing v with
  | nil => simp [neutral]
  | cons p ps ih => rw [List.foldl_cons, ih, mergeAll_cons, merge_clear, sdiff_sdiff_left]

end Patch

end OpenMptl
