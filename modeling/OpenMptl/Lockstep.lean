/-
Two machines that are driven by the same operations.  When each step keeps the
relation of their states exactly for the good operations, a run keeps it throughout
exactly when every operation of the run was good at its turn.
-/
import Mathlib.Data.List.Induction

namespace OpenMptl

namespace Lockstep

universe u v w

variable {σ : Type u} {τ : Type v} {ο : Type w} (f : σ → ο → σ) (g : τ → ο → τ)
  (rel : σ → τ → Prop) (good : σ → ο → Prop)

/-- The states are related after each part of the run. -/
def RelatedAlong (s : σ) (t : τ) (ops : List ο) : Prop :=
  ∀ done, done <+: ops → rel (done.foldl f s) (done.foldl g t)

/-- Each operation of the run is good in the state it is executed in. -/
def GoodAlong (s : σ) (ops : List ο) : Prop :=
  ∀ done op, done ++ [op] <+: ops → good (done.foldl f s) op

variable {f g rel good} {s : σ} {t : τ} {op : ο} {ops : List ο}

theorem relatedAlong_nil : RelatedAlong f g rel s t [] ↔ rel s t := by
  simp [RelatedAlong]

theorem relatedAlong_cons :
    RelatedAlong f g rel s t (op :: ops) ↔
      rel s t ∧ RelatedAlong f g rel (f s op) (g t op) ops := by
  constructor
  · intro h
    exact ⟨h [] List.nil_prefix,
      fun done hdone => h (op :: done) ((List.prefix_cons_inj op).mpr hdone)⟩
  · rintro ⟨hstart, hrest⟩ done hdone
    rcases List.prefix_cons_iff.mp hdone with rfl | ⟨rest, rfl, hprefix⟩
    · exact hstart
    · exact hrest rest hprefix

theorem goodAlong_nil : GoodAlong f good s [] := by
  intro done op hdone
  simp at hdone

theorem goodAlong_cons :
    GoodAlong f good s (op :: ops) ↔ good s op ∧ GoodAlong f good (f s op) ops := by
  constructor
  · intro h
    exact ⟨h [] op (List.prefix_append [op] ops),
      fun done next hdone => h (op :: done) next ((List.prefix_cons_inj op).mpr hdone)⟩
  · rintro ⟨hstart, hrest⟩ done next hdone
    cases done with
    | nil =>
        obtain rfl := (List.cons_prefix_cons.mp hdone).1
        exact hstart
    | cons first done =>
        obtain ⟨rfl, hprefix⟩ := List.cons_prefix_cons.mp hdone
        exact hrest done next hprefix

instance GoodAlong.decide [∀ s op, Decidable (good s op)] :
    (s : σ) → (ops : List ο) → Decidable (GoodAlong f good s ops)
  | _, [] => isTrue goodAlong_nil
  | s, op :: ops =>
      have := GoodAlong.decide (f s op) ops
      decidable_of_iff _ goodAlong_cons.symm

/-- An invariant that the good operations keep holds throughout a good run. -/
theorem GoodAlong.invariant {inv : σ → Prop}
    (hstep : ∀ s op, inv s → good s op → inv (f s op)) (h : inv s)
    (hgood : GoodAlong f good s ops) {done : List ο} (hdone : done <+: ops) :
    inv (done.foldl f s) := by
  induction done using List.reverseRecOn with
  | nil => exact h
  | append_singleton done op ih =>
      rw [List.foldl_append]
      exact hstep _ op (ih ((List.prefix_append done [op]).trans hdone)) (hgood done op hdone)

/-- Runs keep the relation exactly when all their operations are good. -/
theorem relatedAlong_iff_goodAlong
    (hstep : ∀ s t op, rel s t → (rel (f s op) (g t op) ↔ good s op)) (h : rel s t) :
    RelatedAlong f g rel s t ops ↔ GoodAlong f good s ops := by
  induction ops generalizing s t with
  | nil => exact iff_of_true (relatedAlong_nil.mpr h) goodAlong_nil
  | cons op ops ih =>
      rw [relatedAlong_cons, goodAlong_cons, and_iff_right h, ← hstep s t op h]
      constructor
      · intro hrest
        have hnext := hrest [] List.nil_prefix
        exact ⟨hnext, (ih hnext).mp hrest⟩
      · rintro ⟨hnext, hgood⟩
        exact (ih hnext).mpr hgood

end Lockstep

end OpenMptl
