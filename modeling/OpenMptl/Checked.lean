/-
Computations that a check can reject.  A sequence of checks succeeds exactly
when every step does, and a list of checks when every element passes.
-/
import Mathlib.Data.List.Forall2

namespace OpenMptl

universe u v w

variable {ε : Type u} {α β : Type v} {γ : Type}

/-- A sequence succeeds through an intermediate result. -/
theorem bind_eq_ok_iff {x : Except ε α} {f : α → Except ε β} {b : β} :
    x >>= f = .ok b ↔ ∃ a, x = .ok a ∧ f a = .ok b := by
  cases x with
  | error e => simp [bind, Except.bind]
  | ok a => simp [bind, Except.bind]

@[simp] theorem ok_bind (a : α) (f : α → Except ε β) : (Except.ok a >>= f) = f a := rfl

@[simp] theorem error_bind (e : ε) (f : α → Except ε β) :
    (Except.error e >>= f) = .error e := rfl

/-- A check that yields nothing only has to pass. -/
theorem check_bind_eq_ok_iff {x : Except ε Unit} {f : Unit → Except ε γ} {c : γ} :
    x >>= f = .ok c ↔ x = .ok () ∧ f () = .ok c := by
  cases x with
  | error e => simp [bind, Except.bind]
  | ok a => simp [bind, Except.bind]

@[simp] theorem pure_eq_ok_iff {a b : α} :
    (pure a : Except ε α) = .ok b ↔ a = b := by
  simp [pure, Except.pure]

/-- Checking a list yields the results in the order of the arguments. -/
theorem mapM_eq_ok_iff {f : α → Except ε β} {xs : List α} {ys : List β} :
    xs.mapM f = .ok ys ↔ List.Forall₂ (fun x y => f x = .ok y) xs ys := by
  induction xs generalizing ys with
  | nil => cases ys <;> simp [pure, Except.pure]
  | cons x xs ih =>
      simp only [List.mapM_cons, bind_eq_ok_iff, pure_eq_ok_iff]
      constructor
      · rintro ⟨y, hy, zs, hzs, rfl⟩
        exact .cons hy (ih.mp hzs)
      · intro h
        cases h with
        | cons hy hzs => exact ⟨_, hy, _, ih.mpr hzs, rfl⟩

theorem exists_of_mem_forall₂ {R : α → β → Prop} {xs : List α} {ys : List β}
    (h : List.Forall₂ R xs ys) {x : α} (hx : x ∈ xs) : ∃ y ∈ ys, R x y := by
  induction h with
  | nil => cases hx
  | @cons z y xs ys hzy _ ih =>
      rcases List.mem_cons.mp hx with rfl | hx
      · exact ⟨y, List.mem_cons_self, hzy⟩
      · obtain ⟨w, hw, hxw⟩ := ih hx
        exact ⟨w, List.mem_cons_of_mem y hw, hxw⟩

/-- A list of checks succeeds as soon as each element does. -/
theorem mapM_isOk {f : α → Except ε β} {xs : List α}
    (h : ∀ x ∈ xs, ∃ y, f x = .ok y) : ∃ ys, xs.mapM f = .ok ys := by
  induction xs with
  | nil => exact ⟨[], rfl⟩
  | cons x xs ih =>
      obtain ⟨y, hy⟩ := h x List.mem_cons_self
      obtain ⟨ys, hys⟩ := ih fun z hz => h z (List.mem_cons_of_mem x hz)
      refine ⟨y :: ys, ?_⟩
      simp only [List.mapM_cons, bind_eq_ok_iff, pure_eq_ok_iff]
      exact ⟨y, hy, ys, hys, rfl⟩

end OpenMptl
