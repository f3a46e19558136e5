/-
Computations that may wait forever.  A triple says what holds where the computation
returns, and what holds in a state in which it waits and never goes on; its rules
follow the program text.
-/
import Mathlib.Data.List.Basic

namespace OpenMptl

universe u v w

/-- A computation on a state: its result, if it ever returns, and the last state. -/
def Waiting (σ : Type u) (α : Type v) : Type (max u v) := σ → Option α × σ

namespace Waiting

variable {σ : Type u} {α : Type v} {β : Type v}

instance : Monad (Waiting σ) where
  pure a s := (some a, s)
  bind prog f s :=
    match prog s with
    | (some a, t) => f a t
    | (none, t) => (none, t)

def modify (f : σ → σ) : Waiting σ PUnit := fun s => (some ⟨⟩, f s)

/-- `waits` holds of every state in which the computation hangs. -/
def Triple (pre : σ → Prop) (prog : Waiting σ α) (post : α → σ → Prop)
    (waits : σ → Prop) : Prop :=
  ∀ s, pre s →
    match prog s with
    | (some a, t) => post a t
    | (none, t) => waits t

namespace Triple

variable {pre pre' : σ → Prop} {prog : Waiting σ α} {post post' : α → σ → Prop}
  {waits waits' : σ → Prop}

theorem of_eq (h : ∀ s, pre s → ∃ a t, prog s = (some a, t) ∧ post a t) :
    Triple pre prog post waits := by
  intro s hs
  obtain ⟨a, t, hprog, hpost⟩ := h s hs
  rw [hprog]
  exact hpost

theorem pure {a : α} (h : ∀ s, pre s → post a s) :
    Triple pre (Pure.pure a : Waiting σ α) post waits :=
  of_eq fun s hs => ⟨a, s, rfl, h s hs⟩

theorem modify {f : σ → σ} {post : PUnit → σ → Prop} (h : ∀ s, pre s → post ⟨⟩ (f s)) :
    Triple pre (Waiting.modify f) post waits :=
  of_eq fun s hs => ⟨⟨⟩, f s, rfl, h s hs⟩

/-- The rule of consequence. -/
theorem mono (h : Triple pre prog post waits) (hpre : ∀ s, pre' s → pre s)
    (hpost : ∀ a s, post a s → post' a s) (hwaits : ∀ s, waits s → waits' s) :
    Triple pre' prog post' waits' := by
  intro s hs
  have hprog := h s (hpre s hs)
  split at hprog
  · exact hpost _ _ hprog
  · exact hwaits _ hprog

/-- One computation after the other. -/
theorem bind {f : α → Waiting σ β} {last : β → σ → Prop} (h : Triple pre prog post waits)
    (hf : ∀ a, Triple (post a) (f a) last waits) : Triple pre (prog >>= f) last waits := by
  intro s hs
  have hprog := h s hs
  change match (match prog s with
    | (some a, t) => f a t
    | (none, t) => (none, t)) with
    | (some b, t) => last b t
    | (none, t) => waits t
  split at hprog
  · exact hf _ _ hprog
  · exact hprog

/-- What holds of the last state, whether the computation returns or hangs. -/
theorem last {inv : σ → Prop} (h : Triple pre prog (fun _ => inv) inv) {s : σ} (hs : pre s) :
    inv (prog s).2 := by
  have hprog := h s hs
  split at hprog
  · next heq => exact heq ▸ hprog
  · next heq => exact heq ▸ hprog

/-- A loop, by what holds after each part of the list. -/
theorem forM_prefix {γ : Type w} {f : γ → Waiting σ PUnit} (inv : List γ → σ → Prop)
    {xs : List γ} (h : ∀ done x rest, done ++ x :: rest = xs →
      Triple (inv done) (f x) (fun _ => inv (done ++ [x])) waits) :
    Triple (inv []) (xs.forM f) (fun _ => inv xs) waits := by
  have hrest : ∀ rest done, done ++ rest = xs →
      Triple (inv done) (rest.forM f) (fun _ => inv xs) waits := by
    intro rest
    induction rest with
    | nil =>
        intro done hdone
        rw [List.append_nil] at hdone
        exact hdone ▸ pure fun _ hs => hs
    | cons x rest ih =>
        intro done hdone
        exact bind (h done x rest hdone) fun _ =>
          ih (done ++ [x]) (by rw [← hdone, List.append_assoc, List.singleton_append])
  exact hrest xs [] rfl

/-- A loop keeps what its body keeps. -/
theorem forM {γ : Type w} {f : γ → Waiting σ PUnit} {inv : σ → Prop} {xs : List γ}
    (h : ∀ x ∈ xs, Triple inv (f x) (fun _ => inv) waits) :
    Triple inv (xs.forM f) (fun _ => inv) waits := by
  refine forM_prefix (fun _ => inv) fun _ x _ hxs => ?_
  exact h x (hxs ▸ List.mem_append_right _ List.mem_cons_self)

/-- A loop with an accumulator. -/
theorem foldlM_prefix {γ : Type w} {f : α → γ → Waiting σ α} (inv : List γ → σ → Prop)
    {xs : List γ} (h : ∀ a done x rest, done ++ x :: rest = xs →
      Triple (inv done) (f a x) (fun _ => inv (done ++ [x])) waits) (a : α) :
    Triple (inv []) (xs.foldlM f a) (fun _ => inv xs) waits := by
  have hrest : ∀ rest done a, done ++ rest = xs →
      Triple (inv done) (rest.foldlM f a) (fun _ => inv xs) waits := by
    intro rest
    induction rest with
    | nil =>
        intro done a hdone
        rw [List.append_nil] at hdone
        exact hdone ▸ pure fun _ hs => hs
    | cons x rest ih =>
        intro done a hdone
        exact bind (h a done x rest hdone) fun b =>
          ih (done ++ [x]) b (by rw [← hdone, List.append_assoc, List.singleton_append])
  exact hrest xs [] a rfl

theorem foldlM {γ : Type w} {f : α → γ → Waiting σ α} {inv : σ → Prop} {xs : List γ}
    (h : ∀ a, ∀ x ∈ xs, Triple inv (f a x) (fun _ => inv) waits) (a : α) :
    Triple inv (xs.foldlM f a) (fun _ => inv) waits := by
  refine foldlM_prefix (fun _ => inv) (fun a _ x _ hxs => ?_) a
  exact h a x (hxs ▸ List.mem_append_right _ List.mem_cons_self)

end Triple

end Waiting

end OpenMptl
