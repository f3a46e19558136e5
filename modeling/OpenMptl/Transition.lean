/-
Reachable states of a transition system, with the two rules the developments
use: an inductive invariant holds in every reachable state, and a simulation
carries runs of one system to runs of another.
-/
import Mathlib.Logic.Relation

namespace OpenMptl

universe u v

variable {σ : Type u} {τ : Type v}

/-- A run from an initial state ends in the state. -/
def Reachable (init : σ → Prop) (step : σ → σ → Prop) (s : σ) : Prop :=
  ∃ s₀, init s₀ ∧ Relation.ReflTransGen step s₀ s

namespace Reachable

variable {init : σ → Prop} {step : σ → σ → Prop}

theorem start {s : σ} (h : init s) : Reachable init step s := ⟨s, h, .refl⟩

theorem next {s t : σ} (h : Reachable init step s) (hstep : step s t) :
    Reachable init step t := by
  obtain ⟨s₀, hinit, hrun⟩ := h
  exact ⟨s₀, hinit, hrun.tail hstep⟩

theorem run {s t : σ} (h : Reachable init step s) (hrun : Relation.ReflTransGen step s t) :
    Reachable init step t := by
  obtain ⟨s₀, hinit, hprefix⟩ := h
  exact ⟨s₀, hinit, hprefix.trans hrun⟩

/-- What holds initially and is kept by every step holds in every reachable
state. -/
theorem invariant {inv : σ → Prop} (hinit : ∀ s, init s → inv s)
    (hstep : ∀ s t, inv s → step s t → inv t) {s : σ} (h : Reachable init step s) :
    inv s := by
  obtain ⟨s₀, hs₀, hrun⟩ := h
  induction hrun with
  | refl => exact hinit s₀ hs₀
  | tail _ hlast ih => exact hstep _ _ ih hlast

/-- A projection that maps each step to a run maps reachable states to reachable
states; the steps may be examined under an invariant of the source system. -/
theorem simulation {init' : τ → Prop} {step' : τ → τ → Prop} (f : σ → τ)
    {inv : σ → Prop} (hinv : ∀ s, Reachable init step s → inv s)
    (hinit : ∀ s, init s → init' (f s))
    (hstep : ∀ s t, inv s → step s t → Relation.ReflTransGen step' (f s) (f t)) {s : σ}
    (h : Reachable init step s) : Reachable init' step' (f s) := by
  obtain ⟨s₀, hs₀, hrun⟩ := h
  induction hrun with
  | refl => exact start (hinit s₀ hs₀)
  | @tail s t hprefix hlast ih =>
      exact ih.run (hstep s t (hinv s ⟨s₀, hs₀, hprefix⟩) hlast)

end Reachable

end OpenMptl
