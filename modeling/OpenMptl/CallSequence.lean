/-
Objects that answer calls.  A step takes the state and a call to an answer and
the next state; two objects whose steps answer alike cannot be told apart by any
sequence of calls.
-/
import Mathlib.Data.List.Basic

namespace OpenMptl

universe u v w x y

variable {σ : Type u} {τ : Type v} {ι : Type w} {κ : Type x} {ω : Type y}

/-- The answers to a sequence of calls, and the state after the last one. -/
def callAll (step : σ → ι → ω × σ) : σ → List ι → List ω × σ
  | s, [] => ([], s)
  | s, c :: cs =>
      let (answer, t) := step s c
      let (answers, u) := callAll step t cs
      (answer :: answers, u)

variable {step : σ → ι → ω × σ}

@[simp] theorem callAll_nil (s : σ) : callAll step s [] = ([], s) := rfl

@[simp] theorem callAll_cons (s : σ) (c : ι) (cs : List ι) :
    callAll step s (c :: cs) =
      ((step s c).1 :: (callAll step (step s c).2 cs).1,
        (callAll step (step s c).2 cs).2) := rfl

/-- Related objects that answer each call alike answer every sequence alike. -/
theorem callAll_simulation {step' : τ → κ → ω × τ} (f : ι → κ) (R : σ → τ → Prop)
    (hstep : ∀ s t c, R s t → (step s c).1 = (step' t (f c)).1 ∧
      R (step s c).2 (step' t (f c)).2)
    (cs : List ι) {s : σ} {t : τ} (h : R s t) :
    (callAll step s cs).1 = (callAll step' t (cs.map f)).1 ∧
      R (callAll step s cs).2 (callAll step' t (cs.map f)).2 := by
  induction cs generalizing s t with
  | nil => exact ⟨rfl, h⟩
  | cons c cs ih =>
      obtain ⟨hanswer, hnext⟩ := hstep s t c h
      obtain ⟨hanswers, hlast⟩ := ih hnext
      rw [List.map_cons, callAll_cons, callAll_cons, hanswer, hanswers]
      exact ⟨rfl, hlast⟩

end OpenMptl
