/-
Selection among partial specialisations.  A pattern of an argument list has given
arguments and parameters, and possibly a trailing pack; among the patterns that match
a list, the one that is more specialised than all the others is selected.
-/
import Mathlib.Data.List.Basic

namespace OpenMptl

namespace PartialSpec

universe u v

/-- An argument of a pattern: a given one, or a parameter that occurs nowhere else. -/
inductive PatternArg (α : Type u)
  | given (a : α)
  | param
deriving DecidableEq

structure ArgPattern (α : Type u) where
  args : List (PatternArg α)
  /-- "..." after the arguments -/
  pack : Bool
deriving DecidableEq

/-- What happens in the comparison of two patterns to a trailing pack that has no
counterpart in the pattern whose parameters are deduced. -/
inductive PackRule
  | ignored
  | mismatch
deriving DecidableEq

inductive SelectError
  | ambiguous
  | noMatch
deriving DecidableEq, Repr

variable {α : Type u} [DecidableEq α]

def PatternArg.admits : PatternArg α → α → Bool
  | .given a, b => a == b
  | .param, _ => true

/-- A parameter of the other pattern stands for a type that is equal to no other. -/
def PatternArg.deducesFrom : PatternArg α → PatternArg α → Bool
  | .given a, .given b => a == b
  | .given _, .param => false
  | .param, _ => true

def matchesArgs (pack : Bool) : List (PatternArg α) → List α → Bool
  | [], l => pack || l.isEmpty
  | _ :: _, [] => false
  | p :: ps, a :: l => p.admits a && matchesArgs pack ps l

/-- A list of arguments that the pattern stands for. -/
def ArgPattern.matches (p : ArgPattern α) (l : List α) : Bool := matchesArgs p.pack p.args l

/-- No argument but a pack can be deduced from a pack. -/
def deducesArgs (rule : PackRule) (pack pack' : Bool) :
    List (PatternArg α) → List (PatternArg α) → Bool
  | [], [] => pack || !pack' || rule == .ignored
  | [], _ :: _ => pack
  | _ :: _, [] => false
  | p :: ps, q :: qs => p.deducesFrom q && deducesArgs rule pack pack' ps qs

/-- `q` is at least as specialised as `p`: the parameters of `p` can be deduced. -/
def ArgPattern.deducesFrom (rule : PackRule) (p q : ArgPattern α) : Bool :=
  deducesArgs rule p.pack q.pack p.args q.args

/-- A tie is decided against the trailing pack. -/
def ArgPattern.moreSpecialized (rule : PackRule) (p q : ArgPattern α) : Bool :=
  q.deducesFrom rule p && (!p.deducesFrom rule q || (q.pack && !p.pack))

theorem ArgPattern.moreSpecialized_asymm {rule : PackRule} {p q : ArgPattern α}
    (h : p.moreSpecialized rule q = true) : q.moreSpecialized rule p = false := by
  simp only [moreSpecialized, Bool.and_eq_true, Bool.or_eq_true, Bool.not_eq_true'] at h
  rcases h with ⟨hfrom, hno | ⟨hpack, hpack'⟩⟩
  · simp [moreSpecialized, hno]
  · simp [moreSpecialized, hfrom, hpack, hpack']

section Select

variable {ι : Type v} [DecidableEq ι] (rule : PackRule) (pattern : ι → ArgPattern α)
  (specs : List ι) (l : List α)

/-- The specialisation matches and is more specialised than every other one that does. -/
def IsMostSpecialized (i : ι) : Prop :=
  (pattern i).matches l = true ∧ ∀ j ∈ specs, (pattern j).matches l = true → j ≠ i →
    (pattern i).moreSpecialized rule (pattern j) = true

instance (i : ι) : Decidable (IsMostSpecialized rule pattern specs l i) :=
  inferInstanceAs (Decidable (_ ∧ _))

def select : Except SelectError ι :=
  match specs.find? fun i => decide (IsMostSpecialized rule pattern specs l i) with
  | some i => .ok i
  | none =>
      if ∃ i ∈ specs, (pattern i).matches l = true then .error .ambiguous else .error .noMatch

variable {rule pattern specs l}

/-- There is only one, so the order of the specialisations has no influence. -/
theorem IsMostSpecialized.unique {i j : ι} (hi : i ∈ specs) (hj : j ∈ specs)
    (hmost : IsMostSpecialized rule pattern specs l i)
    (hmost' : IsMostSpecialized rule pattern specs l j) : i = j := by
  by_contra hne
  have hless := hmost.2 j hj hmost'.1 (Ne.symm hne)
  have hgreater := hmost'.2 i hi hmost.1 hne
  rw [ArgPattern.moreSpecialized_asymm hless] at hgreater
  cases hgreater

/-- Either there is such a specialisation, or the selection fails. -/
theorem select_cases :
    (∃ i ∈ specs, IsMostSpecialized rule pattern specs l i ∧
      select rule pattern specs l = .ok i) ∨
    (∀ i ∈ specs, ¬ IsMostSpecialized rule pattern specs l i) ∧
      select rule pattern specs l =
        if ∃ i ∈ specs, (pattern i).matches l = true then .error .ambiguous
        else .error .noMatch := by
  unfold select
  split
  · next i hfound =>
      have hdecide := List.find?_some hfound
      exact .inl ⟨i, List.mem_of_find?_eq_some hfound, of_decide_eq_true hdecide, rfl⟩
  · next hnone =>
      refine .inr ⟨fun i hi h => ?_, rfl⟩
      exact List.find?_eq_none.mp hnone i hi (decide_eq_true h)

theorem select_eq_ok_iff {i : ι} :
    select rule pattern specs l = .ok i ↔
      i ∈ specs ∧ IsMostSpecialized rule pattern specs l i := by
  rcases @select_cases α _ ι _ rule pattern specs l with ⟨j, hj, hmost, heq⟩ | ⟨hno, heq⟩
  · rw [heq]
    constructor
    · intro h
      cases h
      exact ⟨hj, hmost⟩
    · rintro ⟨hi, h⟩
      rw [hmost.unique hj hi h]
  · rw [heq]
    refine iff_of_false (fun h => ?_) fun h => hno i h.1 h.2
    split at h
    · cases h
    · cases h

theorem select_eq_ambiguous_iff :
    select rule pattern specs l = .error .ambiguous ↔
      (∃ i ∈ specs, (pattern i).matches l = true) ∧
        ∀ i ∈ specs, ¬ IsMostSpecialized rule pattern specs l i := by
  rcases @select_cases α _ ι _ rule pattern specs l with ⟨j, hj, hmost, heq⟩ | ⟨hno, heq⟩
  · rw [heq]
    exact iff_of_false (fun h => by cases h) fun h => h.2 j hj hmost
  · rw [heq]
    split
    · next hmatch => exact iff_of_true rfl ⟨hmatch, hno⟩
    · next hmatch => exact iff_of_false (fun h => by cases h) fun h => hmatch h.1

end Select

end PartialSpec

end OpenMptl
