/-
A signal that is accepted only after it has been constant for a while.  The
accepted value follows the polled values under a rule that says when a poll is
due; for debouncing, the rule is the time since the last change.
-/
import Mathlib.Data.Nat.Find
import Mathlib.Order.Nat

namespace OpenMptl

universe u

namespace Settling

variable {α : Type u} {v : Nat → α}

/-- The last index up to `k` at which the signal changed. -/
structure IsLastChange (v : Nat → α) (j k : Nat) : Prop where
  pos : 0 < j
  le : j ≤ k
  change : v j ≠ v (j - 1)
  constant : ∀ i, j < i → i ≤ k → v i = v (i - 1)

/-- The signal has been constant for the time `wait` at poll `k`. -/
def Elapsed (v : Nat → α) (t : Nat → Nat) (wait k : Nat) : Prop :=
  ∃ j, IsLastChange v j k ∧ t j + wait ≤ t k

variable [DecidableEq α]

/-- The index of the last change, zero when there is none. -/
def lastChange (v : Nat → α) (k : Nat) : Nat := Nat.findGreatest (fun j => v j ≠ v (j - 1)) k

/-- The accepted value: a polled value that differs replaces it when the poll is
due. -/
def settledBy (v : Nat → α) (due : Nat → Prop) [DecidablePred due] : Nat → α
  | 0 => v 0
  | k + 1 => if v (k + 1) ≠ settledBy v due k ∧ due (k + 1) then v (k + 1)
      else settledBy v due k

/-- Poll `k + 1` replaces the accepted value. -/
def Accepts (v : Nat → α) (due : Nat → Prop) [DecidablePred due] (k : Nat) : Prop :=
  v (k + 1) ≠ settledBy v due k ∧ due (k + 1)

theorem lastChange_succ (v : Nat → α) (k : Nat) :
    lastChange v (k + 1) = if v (k + 1) ≠ v k then k + 1 else lastChange v k := by
  rw [lastChange, Nat.findGreatest_succ]
  rfl

theorem lastChange_le (v : Nat → α) (k : Nat) : lastChange v k ≤ k := Nat.findGreatest_le k

theorem isLastChange_iff {j k : Nat} :
    IsLastChange v j k ↔ 0 < j ∧ lastChange v k = j := by
  rw [lastChange, Nat.findGreatest_eq_iff]
  constructor
  · rintro ⟨hpos, hle, hchange, hconstant⟩
    exact ⟨hpos, hle, fun _ => hchange, fun i hi hik => not_not.mpr (hconstant i hi hik)⟩
  · rintro ⟨hpos, hle, hchange, hconstant⟩
    exact ⟨hpos, hle, hchange hpos.ne', fun i hi hik => not_not.mp (hconstant hi hik)⟩

/-- From the last change on the signal is constant. -/
theorem eq_of_lastChange_le {i k : Nat} (hi : lastChange v k ≤ i) (hik : i ≤ k) :
    v i = v k := by
  induction k with
  | zero => rw [Nat.le_zero.mp hik]
  | succ k ih =>
      rcases Nat.lt_or_eq_of_le hik with hlt | rfl
      · have hlast := lastChange_succ v k
        split at hlast
        · omega
        · rename_i heq
          rw [ih (hlast ▸ hi) (Nat.lt_succ_iff.mp hlt), not_not.mp heq]
      · rfl

theorem IsLastChange.eq {j k : Nat} (h : IsLastChange v j k) {i : Nat} (hi : j ≤ i)
    (hik : i ≤ k) : v i = v k :=
  eq_of_lastChange_le ((isLastChange_iff.mp h).2.le.trans hi) hik

theorem elapsed_iff {t : Nat → Nat} {wait k : Nat} :
    Elapsed v t wait k ↔
      0 < lastChange v k ∧ t (lastChange v k) + wait ≤ t k := by
  constructor
  · rintro ⟨j, hj, hwait⟩
    obtain ⟨hpos, hlast⟩ := isLastChange_iff.mp hj
    rw [hlast]
    exact ⟨hpos, hwait⟩
  · rintro ⟨hpos, hwait⟩
    exact ⟨_, isLastChange_iff.mpr ⟨hpos, rfl⟩, hwait⟩

instance (t : Nat → Nat) (wait : Nat) : DecidablePred (Elapsed v t wait) :=
  fun _ => decidable_of_iff' _ elapsed_iff

section Rule

variable {due due' : Nat → Prop} [DecidablePred due] [DecidablePred due']

theorem settledBy_succ_of_accepts {k : Nat} (h : Accepts v due k) :
    settledBy v due (k + 1) = v (k + 1) := if_pos h

theorem settledBy_succ_of_not_accepts {k : Nat} (h : ¬ Accepts v due k) :
    settledBy v due (k + 1) = settledBy v due k := if_neg h

theorem settledBy_eq_initial {k : Nat} (h : ∀ i, i ≤ k → v i = v 0) :
    settledBy v due k = v 0 := by
  induction k with
  | zero => rfl
  | succ k ih =>
      have hk := ih fun i hi => h i (Nat.le_succ_of_le hi)
      have hnot : ¬ Accepts v due k := fun haccepts =>
        haccepts.1 ((h (k + 1) (Nat.le_refl _)).trans hk.symm)
      rw [settledBy_succ_of_not_accepts hnot, hk]

/-- A value that differs from the accepted one has been changed to. -/
theorem lastChange_pos {k : Nat} (h : v (k + 1) ≠ settledBy v due k) :
    0 < lastChange v (k + 1) := by
  by_contra hzero
  have hconstant : ∀ i, i ≤ k + 1 → v i = v (k + 1) := fun i hi =>
    eq_of_lastChange_le (by omega) hi
  have hinitial : ∀ i, i ≤ k → v i = v 0 := fun i hi =>
    (hconstant i (Nat.le_succ_of_le hi)).trans (hconstant 0 (Nat.zero_le _)).symm
  rw [settledBy_eq_initial hinitial] at h
  exact h (hconstant 0 (Nat.zero_le _)).symm

/-- Two rules agree on every poll when they agree wherever a value is pending. -/
theorem settledBy_congr {n : Nat}
    (h : ∀ k, k < n → v (k + 1) ≠ settledBy v due k → (due (k + 1) ↔ due' (k + 1))) :
    ∀ k, k ≤ n → settledBy v due k = settledBy v due' k := by
  intro k hk
  induction k with
  | zero => rfl
  | succ k ih =>
      have hprev := ih (Nat.le_of_succ_le hk)
      have haccepts : Accepts v due k ↔ Accepts v due' k := by
        unfold Accepts
        rw [← hprev]
        exact and_congr_right (h k hk)
      by_cases hdue : Accepts v due k
      · rw [settledBy_succ_of_accepts hdue, settledBy_succ_of_accepts (haccepts.mp hdue)]
      · rw [settledBy_succ_of_not_accepts hdue,
          settledBy_succ_of_not_accepts (mt haccepts.mpr hdue), hprev]

/-- Agreement on all polls is agreement wherever a value is pending. -/
theorem accepts_congr_iff {n : Nat} :
    (∀ k, k < n → (Accepts v due k ↔ Accepts v due' k)) ↔
      ∀ k, k < n → v (k + 1) ≠ settledBy v due k → (due (k + 1) ↔ due' (k + 1)) := by
  constructor
  · intro h k
    induction k using Nat.strong_induction_on with
    | _ k ih =>
        intro hk hpending
        have hprev := settledBy_congr (n := k)
          (fun i hi => ih i hi (hi.trans hk)) k (Nat.le_refl _)
        have haccepts := h k hk
        unfold Accepts at haccepts
        rw [← hprev] at haccepts
        simpa [hpending] using haccepts
  · intro h k hk
    have hprev := settledBy_congr h k hk.le
    unfold Accepts
    rw [← hprev]
    exact and_congr_right (h k hk)

/-- While every poll shows the accepted value or is not due, nothing changes. -/
theorem settledBy_stays {a b : Nat}
    (h : ∀ k, a ≤ k → k < b → v (k + 1) = settledBy v due a ∨ ¬ due (k + 1)) :
    ∀ k, a ≤ k → k ≤ b → settledBy v due k = settledBy v due a := by
  intro k hak
  induction k, hak using Nat.le_induction with
  | base => exact fun _ => rfl
  | succ k hak ih =>
      intro hk
      have hprev := ih (Nat.le_of_succ_le hk)
      have hnot : ¬ Accepts v due k := by
        rintro ⟨hne, hdue⟩
        rw [hprev] at hne
        exact (h k hak hk).elim hne (absurd hdue)
      rw [settledBy_succ_of_not_accepts hnot, hprev]

end Rule

section Time

variable {t : Nat → Nat} {wait : Nat}

/-- What is accepted has been there for the whole time. -/
theorem Elapsed.held {k : Nat} (h : Elapsed v t wait k) :
    ∃ j, 0 < j ∧ j ≤ k ∧ t j + wait ≤ t k ∧ ∀ i, j ≤ i → i ≤ k → v i = v k := by
  obtain ⟨j, hj, hwait⟩ := h
  exact ⟨j, hj.pos, hj.le, hwait, fun i hi hik => hj.eq hi hik⟩

/-- A value that came up after poll `a` is not due within the time. -/
theorem not_elapsed_of_recent {a k : Nat} (hak : a < k)
    (hmono : ∀ j, a < j → j ≤ k → t (a + 1) ≤ t j) (hne : v k ≠ v a)
    (hwait : t k < t (a + 1) + wait) : ¬ Elapsed v t wait k := by
  rintro ⟨j, hj, helapsed⟩
  have haj : a < j := by
    by_contra hle
    exact hne (hj.eq (Nat.not_lt.mp hle) hak.le).symm
  have hlater := hmono j haj hj.le
  omega

end Time

/-- A deadline on a counter that wraps is compared correctly exactly when it and
the reading are on the same side of the wrap. -/
theorem wrapped_deadline_iff {size first wait elapsed : Nat} (hfirst : first < size)
    (hwait : wait < size) (helapsed : elapsed < size) :
    (((first + wait) % size ≤ (first + elapsed) % size ↔ wait ≤ elapsed)) ↔
      (first + wait < size ↔ first + elapsed < size) := by
  have hmod : ∀ d, d < size → (first + d) % size =
      if first + d < size then first + d else first + d - size := by
    intro d hd
    split
    · rw [Nat.mod_eq_of_lt ‹_›]
    · rw [Nat.mod_eq_sub_mod (Nat.not_lt.mp ‹_›), Nat.mod_eq_of_lt (by omega)]
  rw [hmod wait hwait, hmod elapsed helapsed]
  split <;> split <;> omega

end Settling

end OpenMptl
