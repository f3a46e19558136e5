/-
`debouncer<>`: a polled value is taken over when it has been the same for the
wait time.  The state keeps the last reading and an absolute deadline; both are
determined by the last change of the polled values.
-/
import OpenMptl.Settling
import Mathlib.Algebra.Ring.Nat

namespace OpenMptl

universe u

/-- The template arguments that set the wait time. -/
structure DebouncerConfig where
  timeFreq : Nat
  waitTimeMs : Nat

/-- `wait_time_ticks` -/
def DebouncerConfig.waitTimeTicks (cfg : DebouncerConfig) : Nat :=
  cfg.timeFreq * cfg.waitTimeMs % 2 ^ 64 / 1000 % 2 ^ 32

structure Debouncer (T : Type u) where
  value : T
  current : T
  holdTime : Nat
deriving DecidableEq, Repr

namespace Debouncer

variable {T : Type u}

def new (value : T) : Debouncer T := ⟨value, value, 0⟩

def get (d : Debouncer T) : T := d.value

variable [DecidableEq T]

/-- The first half of `poll()`: a new reading starts the hold time. -/
def observe (cfg : DebouncerConfig) (d : Debouncer T) (newValue : T) (now : Nat) :
    Debouncer T :=
  if d.current ≠ newValue then
    { d with current := newValue, holdTime := (now + cfg.waitTimeTicks) % 2 ^ 32 }
  else d

/-- `poll()`, with what `poll_func()` and `time_func()` return. -/
def poll (cfg : DebouncerConfig) (d : Debouncer T) (newValue : T) (now : Nat) :
    Bool × Debouncer T :=
  let d := d.observe cfg newValue now
  if d.holdTime > now ∨ d.value = d.current then (false, d)
  else (true, { d with value := d.current })

/-- The state after a number of polls; poll `k` reads `v k` at the reading `u k`,
and `v 0` is the constructor's argument. -/
def after (cfg : DebouncerConfig) (v : Nat → T) (u : Nat → Nat) : Nat → Debouncer T
  | 0 => new (v 0)
  | k + 1 => ((after cfg v u k).poll cfg (v (k + 1)) (u (k + 1))).2

/-- What poll `k + 1` returns. -/
def result (cfg : DebouncerConfig) (v : Nat → T) (u : Nat → Nat) (k : Nat) : Bool :=
  ((after cfg v u k).poll cfg (v (k + 1)) (u (k + 1))).1

open Settling

/-- The hold time as the polled values determine it. -/
def deadline (cfg : DebouncerConfig) (v : Nat → T) (u : Nat → Nat) (k : Nat) : Nat :=
  if lastChange v k = 0 then 0 else (u (lastChange v k) + cfg.waitTimeTicks) % 2 ^ 32

/-- The reading has reached the hold time. -/
def Due (cfg : DebouncerConfig) (v : Nat → T) (u : Nat → Nat) (k : Nat) : Prop :=
  deadline cfg v u k ≤ u k

instance (cfg : DebouncerConfig) (v : Nat → T) (u : Nat → Nat) :
    DecidablePred (Due cfg v u) :=
  fun _ => Nat.decLe _ _

section Run

variable {cfg : DebouncerConfig} {v : Nat → T} {u : Nat → Nat}

/-- The state that the first `k` polls determine, apart from the accepted value. -/
def tracking (cfg : DebouncerConfig) (v : Nat → T) (u : Nat → Nat) (k : Nat) (value : T) :
    Debouncer T :=
  ⟨value, v k, deadline cfg v u k⟩

theorem deadline_succ_of_ne {k : Nat} (h : v (k + 1) ≠ v k) :
    deadline cfg v u (k + 1) = (u (k + 1) + cfg.waitTimeTicks) % 2 ^ 32 := by
  rw [deadline, lastChange_succ, if_pos h, if_neg (Nat.succ_ne_zero k)]

theorem deadline_succ_of_eq {k : Nat} (h : v (k + 1) = v k) :
    deadline cfg v u (k + 1) = deadline cfg v u k := by
  rw [deadline, lastChange_succ, if_neg (not_not.mpr h), deadline]

/-- A reading that differs is a change, and sets the hold time to its deadline. -/
theorem observe_tracking (k : Nat) (value : T) :
    (tracking cfg v u k value).observe cfg (v (k + 1)) (u (k + 1)) =
      tracking cfg v u (k + 1) value := by
  by_cases h : v (k + 1) = v k
  · have hsame : ¬ (tracking cfg v u k value).current ≠ v (k + 1) := not_not.mpr h.symm
    rw [observe, if_neg hsame, tracking, tracking, deadline_succ_of_eq h, h]
  · have hne : (tracking cfg v u k value).current ≠ v (k + 1) := Ne.symm h
    rw [observe, if_pos hne, tracking, tracking, deadline_succ_of_ne h]

/-- A poll takes a reading over when it differs from the value and is due. -/
theorem poll_tracking (k : Nat) (value : T) :
    (tracking cfg v u k value).poll cfg (v (k + 1)) (u (k + 1)) =
      if v (k + 1) ≠ value ∧ Due cfg v u (k + 1) then
        (true, tracking cfg v u (k + 1) (v (k + 1)))
      else (false, tracking cfg v u (k + 1) value) := by
  simp only [poll, observe_tracking]
  by_cases htaken : v (k + 1) ≠ value ∧ Due cfg v u (k + 1)
  · have hnot : ¬ ((tracking cfg v u (k + 1) value).holdTime > u (k + 1) ∨
        value = v (k + 1)) := by
      rintro (hhold | hvalue)
      · exact Nat.not_lt.mpr htaken.2 hhold
      · exact htaken.1 hvalue.symm
    rw [if_pos htaken]
    exact if_neg hnot
  · have hkeep : (tracking cfg v u (k + 1) value).holdTime > u (k + 1) ∨
        value = v (k + 1) := by
      by_cases hvalue : value = v (k + 1)
      · exact Or.inr hvalue
      · exact Or.inl (Nat.not_le.mp fun hdue => htaken ⟨Ne.symm hvalue, hdue⟩)
    rw [if_neg htaken]
    exact if_pos hkeep

/-- The state is the last reading, its deadline and the accepted value. -/
theorem after_eq (k : Nat) :
    after cfg v u k = tracking cfg v u k (settledBy v (Due cfg v u) k) := by
  induction k with
  | zero => rfl
  | succ k ih =>
      rw [after, ih, poll_tracking, settledBy]
      split <;> rfl

theorem get_after (k : Nat) : (after cfg v u k).get = settledBy v (Due cfg v u) k := by
  rw [after_eq]
  rfl

theorem result_iff (k : Nat) :
    result cfg v u k = true ↔ Accepts v (Due cfg v u) k := by
  rw [result, after_eq, poll_tracking, Accepts]
  split <;> simp_all

/-- The value that a run gets to is the reading of a poll that returned true. -/
theorem get_after_succ (k : Nat) :
    (after cfg v u (k + 1)).get =
      if result cfg v u k = true then v (k + 1) else (after cfg v u k).get := by
  rw [get_after, get_after]
  by_cases h : Accepts v (Due cfg v u) k
  · rw [settledBy_succ_of_accepts h, if_pos ((result_iff k).mpr h)]
  · rw [settledBy_succ_of_not_accepts h, if_neg (mt (result_iff k).mp h)]

/-- A pending value has a last change, and its deadline is the one of that change. -/
theorem due_iff_of_pending {k : Nat} (h : v (k + 1) ≠ (after cfg v u k).get) :
    Due cfg v u (k + 1) ↔
      (u (lastChange v (k + 1)) + cfg.waitTimeTicks) % 2 ^ 32 ≤ u (k + 1) := by
  rw [get_after] at h
  have hpos := lastChange_pos h
  rw [Due, deadline, if_neg hpos.ne']

theorem elapsed_iff_of_pending {t : Nat → Nat} {k : Nat}
    (h : v (k + 1) ≠ (after cfg v u k).get) :
    Elapsed v t cfg.waitTimeTicks (k + 1) ↔
      t (lastChange v (k + 1)) + cfg.waitTimeTicks ≤ t (k + 1) := by
  rw [get_after] at h
  rw [elapsed_iff]
  exact and_iff_right (lastChange_pos h)

end Run

theorem waitTimeTicks_lt (cfg : DebouncerConfig) : cfg.waitTimeTicks < 2 ^ 32 :=
  Nat.mod_lt _ (by decide)

section Growing

variable {cfg : DebouncerConfig} {v : Nat → T} {t : Nat → Nat} {n : Nat}

/-- Where no deadline wraps, a pending value is due when the time has elapsed. -/
theorem due_iff_elapsed
    (hnowrap : ∀ k, 0 < k → k ≤ n → t k + cfg.waitTimeTicks < 2 ^ 32) {k : Nat} (hk : k < n)
    (h : v (k + 1) ≠ settledBy v (Due cfg v t) k) :
    Due cfg v t (k + 1) ↔ Elapsed v t cfg.waitTimeTicks (k + 1) := by
  have hpos := lastChange_pos h
  have hlast := lastChange_le v (k + 1)
  have hmod := Nat.mod_eq_of_lt (hnowrap _ hpos (hlast.trans hk))
  rw [← get_after] at h
  rw [due_iff_of_pending h, elapsed_iff_of_pending h, hmod]

/-- The accepted value does not see a glitch that is shorter than the wait time. -/
theorem get_stays (hmono : ∀ i j, 0 < i → i ≤ j → j ≤ n → t i ≤ t j)
    (hnowrap : ∀ k, 0 < k → k ≤ n → t k + cfg.waitTimeTicks < 2 ^ 32) {a b : Nat}
    (hb : b ≤ n) (ha : v a = (after cfg v t a).get)
    (hglitch : ∀ k, a < k → k ≤ b → v k ≠ (after cfg v t a).get →
      t k < t (a + 1) + cfg.waitTimeTicks) :
    ∀ k, a ≤ k → k ≤ b → (after cfg v t k).get = (after cfg v t a).get := by
  have hcongr : ∀ k, k ≤ n →
      settledBy v (Due cfg v t) k = settledBy v (Elapsed v t cfg.waitTimeTicks) k :=
    settledBy_congr fun k hk hpending => due_iff_elapsed hnowrap hk hpending
  simp only [get_after] at ha hglitch ⊢
  intro k hak hkb
  have han : a ≤ n := (hak.trans hkb).trans hb
  rw [hcongr a han] at ha hglitch ⊢
  rw [hcongr k (hkb.trans hb)]
  refine settledBy_stays (fun i hai hib => ?_) k hak hkb
  by_cases hsame : v (i + 1) = settledBy v (Elapsed v t cfg.waitTimeTicks) a
  · exact Or.inl hsame
  · refine Or.inr (not_elapsed_of_recent (Nat.lt_succ_of_le hai) ?_ ?_ ?_)
    · exact fun j haj hj => hmono _ _ (Nat.succ_pos a) haj ((hj.trans hib).trans hb)
    · exact fun hva => hsame (hva.trans ha)
    · exact hglitch (i + 1) (Nat.lt_succ_of_le hai) hib hsame

end Growing

end Debouncer

section Polls

open Settling

/-- With growing readings, a poll returns true exactly when its value differs from
the debounced one and has been read since the wait time. -/
theorem debouncer_poll_iff {T : Type u} [DecidableEq T] (cfg : DebouncerConfig) (v : Nat → T)
    (t : Nat → Nat) (n : Nat) (hmono : ∀ i j, 0 < i → i ≤ j → j ≤ n → t i ≤ t j)
    (hnowrap : ∀ k, 0 < k → k ≤ n → t k + cfg.waitTimeTicks < 2 ^ 32) :
    (∀ k, k < n →
      (Debouncer.result cfg v t k = true ↔
        v (k + 1) ≠ (Debouncer.after cfg v t k).get ∧
          ∃ j, IsLastChange v j (k + 1) ∧ t j + cfg.waitTimeTicks ≤ t (k + 1)) ∧
      (Debouncer.after cfg v t (k + 1)).get =
        if Debouncer.result cfg v t k = true then v (k + 1)
        else (Debouncer.after cfg v t k).get) ∧
    (∀ k, k < n →
      (Debouncer.after cfg v t (k + 1)).get ≠ (Debouncer.after cfg v t k).get →
        ∃ j, 0 < j ∧ j ≤ k + 1 ∧ t j + cfg.waitTimeTicks ≤ t (k + 1) ∧
          ∀ i, j ≤ i → i ≤ k + 1 → v i = (Debouncer.after cfg v t (k + 1)).get) ∧
    (∀ a b, b ≤ n → v a = (Debouncer.after cfg v t a).get →
      (∀ k, a < k → k ≤ b → v k ≠ (Debouncer.after cfg v t a).get →
        t k < t (a + 1) + cfg.waitTimeTicks) →
      ∀ k, a ≤ k → k ≤ b →
        (Debouncer.after cfg v t k).get = (Debouncer.after cfg v t a).get) := by
  have hresult : ∀ k, k < n → (Debouncer.result cfg v t k = true ↔
      v (k + 1) ≠ (Debouncer.after cfg v t k).get ∧
        Elapsed v t cfg.waitTimeTicks (k + 1)) := by
    intro k hk
    rw [Debouncer.result_iff, Debouncer.get_after]
    exact and_congr_right fun hpending => Debouncer.due_iff_elapsed hnowrap hk hpending
  refine ⟨fun k hk => ⟨hresult k hk, Debouncer.get_after_succ k⟩, ?_, ?_⟩
  · intro k hk hchange
    have hsucc := @Debouncer.get_after_succ T _ cfg v t k
    by_cases htrue : Debouncer.result cfg v t k = true
    · rw [if_pos htrue] at hsucc
      rw [hsucc]
      exact ((hresult k hk).mp htrue).2.held
    · rw [if_neg htrue] at hsucc
      exact absurd hsucc hchange
  · intro a b hb ha hglitch
    exact Debouncer.get_stays hmono hnowrap hb ha hglitch

end Polls

namespace DebouncerTest

/-- A wait time of ten ticks. -/
def tenTicks : DebouncerConfig := ⟨1000, 10⟩

/-- The value changes at the first poll and stays. -/
def pressed (k : Nat) : Bool := decide (1 ≤ k)

theorem debouncer_poll_iff_pressed :
    Debouncer.result tenTicks pressed (fun k => 5 * k) 0 = false ∧
      Debouncer.result tenTicks pressed (fun k => 5 * k) 2 = true ∧
      ∃ j, 0 < j ∧ j ≤ 3 ∧ 5 * j + 10 ≤ 15 ∧ ∀ i, j ≤ i → i ≤ 3 → pressed i = true := by
  obtain ⟨-, hchange, -⟩ := debouncer_poll_iff tenTicks pressed (fun k => 5 * k) 3
    (fun i j _ hij _ => Nat.mul_le_mul_left 5 hij)
    (fun k _ hk => by
      change 5 * k + 10 < 2 ^ 32
      omega)
  exact ⟨by decide, by decide, hchange 2 (by decide) (by decide)⟩

end DebouncerTest

end OpenMptl
