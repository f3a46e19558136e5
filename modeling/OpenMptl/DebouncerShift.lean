/-
The debouncer on a counter that wraps.  The readings of one run are shifted by a
constant; a run is the one of elapsed time as long as the hold time and the
reading that is compared with it are on the same side of the wrap.
-/
import OpenMptl.Debouncer

namespace OpenMptl

universe u

namespace Debouncer

open Settling

/-- The readings of `time_func()` when the counter started at `c`. -/
def shifted (t : Nat → Nat) (c k : Nat) : Nat := (t k + c) % 2 ^ 32

/-- The hold time set at poll `j` and the reading of poll `k` are on the same side
of the wrap. -/
def OneSideOfWrap (cfg : DebouncerConfig) (t : Nat → Nat) (c j k : Nat) : Prop :=
  shifted t c j + cfg.waitTimeTicks < 2 ^ 32 ↔ shifted t c j + (t k - t j) < 2 ^ 32

instance (cfg : DebouncerConfig) (t : Nat → Nat) (c j k : Nat) :
    Decidable (OneSideOfWrap cfg t c j k) :=
  inferInstanceAs (Decidable (_ ↔ _))

variable {T : Type u} [DecidableEq T]

/-- Every pending poll compares on one side of the wrap. -/
def ComparesOnOneSide (cfg : DebouncerConfig) (v : Nat → T) (t : Nat → Nat) (c n : Nat) : Prop :=
  ∀ k, k < n → v (k + 1) ≠ (after cfg v (shifted t c) k).get →
    ∀ j, IsLastChange v j (k + 1) → OneSideOfWrap cfg t c j (k + 1)

section Shift

variable {cfg : DebouncerConfig} {v : Nat → T} {t : Nat → Nat} {c n : Nat}

/-- The later reading is the earlier one plus the elapsed time. -/
theorem shifted_add {j k : Nat} (h : t j ≤ t k) :
    shifted t c k = (shifted t c j + (t k - t j)) % 2 ^ 32 := by
  have hsum : t k + c = t j + c + (t k - t j) := by omega
  rw [shifted, shifted, Nat.mod_add_mod, hsum]

theorem elapsed_lt (hmono : ∀ i j, 0 < i → i ≤ j → j ≤ n → t i ≤ t j)
    (hduration : t n - t 1 < 2 ^ 31) {j k : Nat} (hj : 0 < j) (hjk : j ≤ k) (hk : k ≤ n) :
    t k - t j < 2 ^ 32 := by
  have hfirst := hmono 1 j Nat.one_pos hj (hjk.trans hk)
  have hlast := hmono k n (hj.trans_le hjk) hk (Nat.le_refl n)
  omega

/-- At a pending poll the code is right about the elapsed time exactly when it
compares on one side of the wrap. -/
theorem due_shifted_iff (hmono : ∀ i j, 0 < i → i ≤ j → j ≤ n → t i ≤ t j)
    (hduration : t n - t 1 < 2 ^ 31) {k : Nat} (hk : k < n)
    (h : v (k + 1) ≠ (after cfg v (shifted t c) k).get) :
    (Due cfg v (shifted t c) (k + 1) ↔ Elapsed v t cfg.waitTimeTicks (k + 1)) ↔
      OneSideOfWrap cfg t c (lastChange v (k + 1)) (k + 1) := by
  have hpos : 0 < lastChange v (k + 1) := lastChange_pos (get_after (T := T) k ▸ h)
  have hle := lastChange_le v (k + 1)
  have hgrowing := hmono _ _ hpos hle hk
  have helapsed := elapsed_lt hmono hduration hpos hle hk
  have hreading : shifted t c (lastChange v (k + 1)) < 2 ^ 32 := Nat.mod_lt _ (by decide)
  rw [due_iff_of_pending h, elapsed_iff_of_pending h, shifted_add hgrowing, OneSideOfWrap,
    ← wrapped_deadline_iff hreading (waitTimeTicks_lt cfg) helapsed,
    Nat.le_sub_iff_add_le' hgrowing]

/-- The condition on the last change, in terms of the rule of the code. -/
theorem comparesOnOneSide_iff (hmono : ∀ i j, 0 < i → i ≤ j → j ≤ n → t i ≤ t j)
    (hduration : t n - t 1 < 2 ^ 31) :
    ComparesOnOneSide cfg v t c n ↔
      ∀ k, k < n → v (k + 1) ≠ settledBy v (Due cfg v (shifted t c)) k →
        (Due cfg v (shifted t c) (k + 1) ↔ Elapsed v t cfg.waitTimeTicks (k + 1)) := by
  unfold ComparesOnOneSide
  refine forall₂_congr fun k hk => ?_
  rw [get_after]
  refine forall_congr' fun hpending => ?_
  have hpos := lastChange_pos hpending
  rw [due_shifted_iff hmono hduration hk (get_after (T := T) k ▸ hpending)]
  constructor
  · exact fun h => h _ (isLastChange_iff.mpr ⟨hpos, rfl⟩)
  · intro h j hj
    obtain ⟨-, rfl⟩ := isLastChange_iff.mp hj
    exact h

/-- The polls of a run return what elapsed time alone decides exactly when every
pending poll compares on one side of the wrap. -/
theorem result_eq_elapsed_iff (hmono : ∀ i j, 0 < i → i ≤ j → j ≤ n → t i ≤ t j)
    (hduration : t n - t 1 < 2 ^ 31) :
    (∀ k, k < n → (result cfg v (shifted t c) k = true ↔
      Accepts v (Elapsed v t cfg.waitTimeTicks) k)) ↔ ComparesOnOneSide cfg v t c n := by
  simp only [result_iff]
  rw [comparesOnOneSide_iff hmono hduration, accepts_congr_iff]

/-- A run in which neither a reading nor a hold time wraps compares on one side. -/
theorem comparesOnOneSide_of_growing (hmono : ∀ i j, 0 < i → i ≤ j → j ≤ n → t i ≤ t j)
    (hgrowing : ∀ k, 0 < k → k ≤ n → t k + c + cfg.waitTimeTicks < 2 ^ 32) :
    ComparesOnOneSide cfg v t c n := by
  intro k hk _ j hj
  have hle := hmono j (k + 1) hj.pos hj.le hk
  have hfirst := hgrowing j hj.pos (hj.le.trans hk)
  have hlast := hgrowing (k + 1) (Nat.succ_pos k) hk
  have hreading : shifted t c j = t j + c := Nat.mod_eq_of_lt (by omega)
  rw [OneSideOfWrap, hreading]
  omega

end Shift

end Debouncer

/-- Two runs whose readings differ by a constant return the same, as long as each
compares its pending hold times with readings on the same side of the wrap. -/
theorem debouncer_shift_invariant {T : Type u} [DecidableEq T] (cfg : DebouncerConfig)
    (v : Nat → T) (t : Nat → Nat) (n : Nat)
    (hmono : ∀ i j, 0 < i → i ≤ j → j ≤ n → t i ≤ t j) (hduration : t n - t 1 < 2 ^ 31)
    (c c' : Nat) (hc : Debouncer.ComparesOnOneSide cfg v t c n)
    (hc' : Debouncer.ComparesOnOneSide cfg v t c' n) :
    ∀ k, k < n →
      Debouncer.result cfg v (Debouncer.shifted t c) k =
        Debouncer.result cfg v (Debouncer.shifted t c') k ∧
      (Debouncer.after cfg v (Debouncer.shifted t c) (k + 1)).get =
        (Debouncer.after cfg v (Debouncer.shifted t c') (k + 1)).get := by
  intro k hk
  have hrule := (Debouncer.comparesOnOneSide_iff hmono hduration).mp hc
  have hrule' := (Debouncer.comparesOnOneSide_iff hmono hduration).mp hc'
  have haccepts := (Debouncer.result_eq_elapsed_iff hmono hduration).mpr hc k hk
  have haccepts' := (Debouncer.result_eq_elapsed_iff hmono hduration).mpr hc' k hk
  constructor
  · rw [Bool.eq_iff_iff, haccepts, haccepts']
  · rw [Debouncer.get_after, Debouncer.get_after, Settling.settledBy_congr hrule (k + 1) hk,
      Settling.settledBy_congr hrule' (k + 1) hk]

namespace DebouncerShiftTest

/-- The counter wraps between two polls eleven ticks apart: the hold time is
reached, but the reading is zero again. -/
theorem debouncer_shift_differs :
    ¬ ∀ (v : Nat → Bool) (t : Nat → Nat) (n c : Nat),
      (∀ i j, 0 < i → i ≤ j → j ≤ n → t i ≤ t j) → t n - t 1 < 2 ^ 31 →
      ∀ k, k < n → Debouncer.result DebouncerTest.tenTicks v t k =
        Debouncer.result DebouncerTest.tenTicks v (Debouncer.shifted t c) k := by
  intro hall
  have hsame := hall DebouncerTest.pressed (fun k => 11 * (k - 1)) 2 (2 ^ 32 - 11)
    (fun i j _ hij _ => Nat.mul_le_mul_left 11 (Nat.sub_le_sub_right hij 1)) (by decide) 1
    (by decide)
  exact absurd hsame (by decide)

theorem debouncer_shift_invariant_pressed :
    Debouncer.result DebouncerTest.tenTicks DebouncerTest.pressed
        (Debouncer.shifted (fun k => 5 * k) 0) 2 =
      Debouncer.result DebouncerTest.tenTicks DebouncerTest.pressed
        (Debouncer.shifted (fun k => 5 * k) (2 ^ 31)) 2 := by
  have hmono : ∀ i j, 0 < i → i ≤ j → j ≤ 3 → 5 * i ≤ 5 * j :=
    fun i j _ hij _ => Nat.mul_le_mul_left 5 hij
  have hgrowing : ∀ c, c ≤ 2 ^ 31 → ∀ k, 0 < k → k ≤ 3 →
      5 * k + c + DebouncerTest.tenTicks.waitTimeTicks < 2 ^ 32 := by
    intro c hc k _ hk
    change 5 * k + c + 10 < 2 ^ 32
    omega
  exact (debouncer_shift_invariant DebouncerTest.tenTicks DebouncerTest.pressed
    (fun k => 5 * k) 3 hmono (by decide) 0 (2 ^ 31)
    (Debouncer.comparesOnOneSide_of_growing hmono (hgrowing 0 (by decide)))
    (Debouncer.comparesOnOneSide_of_growing hmono (hgrowing (2 ^ 31) (by decide))) 2
    (by decide)).1

end DebouncerShiftTest

end OpenMptl
