/-
Measured times in nanoseconds.  The difference of two time points counts the ticks
between them; `get_ns()` scales it by the factor that `add_ns()` uses to go from
nanoseconds to ticks, so a time that was added is scaled down twice.
-/
import Mathlib.Data.BitVec
import OpenMptl.TimePoint

namespace OpenMptl

namespace TimePoint

variable (k : SystickConstants)

def getNs (tp : TimePoint) : BitVec 32 :=
  let t := tp.systick * k.reloadValue - tp.counter + k.reloadValue
  t * 1000 / k.psPerTick

end TimePoint

/-- `TimeMeasurement`, a start and an end. -/
structure TimeMeasurement where
  tpStart : TimePoint
  tpEnd : TimePoint

/-- "diff time in nanoseconds" -/
def TimeMeasurement.diff (k : SystickConstants) (m : TimeMeasurement) : BitVec 32 :=
  (TimePoint.diff k m.tpEnd m.tpStart).getNs k

/-- A measured time is at least the real one, and at most two ticks more; a tick takes
`psPerTick` picoseconds. -/
def SystickConstants.Measures (k : SystickConstants) (ns measured : BitVec 32) : Prop :=
  1000 * ns.toNat ≤ 1000 * measured.toNat ∧
    1000 * measured.toNat ≤ 1000 * ns.toNat + 2 * k.psPerTick.toNat

namespace TimePoint

/-! In `unsigned` arithmetic the ticks are right for any counter. -/

/-- The ticks that `get_ns()` scales. -/
def wrappedTicks (k : SystickConstants) (tp : TimePoint) : BitVec 32 :=
  tp.systick * k.reloadValue - tp.counter + k.reloadValue

variable {k : SystickConstants}

theorem getNs_eq (tp : TimePoint) : tp.getNs k = tp.wrappedTicks k * 1000 / k.psPerTick := rfl

theorem counterTicks_eq_wrapped (ns : BitVec 32) :
    k.counterTicks ns / k.reloadValue * k.reloadValue + k.counterTicks ns % k.reloadValue =
      k.counterTicks ns := by
  apply BitVec.eq_of_toNat_eq
  have hdigits := @counterTicks_eq k ns
  have hlt := (k.counterTicks ns).isLt
  rw [BitVec.toNat_add, BitVec.toNat_mul, Nat.mod_add_mod]
  rw [← Nat.mod_eq_of_lt hlt]
  congr 1
  exact_mod_cast hdigits.symm

theorem wrappedTicks_addNs (tp : TimePoint) (ns : BitVec 32) :
    (tp.addNs k ns).wrappedTicks k = tp.wrappedTicks k + k.counterTicks ns := by
  rw [← counterTicks_eq_wrapped ns]
  simp only [addNs, wrappedTicks]
  split
  · ring
  · ring

theorem wrappedTicks_diff (a b : TimePoint) :
    (diff k a b).wrappedTicks k = a.wrappedTicks k - b.wrappedTicks k := by
  simp only [diff, wrappedTicks]
  split
  · ring
  · ring

/-- The difference of a sum counts exactly the ticks that were added. -/
theorem getNs_diff_addNs (tp : TimePoint) (ns : BitVec 32) :
    (diff k (tp.addNs k ns) tp).getNs k = k.counterTicks ns * 1000 / k.psPerTick := by
  rw [getNs_eq, wrappedTicks_diff, wrappedTicks_addNs, add_sub_cancel_left]

/-- A tick is longer than a nanosecond, so the factor makes every time shorter. -/
theorem scaled_toNat_lt (hps : 1000 < k.psPerTick.toNat) {t : BitVec 32} {m : Nat}
    (ht : t.toNat ≤ m) (hm : 0 < m) : (t * 1000 / k.psPerTick).toNat < m := by
  rw [BitVec.toNat_udiv, BitVec.toNat_mul, Nat.div_lt_iff_lt_mul (by omega)]
  calc t.toNat * 1000 % 2 ^ 32 ≤ t.toNat * 1000 := Nat.mod_le _ _
    _ ≤ m * 1000 := Nat.mul_le_mul_right 1000 ht
    _ < m * k.psPerTick.toNat := Nat.mul_lt_mul_of_pos_left hps hm

/-- Rounded up, the ticks are still no more than the nanoseconds. -/
theorem counterTicks_toNat_le (hps : 1000 < k.psPerTick.toNat) {ns : BitVec 32}
    (hns : 0 < ns.toNat) : (k.counterTicks ns).toNat ≤ ns.toNat := by
  have hscaled := scaled_toNat_lt hps le_rfl hns
  have hone : (1 : BitVec 32).toNat = 1 := rfl
  rw [SystickConstants.counterTicks, BitVec.toNat_add, hone]
  exact (Nat.mod_le _ _).trans hscaled

theorem getNs_diff_addNs_lt (hps : 1000 < k.psPerTick.toNat) (tp : TimePoint) {ns : BitVec 32}
    (hns : 0 < ns.toNat) : ((diff k (tp.addNs k ns) tp).getNs k).toNat < ns.toNat := by
  rw [getNs_diff_addNs]
  exact scaled_toNat_lt hps (counterTicks_toNat_le hps hns) hns

/-- No time at all is one tick, which is scaled to nothing. -/
theorem getNs_diff_addNs_zero (hps : 1000 < k.psPerTick.toNat) (tp : TimePoint) :
    (diff k (tp.addNs k 0) tp).getNs k = 0 := by
  have hticks : k.counterTicks 0 = 1 := by simp [SystickConstants.counterTicks]
  have hscaled := scaled_toNat_lt hps (t := 1) le_rfl Nat.one_pos
  rw [getNs_diff_addNs, hticks]
  exact BitVec.eq_of_toNat_eq (Nat.lt_one_iff.mp hscaled)

end TimePoint

/-- With ticks longer than a nanosecond, the only time that is measured right is no
time at all. -/
theorem timePointDiff_getNs_iff (k : SystickConstants) (hps : 1000 < k.psPerTick.toNat)
    (tp : TimePoint) (ns : BitVec 32) :
    k.Measures ns ((TimePoint.diff k (tp.addNs k ns) tp).getNs k) ↔ ns = 0 := by
  constructor
  · rintro ⟨hlower, -⟩
    apply BitVec.eq_of_toNat_eq
    rcases Nat.eq_zero_or_pos ns.toNat with hzero | hpos
    · exact hzero
    · have hlt := TimePoint.getNs_diff_addNs_lt hps tp hpos
      omega
  · rintro rfl
    rw [TimePoint.getNs_diff_addNs_zero hps]
    exact ⟨le_rfl, Nat.le_add_right _ _⟩

namespace TimeMeasurementTest

open TimePointTest (systick100)

/-- One tick of 111 ns is measured as 0 ns. -/
theorem timePointDiff_getNs_iff_zero :
    systick100.Measures 0
      ((TimePoint.diff systick100 (TimePoint.addNs systick100 0 ⟨5, 3000⟩)
        ⟨5, 3000⟩).getNs systick100) := by
  have hps : 1000 < systick100.psPerTick.toNat := by decide
  exact (timePointDiff_getNs_iff systick100 hps ⟨5, 3000⟩ 0).mpr rfl

/-- A millisecond is added as 9001 ticks and measured as 81 ns. -/
theorem timePointDiff_millisecond_not_measured :
    (TimePoint.diff systick100 (TimePoint.addNs systick100 1000000 ⟨5, 3000⟩)
        ⟨5, 3000⟩).getNs systick100 = 81 ∧
      ¬ systick100.Measures 1000000
        ((TimePoint.diff systick100 (TimePoint.addNs systick100 1000000 ⟨5, 3000⟩)
          ⟨5, 3000⟩).getNs systick100) := by
  unfold SystickConstants.Measures
  decide

end TimeMeasurementTest

end OpenMptl
