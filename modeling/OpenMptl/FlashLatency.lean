/-
Wait states of the flash memory.  `min_latency()` is a chain of comparisons for each
range of the supply voltage; what has to come out is the least number of wait states
that the frequency of the core permits.
-/
import OpenMptl.ClockHse

namespace OpenMptl

/-- `(hclk_freq <= mhz(limit)) ? 0 : ... : 0xff`, one limit for each number of wait states. -/
def latencyOf (limits : List Nat) (hclkFreq : Nat) : Nat :=
  let ws := limits.findIdx fun limit => hclkFreq ≤ mhz limit
  if ws < limits.length then ws else 0xff

namespace F1

/-- `flash::min_latency()` -/
def minLatency (hclkFreq : Nat) : Nat := latencyOf [24, 48, 72] hclkFreq

end F1

namespace F4

/-- `flash::min_latency()`; a `voltage_t` counts millivolts, and `volt(2.1)` is 2100. -/
def minLatency (hclkFreq systemVoltage : Nat) : Nat :=
  if systemVoltage ≤ 2100 then
    latencyOf [20, 40, 60, 80, 100, 120, 140, 160] hclkFreq
  else if systemVoltage ≤ 2400 then
    latencyOf [22, 44, 66, 88, 110, 132, 154, 168] hclkFreq
  else if systemVoltage ≤ 2700 then
    latencyOf [24, 48, 72, 96, 120, 144, 168] hclkFreq
  else if systemVoltage ≤ 3600 then
    latencyOf [30, 60, 90, 120, 150, 168] hclkFreq
  else 0xff

end F4

/-! What the flash memory needs. -/

/-- A number of wait states permits multiples of a step, up to the limit of the core. -/
structure FlashSpeed where
  stepMhz : Nat
  maxMhz : Nat

namespace FlashSpeed

variable (speed : FlashSpeed)

/-- The highest frequency with `ws` wait states. -/
def permitted (ws : Nat) : Nat := min ((ws + 1) * speed.stepMhz) speed.maxMhz * 1000000

/-- The limits for the numbers of wait states up to `ws`. -/
def limits (ws : Nat) : List Nat :=
  (List.range (ws + 1)).map fun i => min ((i + 1) * speed.stepMhz) speed.maxMhz

/-- The wait states suffice, and fewer do not. -/
structure Least (hclkFreq ws : Nat) : Prop where
  enough : hclkFreq ≤ speed.permitted ws
  least : ∀ fewer < ws, speed.permitted fewer < hclkFreq

variable {speed}

theorem permitted_mono {ws ws' : Nat} (h : ws ≤ ws') :
    speed.permitted ws ≤ speed.permitted ws' := by
  have hmul := Nat.mul_le_mul_right speed.stepMhz (Nat.add_le_add_right h 1)
  exact Nat.mul_le_mul_right _ (min_le_min_right _ hmul)

/-- A table with the limits of a speed finds the least number, or rejects. -/
theorem latencyOf_limits (hmax : speed.maxMhz ≤ 432) (hclkFreq last : Nat) :
    if hclkFreq ≤ speed.permitted last then
      latencyOf (speed.limits last) hclkFreq ≤ last ∧
        speed.Least hclkFreq (latencyOf (speed.limits last) hclkFreq)
    else latencyOf (speed.limits last) hclkFreq = 0xff := by
  have hlength : (speed.limits last).length = last + 1 := by simp [limits]
  have hget : ∀ i (h : i < (speed.limits last).length),
      mhz (speed.limits last)[i] = speed.permitted i := by
    intro i h
    have hlimit : (speed.limits last)[i] = min ((i + 1) * speed.stepMhz) speed.maxMhz := by
      simp [limits]
    rw [hlimit, permitted]
    exact mhz_eq ((min_le_right _ _).trans hmax)
  split
  · next hle =>
      have hfound : (speed.limits last).findIdx (fun limit => decide (hclkFreq ≤ mhz limit)) <
          (speed.limits last).length := by
        have hin : last < (speed.limits last).length := by omega
        refine List.findIdx_lt_length.mpr ⟨(speed.limits last)[last], List.getElem_mem hin, ?_⟩
        rw [hget]
        exact decide_eq_true hle
      rw [latencyOf, if_pos hfound]
      refine ⟨by omega, ?_, fun fewer hfewer => ?_⟩
      · have hhit := List.findIdx_getElem (w := hfound)
        rw [hget] at hhit
        exact of_decide_eq_true hhit
      · have hmiss := List.not_of_lt_findIdx hfewer
        rw [hget] at hmiss
        simpa using hmiss
  · next hgt =>
      rw [latencyOf, if_neg]
      rw [List.findIdx_lt_length]
      rintro ⟨limit, hmem, hle⟩
      obtain ⟨i, hi, rfl⟩ := List.getElem_of_mem hmem
      rw [hget, decide_eq_true_iff] at hle
      exact hgt (hle.trans (permitted_mono (by omega)))

end FlashSpeed

namespace F1

def flashSpeed : FlashSpeed := ⟨24, 72⟩

theorem minLatency_eq (hclkFreq : Nat) :
    minLatency hclkFreq = latencyOf (flashSpeed.limits 2) hclkFreq := rfl

end F1

namespace F4

/-- The step is longer at a higher voltage. -/
def flashSpeed (systemVoltage : Nat) : FlashSpeed where
  stepMhz := if systemVoltage ≤ 2100 then 20 else if systemVoltage ≤ 2400 then 22
    else if systemVoltage ≤ 2700 then 24 else 30
  maxMhz := if systemVoltage ≤ 2100 then 160 else 168

/-- The number of wait states for the highest frequency. -/
def maxLatency (systemVoltage : Nat) : Nat :=
  if systemVoltage ≤ 2400 then 7 else if systemVoltage ≤ 2700 then 6 else 5

theorem minLatency_eq {systemVoltage : Nat} (h : systemVoltage ≤ 3600) (hclkFreq : Nat) :
    minLatency hclkFreq systemVoltage =
      latencyOf ((flashSpeed systemVoltage).limits (maxLatency systemVoltage)) hclkFreq := by
  simp only [minLatency, flashSpeed, maxLatency]
  rcases Nat.lt_or_ge 2100 systemVoltage with h21 | h21
  · rcases Nat.lt_or_ge 2400 systemVoltage with h24 | h24
    · rcases Nat.lt_or_ge 2700 systemVoltage with h27 | h27
      · simp only [h21.not_ge, h24.not_ge, h27.not_ge, h, ↓reduceIte]
        rfl
      · simp only [h21.not_ge, h24.not_ge, h27, ↓reduceIte]
        rfl
    · simp only [h21.not_ge, h24, ↓reduceIte]
      rfl
  · simp only [h21, h21.trans (by decide : 2100 ≤ 2400), ↓reduceIte]
    rfl

end F4

end OpenMptl
