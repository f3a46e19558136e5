/-
The SPI clock.  `max_frequency<>` compares the requested maximum with the rounded
down quotients of the peripheral clock, and ends in the slowest prescaler for
whatever lies below them.
-/
import Mathlib.Algebra.Order.Field.Rat
import Mathlib.Tactic.IntervalCases
import OpenMptl.Baudrate

namespace OpenMptl

/-- `clk_freq` -/
def spiClkFreq (spiNo : Nat) (clock : SystemClock) : Nat :=
  if spiNo = 1 then clock.pclk2Freq else clock.pclk1Freq

section Cr1

variable (T : Target) (baseAddr : Nat)

theorem two_pow_fast16_width_pos : 0 < 2 ^ T.fast16.width := Nat.two_pow_pos _

/-- `SPI_Common::CR1` -/
def spiCr1 : Reg := ⟨T.fast16, baseAddr + 0x00, .rw, 0x0000, two_pow_fast16_width_pos T⟩

theorem spiCr1_width_ge : 16 ≤ (spiCr1 T baseAddr).width := T.fast16_ge

/-- `CR1::BR` -/
def spiBr : Regbits T :=
  .ofLow T (spiCr1 T baseAddr) 3 3
    ⟨by decide, le_trans (by decide) (spiCr1_width_ge T baseAddr), by decide, by decide⟩

/-- "invalid baud rate prescaler" -/
def IsPrescaler (prescaler : Nat) : Prop :=
  prescaler = 2 ∨ prescaler = 4 ∨ prescaler = 8 ∨ prescaler = 16 ∨ prescaler = 32 ∨
    prescaler = 64 ∨ prescaler = 128 ∨ prescaler = 256

instance (prescaler : Nat) : Decidable (IsPrescaler prescaler) :=
  inferInstanceAs (Decidable (_ ∨ _))

/-- The constant of `CR1::BR::Prescaler<prescaler>`. -/
def prescalerBr (prescaler : Nat) : Nat :=
  if prescaler = 2 then 0x0
  else if prescaler = 4 then 0x1
  else if prescaler = 8 then 0x2
  else if prescaler = 16 then 0x3
  else if prescaler = 32 then 0x4
  else if prescaler = 64 then 0x5
  else if prescaler = 128 then 0x6
  else if prescaler = 256 then 0x7
  else 0

/-- The constant of `max_frequency<value>`. -/
def maxFrequencyBr (clkFreq value : Nat) : Nat :=
  if value = 0 then 0
  else if value ≥ clkFreq / 2 then 0
  else if value ≥ clkFreq / 4 then 1
  else if value ≥ clkFreq / 8 then 2
  else if value ≥ clkFreq / 16 then 3
  else if value ≥ clkFreq / 32 then 4
  else if value ≥ clkFreq / 64 then 5
  else if value ≥ clkFreq / 128 then 6
  else 7

/-- `max_frequency<value>` -/
def maxFrequency (spiNo : Nat) (clock : SystemClock) (value : Nat) :
    Except CompileError (Regval T) :=
  regval (spiBr T baseAddr) (maxFrequencyBr (spiClkFreq spiNo clock) value)

end Cr1

/-- The prescaler gives at most the requested frequency. -/
def Sufficient (clkFreq value prescaler : Nat) : Prop :=
  IsPrescaler prescaler ∧ (clkFreq : ℚ) / prescaler ≤ value

/-- The request is met by the smallest sufficient prescaler, and rejected when there is
none. -/
def MeetsMaximum {T : Target} (clkFreq value : Nat)
    (selected : Except CompileError (Regval T)) : Prop :=
  ((∃ prescaler, Sufficient clkFreq value prescaler) →
    ∃ t prescaler, selected = .ok t ∧ t.constant = prescalerBr prescaler ∧
      Sufficient clkFreq value prescaler ∧
      ∀ smaller, smaller < prescaler → ¬ Sufficient clkFreq value smaller) ∧
  ((¬ ∃ prescaler, Sufficient clkFreq value prescaler) → ∃ e, selected = .error e)

/-! The prescalers are the powers of two that BR encodes. -/

section Prescaler

variable {clkFreq value prescaler br : Nat}

theorem isPrescaler_two_pow (h : br ≤ 7) : IsPrescaler (2 ^ (br + 1)) := by
  interval_cases br <;> decide

theorem prescalerBr_two_pow (h : br ≤ 7) : prescalerBr (2 ^ (br + 1)) = br := by
  interval_cases br <;> rfl

theorem IsPrescaler.eq_two_pow (h : IsPrescaler prescaler) :
    prescalerBr prescaler ≤ 7 ∧ prescaler = 2 ^ (prescalerBr prescaler + 1) := by
  rcases h with rfl | rfl | rfl | rfl | rfl | rfl | rfl | rfl <;> decide

theorem IsPrescaler.pos (h : IsPrescaler prescaler) : 0 < prescaler := by
  rw [h.eq_two_pow.2]
  exact Nat.two_pow_pos _

/-- The rational bound without a fraction. -/
theorem sufficient_iff :
    Sufficient clkFreq value prescaler ↔
      IsPrescaler prescaler ∧ clkFreq ≤ value * prescaler := by
  refine and_congr_right fun h => ?_
  rw [div_le_iff₀ (by exact_mod_cast h.pos)]
  exact_mod_cast Iff.rfl

/-- Some prescaler is sufficient when the slowest one is. -/
theorem exists_sufficient_iff :
    (∃ prescaler, Sufficient clkFreq value prescaler) ↔ clkFreq ≤ 256 * value := by
  constructor
  · rintro ⟨prescaler, h⟩
    obtain ⟨hp, hle⟩ := sufficient_iff.mp h
    have h256 : prescaler ≤ 256 := by
      rw [hp.eq_two_pow.2]
      exact Nat.pow_le_pow_right Nat.two_pos (Nat.succ_le_succ hp.eq_two_pow.1)
    have hmul := Nat.mul_le_mul_left value h256
    omega
  · intro h
    exact ⟨256, sufficient_iff.mpr ⟨by decide, by omega⟩⟩

/-- What the ladder finds: the first of its quotients that is not above the request. -/
theorem maxFrequencyBr_spec (hvalue : 0 < value) :
    maxFrequencyBr clkFreq value ≤ 7 ∧
      (maxFrequencyBr clkFreq value < 7 →
        clkFreq / 2 ^ (maxFrequencyBr clkFreq value + 1) ≤ value) ∧
      ∀ br, br < maxFrequencyBr clkFreq value → value < clkFreq / 2 ^ (br + 1) := by
  generalize hladder : maxFrequencyBr clkFreq value = found
  unfold maxFrequencyBr at hladder
  split_ifs at hladder
  · omega
  all_goals
    subst hladder
    refine ⟨by omega, fun _ => by omega, fun br hbr => ?_⟩
    interval_cases br <;> omega

/-- Every selected constant fits the field. -/
theorem maxFrequency_eq_ok (T : Target) (baseAddr spiNo : Nat) (clock : SystemClock)
    (hvalue : 0 < value) :
    ∃ t, maxFrequency T baseAddr spiNo clock value = .ok t ∧
      t.constant = maxFrequencyBr (spiClkFreq spiNo clock) value := by
  have hle := (@maxFrequencyBr_spec (spiClkFreq spiNo clock) value hvalue).1
  have hulong := T.ulongWidth_ge
  have hmask : (spiBr T baseAddr).maskWidth = (spiBr T baseAddr).width := by
    simp only [Regbits.maskWidth, spiBr, Regbits.ofLow]
    omega
  obtain ⟨t, ht, -, hconstant⟩ := Regval.regval_eq_ok hmask (Nat.lt_succ_of_le hle)
  exact ⟨t, ht, hconstant⟩

/-- A prescaler passed over is too small, also as a fraction. -/
theorem not_sufficient_of_lt (hvalue : 0 < value) {smaller : Nat}
    (h : smaller < 2 ^ (maxFrequencyBr clkFreq value + 1)) :
    ¬ Sufficient clkFreq value smaller := by
  rw [sufficient_iff]
  rintro ⟨hp, hle⟩
  rw [hp.eq_two_pow.2, Nat.pow_lt_pow_iff_right (by decide)] at h
  have hquot := (maxFrequencyBr_spec hvalue).2.2 _ (Nat.lt_of_succ_lt_succ h)
  rw [← hp.eq_two_pow.2] at hquot
  have hpos := hp.pos
  have hmul := (Nat.le_div_iff_mul_le hpos).mp hquot
  rw [Nat.succ_mul] at hmul
  omega

/-- The selected prescaler is sufficient exactly when no quotient that equals the
request was rounded. -/
theorem selected_sufficient_iff (hvalue : 0 < value) :
    clkFreq ≤ value * 2 ^ (maxFrequencyBr clkFreq value + 1) ↔
      clkFreq ≤ 256 * value ∧
        ∀ k, 1 ≤ k → k ≤ 7 → clkFreq / 2 ^ k = value → 2 ^ k ∣ clkFreq := by
  obtain ⟨hle, hreached, hpassed⟩ := @maxFrequencyBr_spec clkFreq value hvalue
  generalize maxFrequencyBr clkFreq value = br at *
  constructor
  · intro h
    have hpow : 2 ^ (br + 1) ≤ 2 ^ 8 := Nat.pow_le_pow_right Nat.two_pos (by omega)
    refine ⟨?_, fun k hk hk7 hquot => ?_⟩
    · have hmul := Nat.mul_le_mul_left value hpow
      omega
    · have hpos := Nat.two_pow_pos k
      have hdown := Nat.div_mul_le_self clkFreq (2 ^ k)
      rw [hquot] at hdown
      have hk' : 2 ^ k ≤ 2 ^ (br + 1) :=
        Nat.le_of_mul_le_mul_left (hdown.trans h) hvalue
      have hbr : br = k - 1 := by
        have hle' := (Nat.pow_le_pow_iff_right (by decide : 1 < 2)).mp hk'
        by_contra hne
        have hlt := hpassed (k - 1) (by omega)
        rw [Nat.sub_add_cancel hk, hquot] at hlt
        exact lt_irrefl _ hlt
      rw [hbr, Nat.sub_add_cancel hk] at h
      exact ⟨value, by rw [Nat.mul_comm]; omega⟩
  · rintro ⟨h256, hround⟩
    rcases Nat.lt_or_ge br 7 with hlt | hge
    · have hpos := Nat.two_pow_pos (br + 1)
      rcases (hreached hlt).lt_or_eq with hbelow | heq
      · exact ((Nat.div_lt_iff_lt_mul hpos).mp hbelow).le
      · have hdvd := hround (br + 1) (by omega) (by omega) heq
        rw [← heq, Nat.div_mul_cancel hdvd]
    · obtain rfl : br = 7 := by omega
      omega

end Prescaler

/-- When a request for a maximum frequency is met. -/
theorem maxFrequency_meets_iff (T : Target) (baseAddr spiNo : Nat) (clock : SystemClock)
    (value : Nat) (hvalue : 0 < value) :
    MeetsMaximum (spiClkFreq spiNo clock) value
        (maxFrequency T baseAddr spiNo clock value) ↔
      spiClkFreq spiNo clock ≤ 256 * value ∧
        ∀ k, 1 ≤ k → k ≤ 7 → spiClkFreq spiNo clock / 2 ^ k = value →
          2 ^ k ∣ spiClkFreq spiNo clock := by
  obtain ⟨t, ht, hconstant⟩ := maxFrequency_eq_ok T baseAddr spiNo clock hvalue
  rw [← selected_sufficient_iff hvalue, MeetsMaximum, exists_sufficient_iff, ht]
  generalize spiClkFreq spiNo clock = clkFreq at *
  have hle := (@maxFrequencyBr_spec clkFreq value hvalue).1
  constructor
  · rintro ⟨hmet, hrejected⟩
    have h256 : clkFreq ≤ 256 * value := by
      by_contra hlt
      obtain ⟨e, he⟩ := hrejected hlt
      cases he
    obtain ⟨t', prescaler, ht', hbr, hsufficient, -⟩ := hmet h256
    cases ht'
    rw [← hconstant, hbr, ← hsufficient.1.eq_two_pow.2]
    exact (sufficient_iff.mp hsufficient).2
  · intro h
    have hsufficient := sufficient_iff.mpr ⟨isPrescaler_two_pow hle, h⟩
    refine ⟨fun _ => ⟨t, _, rfl, ?_, hsufficient, fun smaller hlt => ?_⟩, fun hnone => ?_⟩
    · rw [prescalerBr_two_pow hle, hconstant]
    · exact not_sufficient_of_lt hvalue hlt
    · exact absurd (exists_sufficient_iff.mp ⟨_, hsufficient⟩) hnone

namespace SpiFrequencyTest

/-- The peripheral clocks of `system_clock_hse<mhz(72)>`. -/
def clock72 : SystemClock := ⟨36000000, 72000000⟩

/-- At most 200 kHz are asked for, and SPI 1 runs at 281.25 kHz. -/
theorem maxFrequency_exceeds_200khz :
    maxFrequencyBr (spiClkFreq 1 clock72) 200000 = 7 ∧
      ¬ MeetsMaximum (spiClkFreq 1 clock72) 200000
        (maxFrequency RegbitsTest.arm 0x40013000 1 clock72 200000) := by
  refine ⟨by decide, fun h => ?_⟩
  have hnone : ¬ ∃ prescaler, Sufficient (spiClkFreq 1 clock72) 200000 prescaler := by
    rw [exists_sufficient_iff]
    decide
  obtain ⟨e, he⟩ := h.2 hnone
  cases he

/-- The LCD asks for 4 MHz and gets 2.25 MHz. -/
theorem maxFrequency_meets_iff_4mhz :
    MeetsMaximum (spiClkFreq 1 clock72) 4000000
      (maxFrequency RegbitsTest.arm 0x40013000 1 clock72 4000000) := by
  refine (maxFrequency_meets_iff RegbitsTest.arm 0x40013000 1 clock72 4000000 ?_).mpr
    ⟨?_, fun k hk hk7 hquot => ?_⟩
  · decide
  · decide
  · interval_cases k <;> exact absurd hquot (by decide)

end SpiFrequencyTest

end OpenMptl
