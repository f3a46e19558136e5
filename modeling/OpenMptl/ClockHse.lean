/-
The system clock from an external oscillator.  The PLL factors are computed, and
all assertions evaluated, for a VCO input of 1 MHz; the real frequencies are
those of the oscillator that is given.
-/
import Mathlib.Algebra.Order.Field.Rat
import Mathlib.Tactic.Ring
import Mathlib.Tactic.Linarith
import OpenMptl.RegvalTest

namespace OpenMptl

/-! What a PLL makes of an oscillator frequency. -/

/-- The division factors `m`, `p` and `q` and the multiplication factor `n`. -/
structure Pll where
  m : Nat
  n : Nat
  p : Nat
  q : Nat

namespace Pll

variable (pll : Pll) (hse : ℚ)

def realVcoInput : ℚ := hse / pll.m

def realVcoOutput : ℚ := pll.realVcoInput hse * pll.n

def realSysclk : ℚ := pll.realVcoOutput hse / pll.p

def realPll48clk : ℚ := pll.realVcoOutput hse / pll.q

variable {pll hse}

theorem realVcoInput_eq_iff (hm : 0 < pll.m) {f : ℚ} :
    pll.realVcoInput hse = f ↔ hse = f * pll.m := by
  have hm : (pll.m : ℚ) ≠ 0 := by exact_mod_cast hm.ne'
  exact div_eq_iff hm

/-- A clock divided from the VCO output, compared without fractions. -/
theorem realVcoOutput_div_eq_iff (hm : 0 < pll.m) {d : Nat} (hd : 0 < d) {f : ℚ} :
    pll.realVcoOutput hse / d = f ↔ hse * pll.n = f * pll.m * d := by
  have hm : (pll.m : ℚ) ≠ 0 := by exact_mod_cast hm.ne'
  have hd : (d : ℚ) ≠ 0 := by exact_mod_cast hd.ne'
  rw [realVcoOutput, realVcoInput, div_eq_iff hd, div_mul_eq_mul_div, div_eq_iff hm,
    mul_right_comm]

end Pll

/-! The computation of `system_clock_hse<output_freq, hse_freq>`. -/

/-- `mhz()`; a `freq_t` is an `unsigned int`. -/
def mhz (x : Nat) : Nat := x * 1000 * 1000 % 2 ^ 32

/-- A failed `static_assert` of the clock setup. -/
inductive ClockError
  /-- "illegal PLLP value" -/
  | illegalPllp
  /-- "illegal PLLQ value" -/
  | illegalPllq
  /-- "illegal PLLN value" -/
  | illegalPlln
  /-- "illegal PLLM value" -/
  | illegalPllm
  /-- "illegal VCO input frequency" -/
  | illegalVcoInput
  /-- "illegal VCO output frequency" -/
  | illegalVcoOutput
  /-- "illegal PLL output frequency" -/
  | illegalPllOutput
  /-- "USB OTG FS is not available" -/
  | usbNotAvailable
  /-- "SDIO is not available" -/
  | sdioNotAvailable
  /-- "RNG is not available" -/
  | rngNotAvailable
  /-- "illegal output (HCLK) frequency" -/
  | illegalHclk
  /-- "illegal HSE frequency" -/
  | illegalHse
deriving DecidableEq, Repr

def staticAssert (condition : Prop) [Decidable condition] (e : ClockError) :
    Except ClockError Unit :=
  if condition then .ok () else .error e

theorem staticAssert_eq_ok_iff {condition : Prop} [Decidable condition] {e : ClockError} :
    staticAssert condition e = .ok () ↔ condition := by
  unfold staticAssert
  split <;> simp [*]

def vcoInput : Nat := mhz 1

/-- `system_clock_pllcfgr<output_freq, hse_freq>`, with `p` fixed to 2. -/
def systemClockPllcfgr (outputFreq hseFreq : Nat) : Except ClockError Pll := do
  let p := 2
  let m := hseFreq / vcoInput
  let n := outputFreq / vcoInput * p % 2 ^ 32
  -- the next higher value if n is not divisible
  let q := n / 48 + if n % 48 ≠ 0 then 1 else 0
  staticAssert (p = 2 ∨ p = 4 ∨ p = 6 ∨ p = 8) .illegalPllp
  staticAssert (q ≥ 2 ∧ q ≤ 15) .illegalPllq
  staticAssert (n ≥ 192 ∧ n ≤ 432) .illegalPlln
  staticAssert (m ≥ 2 ∧ m ≤ 63) .illegalPllm
  let vcoOutput := vcoInput * n % 2 ^ 32
  let pllOutput := vcoOutput / p
  let pll48clk := vcoOutput / q
  staticAssert (vcoInput ≥ mhz 1 ∧ vcoInput ≤ mhz 2) .illegalVcoInput
  staticAssert (vcoOutput ≥ mhz 192 ∧ vcoOutput ≤ mhz 432) .illegalVcoOutput
  staticAssert (pllOutput ≤ mhz 168) .illegalPllOutput
  staticAssert (pll48clk = mhz 48) .usbNotAvailable
  staticAssert (pll48clk ≤ mhz 48) .sdioNotAvailable
  staticAssert (pll48clk ≤ mhz 48) .rngNotAvailable
  return ⟨m, n, p, q⟩

/-- The members of `system_clock_hse<>`, and the parameters it programs. -/
structure SystemClockHse where
  pll : Pll
  hclkFreq : Nat
  pclk1Freq : Nat
  pclk2Freq : Nat

def systemClockHse (outputFreq hseFreq : Nat) : Except ClockError SystemClockHse := do
  let pll ← systemClockPllcfgr outputFreq hseFreq
  staticAssert (outputFreq ≤ mhz 168) .illegalHclk
  staticAssert (hseFreq ≥ mhz 4 ∧ hseFreq ≤ mhz 26) .illegalHse
  return ⟨pll, outputFreq, outputFreq / 4, outputFreq / 2⟩

theorem vcoInput_eq : vcoInput = 1000000 := rfl

theorem mhz_eq {x : Nat} (h : x ≤ 432) : mhz x = x * 1000000 := by
  rw [mhz, Nat.mod_eq_of_lt (by omega)]
  omega

/-- A rounded up divisor yields 48 MHz only if nothing had to be rounded. -/
theorem eq_of_pll48clk {n q : Nat} (hq : q = n / 48 + if n % 48 ≠ 0 then 1 else 0)
    (h : 1000000 * n / q = 48 * 1000000) : n = 48 * q := by
  have hdown := Nat.div_mul_le_self (1000000 * n) q
  rw [h] at hdown
  split at hq <;> omega

/-- What the assertions leave: `n` is a multiple of 48. -/
theorem systemClockPllcfgr_eq_ok {outputFreq hseFreq : Nat} {pll : Pll}
    (h : systemClockPllcfgr outputFreq hseFreq = .ok pll) :
    pll.m = hseFreq / 1000000 ∧ (2 ≤ pll.m ∧ pll.m ≤ 63) ∧ pll.p = 2 ∧
      pll.n = outputFreq / 1000000 * 2 % 2 ^ 32 ∧ pll.n = 48 * pll.q ∧
      192 ≤ pll.n ∧ pll.n ≤ 336 := by
  simp only [systemClockPllcfgr, check_bind_eq_ok_iff, staticAssert_eq_ok_iff,
    pure_eq_ok_iff] at h
  rw [vcoInput_eq] at h
  obtain ⟨-, -, hn, hm, -, -, hpll, h48, -, -, rfl⟩ := h
  generalize outputFreq / 1000000 * 2 % 2 ^ 32 = n at *
  have hvco : 1000000 * n % 2 ^ 32 = 1000000 * n := Nat.mod_eq_of_lt (by omega)
  rw [hvco, mhz_eq (by decide)] at hpll h48
  have hnle : n ≤ 336 := by omega
  exact ⟨rfl, hm, rfl, rfl, eq_of_pll48clk rfl h48, hn.1, hnle⟩

/-! The `type` of `system_clock_pllcfgr<>` programs the factors. -/

section Pllcfgr

variable (T : Target)

/-- `RCC::PLLCFGR` -/
def pllcfgr : Reg := ⟨.uint32, 0x40023800 + 0x04, .rw, 0x24003010, by decide⟩

def pllcfgrField (offset width : Nat) (h : 1 ≤ width ∧ offset + width < 32) : Regbits T :=
  have hulong := T.ulongWidth_ge
  ⟨pllcfgr, offset, width, h.1, h.2.le, by omega, by omega⟩

def pllq : Regbits T := pllcfgrField T 24 4 (by decide)

def pllp : Regbits T := pllcfgrField T 16 2 (by decide)

def plln : Regbits T := pllcfgrField T 6 9 (by decide)

def pllm : Regbits T := pllcfgrField T 0 6 (by decide)

/-- The elements of `system_clock_pllcfgr<>::type`. -/
def Pll.constants (pll : Pll) : Except CompileError (List (Regval T)) :=
  [(pllm T, pll.m), (plln T, pll.n), (pllp T, (pll.p >>> 1) - 1), (pllq T, pll.q)].mapM
    fun (field, constant) => regval field constant

/-- The factors that the hardware reads from `RCC::PLLCFGR`. -/
def Pll.ofPllcfgr (v : Nat) : Pll where
  m := fieldOf 0 6 v
  n := fieldOf 6 9 v
  p := 2 * (fieldOf 16 2 v + 1)
  q := fieldOf 24 4 v

end Pllcfgr

theorem systemClockHse_eq_ok {outputFreq hseFreq : Nat} {clock : SystemClockHse}
    (h : systemClockHse outputFreq hseFreq = .ok clock) :
    systemClockPllcfgr outputFreq hseFreq = .ok clock.pll ∧ outputFreq ≤ 168000000 ∧
      clock.hclkFreq = outputFreq ∧ clock.pclk1Freq = outputFreq / 4 ∧
      clock.pclk2Freq = outputFreq / 2 := by
  obtain ⟨pll, hpll, h⟩ := bind_eq_ok_iff.mp h
  simp only [check_bind_eq_ok_iff, staticAssert_eq_ok_iff, pure_eq_ok_iff] at h
  obtain ⟨hout, -, rfl⟩ := h
  rw [mhz_eq (by decide)] at hout
  exact ⟨hpll, hout, rfl, rfl, rfl⟩

/-- The declared clocks are the real ones, and the real ones are legal. -/
structure SystemClockHse.Realises (clock : SystemClockHse) (outputFreq hseFreq : Nat) :
    Prop where
  exact : hseFreq * clock.pll.n = outputFreq * clock.pll.m * clock.pll.p
  hclk : clock.pll.realSysclk hseFreq = clock.hclkFreq
  pclk1 : clock.pll.realSysclk hseFreq / 4 = clock.pclk1Freq
  pclk2 : clock.pll.realSysclk hseFreq / 2 = clock.pclk2Freq
  vcoInput_ge : 1000000 ≤ clock.pll.realVcoInput hseFreq
  vcoInput_le : clock.pll.realVcoInput hseFreq ≤ 2000000
  sysclk_le : clock.pll.realSysclk hseFreq ≤ 168000000
  usb : clock.pll.realPll48clk hseFreq = 48000000

/-- The USB clock is right only for the oscillator that the factors stand for. -/
theorem eq_of_realPll48clk {pll : Pll} {hseFreq : Nat} (hm : 0 < pll.m)
    (hq : 0 < pll.q) (hn : pll.n = 48 * pll.q)
    (h : pll.realPll48clk hseFreq = 48000000) : hseFreq = 1000000 * pll.m := by
  have h48 := (Pll.realVcoOutput_div_eq_iff hm hq).mp h
  have hnat : hseFreq * pll.n = 48000000 * pll.m * pll.q := by exact_mod_cast h48
  have hcancel : hseFreq * (48 * pll.q) = 1000000 * pll.m * (48 * pll.q) := by
    rw [← hn, hnat, hn]
    ring
  exact Nat.eq_of_mul_eq_mul_right (by omega) hcancel

/-- An accepted clock setup is real exactly for whole numbers of MHz. -/
theorem systemClockHse_realises_iff {outputFreq hseFreq : Nat} {clock : SystemClockHse}
    (h : systemClockHse outputFreq hseFreq = .ok clock) :
    clock.Realises outputFreq hseFreq ↔ 1000000 ∣ hseFreq ∧ 1000000 ∣ outputFreq := by
  obtain ⟨hpll, hout, hhclk, hpclk1, hpclk2⟩ := systemClockHse_eq_ok h
  obtain ⟨hm, ⟨hmge, -⟩, hp, hn, hnq, hnge, hnle⟩ := systemClockPllcfgr_eq_ok hpll
  rw [Nat.mod_eq_of_lt (by omega)] at hn
  have hm0 : 0 < clock.pll.m := by omega
  have hp0 : 0 < clock.pll.p := by omega
  have hq0 : 0 < clock.pll.q := by omega
  constructor
  · intro hreal
    have hhse := eq_of_realPll48clk hm0 hq0 hnq hreal.usb
    have hexact := hreal.exact
    have hcancel : 1000000 * clock.pll.n * clock.pll.m = outputFreq * 2 * clock.pll.m := by
      rw [hhse, hp] at hexact
      linarith
    have hn2 := Nat.eq_of_mul_eq_mul_right hm0 hcancel
    exact ⟨⟨_, hhse⟩, outputFreq / 1000000, by omega⟩
  · rintro ⟨hhse, k, rfl⟩
    have hhse : hseFreq = 1000000 * clock.pll.m := by omega
    have hnk : clock.pll.n = k * 2 := by omega
    have hexact : hseFreq * clock.pll.n = 1000000 * k * clock.pll.m * clock.pll.p := by
      rw [hhse, hnk, hp]
      ring
    have hvco : clock.pll.realVcoInput hseFreq = 1000000 := by
      rw [Pll.realVcoInput_eq_iff hm0]
      exact_mod_cast hhse
    have hsys : clock.pll.realSysclk hseFreq = (1000000 * k : Nat) := by
      rw [Pll.realSysclk, Pll.realVcoOutput_div_eq_iff hm0 hp0]
      exact_mod_cast hexact
    have husb : clock.pll.realPll48clk hseFreq = 48000000 := by
      rw [Pll.realPll48clk, Pll.realVcoOutput_div_eq_iff hm0 hq0, hhse, hnq]
      push_cast
      ring
    refine ⟨hexact, ?_, ?_, ?_, ?_, ?_, ?_, husb⟩
    · rw [hsys, hhclk]
    · rw [hsys, hpclk1, show 1000000 * k / 4 = 250000 * k by omega]
      push_cast
      ring
    · rw [hsys, hpclk2, show 1000000 * k / 2 = 500000 * k by omega]
      push_cast
      ring
    · rw [hvco]
    · rw [hvco]
      norm_num
    · rw [hsys]
      exact_mod_cast hout

namespace ClockHseTest

/-- The default oscillator. -/
theorem systemClockHse_realises_iff_8mhz :
    ∃ clock, systemClockHse 168000000 8000000 = .ok clock ∧
      clock.Realises 168000000 8000000 := by
  refine ⟨⟨⟨8, 336, 2, 7⟩, 168000000, 42000000, 84000000⟩, rfl, ?_⟩
  exact (systemClockHse_realises_iff rfl).mpr ⟨by decide, by decide⟩

/-- An oscillator of 8.5 MHz passes all assertions and runs the core at 178.5 MHz. -/
theorem systemClockHse_not_realised :
    ∃ clock, systemClockHse 168000000 8500000 = .ok clock ∧
      ¬ clock.Realises 168000000 8500000 := by
  refine ⟨⟨⟨8, 336, 2, 7⟩, 168000000, 42000000, 84000000⟩, rfl, ?_⟩
  intro hreal
  have hexact := hreal.exact
  revert hexact
  decide

end ClockHseTest

end OpenMptl
