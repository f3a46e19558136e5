/-
The system clocks of the F1 family: a table of specialisations for one oscillator, with
one register for the prescalers and the PLL.
-/
import OpenMptl.ClockStartup
import OpenMptl.FlashLatency

namespace OpenMptl

open Patch

namespace F1

/-- `RCC::CFGR` -/
def rccCfgr : Reg := ⟨.uint32, rccBaseAddr + 0x4, .rw, 0x00000000, ValueType.two_pow_width_pos _⟩

/-- `FLASH::ACR` -/
def flashAcr : Reg := ⟨.uint32, 0x40022000 + 0x0, .rw, 0x00000030, by decide⟩

/-- PLLSRC, PLLXTPRE and PLLMUL are the factors of the PLL. -/
def clockRegs : ClockRegs := ⟨rccBaseAddr, rccCfgr, rccCfgr, 0x003f0000, flashAcr⟩

theorem clockRegs_wellFormed : clockRegs.WellFormed where
  cfgr_ne_cr := by decide
  acr_ne_cr := by decide
  acr_ne_cfgr := by decide
  pllReg_ne_cr := by decide
  pllReg_ne_acr := by decide
  cfgr_width := rfl
  pllMask_high := fun _ => by decide

section Fields

variable (T : Target)

def hpre : Regbits T := .ofLow T rccCfgr 4 4 (by decide)

def ppre1 : Regbits T := .ofLow T rccCfgr 8 3 (by decide)

def ppre2 : Regbits T := .ofLow T rccCfgr 11 3 (by decide)

def pllsrc : Regbits T := .ofLow T rccCfgr 16 1 (by decide)

def pllxtpre : Regbits T := .ofLow T rccCfgr 17 1 (by decide)

def pllmul : Regbits T := .ofLow T rccCfgr 18 4 (by decide)

/-- `FLASH::ACR::LATENCY` -/
def latency : Regbits T := .ofLow T flashAcr 0 3 (by decide)

/-- `flash::latency::minimum<system_clock_type>` -/
def latencyMinimum (hclkFreq : Nat) : Except CompileError (Regval T) :=
  regval (latency T) (minLatency hclkFreq)

/-- `flash::prefetch_buffer_enable` -/
def prefetchBufferEnable : Except CompileError (Regval T) :=
  regval (.ofLow T flashAcr 4 1 (by decide)) 1

end Fields

/-- A specialisation of `system_clock_hse<>`: its members, and the values of the fields of
CFGR that it resets. -/
structure SystemClockHse where
  hclkFreq : Nat
  pclk1Freq : Nat
  pclk2Freq : Nat
  hpre : Nat
  ppre1 : Nat
  ppre2 : Nat
  pllsrc : Nat
  pllxtpre : Nat
  pllmul : Nat

/-- There is no clock for other frequencies. -/
def systemClockHse (outputFreq hseFreq : Nat) : Option SystemClockHse :=
  let hclkFreq := outputFreq
  if hseFreq ≠ mhz 8 then none
  else if outputFreq = mhz 24 then
    -- DIV1, DIV1, DIV1, HSE, HSE_DIV2, MUL6
    some ⟨hclkFreq, hclkFreq, hclkFreq, 0x0, 0x0, 0x0, 0x1, 0x1, 0x4⟩
  else if outputFreq = mhz 36 then
    -- DIV1, DIV1, DIV1, HSE, HSE_DIV2, MUL9
    some ⟨hclkFreq, hclkFreq, hclkFreq, 0x0, 0x0, 0x0, 0x1, 0x1, 0x7⟩
  else if outputFreq = mhz 48 then
    -- DIV1, DIV2, DIV1, HSE, HSE_DIV1, MUL6
    some ⟨hclkFreq, hclkFreq / 2, hclkFreq, 0x0, 0x4, 0x0, 0x1, 0x0, 0x4⟩
  else if outputFreq = mhz 56 then
    -- DIV1, DIV2, DIV1, HSE, HSE_DIV1, MUL7
    some ⟨hclkFreq, hclkFreq / 2, hclkFreq, 0x0, 0x4, 0x0, 0x1, 0x0, 0x5⟩
  else if outputFreq = mhz 72 then
    -- DIV1, DIV2, DIV1, HSE, HSE_DIV1, MUL9
    some ⟨hclkFreq, hclkFreq / 2, hclkFreq, 0x0, 0x4, 0x0, 0x1, 0x0, 0x7⟩
  else none

namespace SystemClockHse

variable (T : Target) (clock : SystemClockHse)

/-- The arguments of `system_clock_hse_impl<>`. -/
def arguments : List (FieldValue T) :=
  [(F1.hpre T, clock.hpre), (F1.ppre1 T, clock.ppre1), (F1.ppre2 T, clock.ppre2),
    (F1.pllsrc T, clock.pllsrc), (F1.pllxtpre T, clock.pllxtpre), (F1.pllmul T, clock.pllmul)]

/-- `RCC::CFGR::reset_to<Tp...>()` -/
def resetCfgr : Except CompileError (StatusBus → StatusBus) := do
  let vals ← regvals (clock.arguments T)
  rccCfgr.resetTo (statusAccess clockRegs.status) (regvalElements vals)

def type (cfg : BitbandConfig) : Except CompileError (SystemClockType StatusBus) :=
  systemClockType T clockRegs cfg clockRegs_wellFormed.cfgr_width (clock.resetCfgr T)

end SystemClockHse

/-- What the hardware makes of CFGR: `PLLMUL` counts from a factor of 2. -/
def pllclk (hseFreq cfgr : Nat) : ℚ :=
  hseFreq / (fieldOf 17 1 cfgr + 1 : Nat) * (fieldOf 18 4 cfgr + 2 : Nat)

/-- The frequency of the core when the PLL drives the system clock. -/
def coreFreq (hseFreq : Nat) (f : RegFile) : ℚ :=
  pllclk hseFreq (f.value rccCfgr) / ahbDivider (fieldOf 4 4 (f.value rccCfgr))

/-- The clocks are those of the members. -/
structure Delivers (clock : SystemClockHse) (hseFreq : Nat) (f : RegFile) : Prop where
  source : fieldOf 16 1 (f.value rccCfgr) = 1
  hclk : coreFreq hseFreq f = clock.hclkFreq
  pclk1 : (clock.hclkFreq : ℚ) / apbDivider (fieldOf 8 3 (f.value rccCfgr)) = clock.pclk1Freq
  pclk2 : (clock.hclkFreq : ℚ) / apbDivider (fieldOf 11 3 (f.value rccCfgr)) = clock.pclk2Freq

/-- What the table holds. -/
structure SystemClockHse.Valid (clock : SystemClockHse) (hseFreq : Nat) : Prop where
  hclk_le : clock.hclkFreq ≤ flashSpeed.permitted 2
  hpre : clock.hpre = 0
  ppre1 : clock.ppre1 = 0 ∨ clock.ppre1 = 4
  ppre2 : clock.ppre2 = 0
  pllsrc : clock.pllsrc = 1
  pllxtpre : clock.pllxtpre < 2
  pllmul : clock.pllmul < 16
  sysclk : hseFreq * (clock.pllmul + 2) = clock.hclkFreq * (clock.pllxtpre + 1)
  pclk1 : clock.hclkFreq = clock.pclk1Freq * apbDivider clock.ppre1
  pclk2 : clock.hclkFreq = clock.pclk2Freq

theorem systemClockHse_valid {outputFreq hseFreq : Nat} {clock : SystemClockHse}
    (h : systemClockHse outputFreq hseFreq = some clock) :
    clock.hclkFreq = outputFreq ∧ clock.Valid hseFreq := by
  unfold systemClockHse at h
  dsimp only at h
  -- one case for each specialisation, where both frequencies are known
  split_ifs at h with hhse
  all_goals
    obtain rfl := Option.some.inj h
    rw [not_not] at hhse
    subst_vars
    refine ⟨rfl, ?_⟩
    constructor <;> decide

namespace SystemClockHse

variable {T : Target} {clock : SystemClockHse} {hseFreq : Nat}

theorem Valid.fits (h : clock.Valid hseFreq) : ∀ x ∈ clock.arguments T, FieldValue.Fits x := by
  have hppre1 : clock.ppre1 < 2 ^ 3 := by
    rcases h.ppre1 with hdiv | hdiv <;> rw [hdiv] <;> decide
  simp only [arguments, List.mem_cons, List.not_mem_nil, or_false, forall_eq_or_imp, forall_eq]
  refine ⟨⟨?_, ?_⟩, ⟨?_, hppre1⟩, ⟨?_, ?_⟩, ⟨?_, ?_⟩, ⟨?_, h.pllxtpre⟩, ⟨?_, h.pllmul⟩⟩
  · exact Regbits.maskWidth_eq _ T.ulongWidth_ge
  · rw [h.hpre]
    exact Nat.two_pow_pos _
  · exact Regbits.maskWidth_eq _ T.ulongWidth_ge
  · exact Regbits.maskWidth_eq _ T.ulongWidth_ge
  · rw [h.ppre2]
    exact Nat.two_pow_pos _
  · exact Regbits.maskWidth_eq _ T.ulongWidth_ge
  · rw [h.pllsrc]
    exact Nat.one_lt_two
  · exact Regbits.maskWidth_eq _ T.ulongWidth_ge
  · exact Regbits.maskWidth_eq _ T.ulongWidth_ge

def keys : List FieldKey :=
  [⟨rccCfgr, 4, 4⟩, ⟨rccCfgr, 8, 3⟩, ⟨rccCfgr, 11, 3⟩, ⟨rccCfgr, 16, 1⟩, ⟨rccCfgr, 17, 1⟩,
    ⟨rccCfgr, 18, 4⟩]

theorem arguments_keys (T : Target) (clock : SystemClockHse) :
    (clock.arguments T).map FieldValue.key = keys :=
  rfl

theorem keys_apart : keys.Pairwise FieldKey.Apart := by decide

theorem keys_reg : ∀ k ∈ keys, k.reg = rccCfgr ∧ 4 ≤ k.offset := by decide

/-- No argument is in SW and SWS. -/
theorem arguments_high : ∀ x ∈ clock.arguments T, 4 ≤ x.1.offset := by
  intro x hx
  have hkey : FieldValue.key x ∈ keys := by
    rw [← arguments_keys T clock]
    exact List.mem_map_of_mem hx
  exact (keys_reg _ hkey).2

/-- What the reset of CFGR leaves in its fields. -/
theorem Valid.resetCfgr (h : clock.Valid hseFreq) :
    ∃ value, clock.resetCfgr T = .ok (StatusBus.storeEach [rccCfgr] fun _ => value) ∧
      value < 2 ^ rccCfgr.width ∧ fieldOf 0 2 value = 0 ∧
      ∀ x ∈ clock.arguments T, fieldOf x.1.offset x.1.width value = x.2 := by
  obtain ⟨vals, hvals⟩ := exists_regvals (h.fits (T := T))
  have his := regvals_eq_ok_iff.mp hvals
  have hon := onField_regvals his h.fits
  rw [arguments_keys] at hon
  have hreg : ∀ t ∈ regvalElements vals, t.reg = rccCfgr := by
    intro t ht
    obtain ⟨k, hk, htk⟩ := exists_of_mem_forall₂ hon.flip ht
    rw [htk.reg, (keys_reg k hk).1]
  have hself : onReg (regvalElements vals) rccCfgr = regvalElements vals :=
    List.filter_eq_self.mpr fun t ht => decide_eq_true (hreg t ht).symm
  have hcompat : AllCompatible (patches (regvalElements vals)) := by
    have hall := RegmaskType.allCompatible_of_apart hon keys_apart rccCfgr
    rwa [hself] at hall
  refine ⟨resetUnion rccCfgr (regvalElements vals), ?_, resetUnion_lt hreg, ?_, fun x hx => ?_⟩
  · simp only [SystemClockHse.resetCfgr, bind_eq_ok_iff]
    exact ⟨vals, hvals, Reg.resetTo_eq_ok (by decide) hreg hcompat⟩
  · rw [fieldOf_resetUnion_of_apart]
    · rfl
    · intro t ht
      obtain ⟨k, hk, htk⟩ := exists_of_mem_forall₂ hon.flip ht
      rw [htk.clear]
      exact disjoint_fieldBits (.inr (le_trans (by decide) (keys_reg k hk).2))
  · obtain ⟨v, hv, hxv⟩ := exists_of_mem_forall₂ his hx
    exact hxv.fieldOf_resetUnion (h.fits x hx) hcompat (List.mem_map_of_mem hv)

end SystemClockHse

/-- The least number of wait states, and its constant. -/
theorem minLatency_fits (T : Target) {hclkFreq : Nat} (h : hclkFreq ≤ flashSpeed.permitted 2) :
    FieldValue.Fits (latency T, minLatency hclkFreq) ∧
      hclkFreq ≤ flashSpeed.permitted (minLatency hclkFreq) := by
  have hlimits := @FlashSpeed.latencyOf_limits flashSpeed (by decide) hclkFreq 2
  rw [if_pos h, ← minLatency_eq] at hlimits
  obtain ⟨hle, hleast⟩ := hlimits
  refine ⟨⟨Regbits.maskWidth_eq _ T.ulongWidth_ge, ?_⟩, hleast.enough⟩
  change minLatency hclkFreq < 2 ^ 3
  omega

theorem SystemClockHse.Valid.sysclk_eq {clock : SystemClockHse} {hseFreq : Nat}
    (h : clock.Valid hseFreq) :
    (hseFreq : ℚ) / (clock.pllxtpre + 1 : Nat) * (clock.pllmul + 2 : Nat) = clock.hclkFreq := by
  have hpos : ((clock.pllxtpre + 1 : Nat) : ℚ) ≠ 0 := by
    exact_mod_cast Nat.succ_ne_zero clock.pllxtpre
  rw [div_mul_eq_mul_div, div_eq_iff hpos]
  exact_mod_cast h.sysclk

theorem SystemClockHse.Valid.pclk1_eq {clock : SystemClockHse} {hseFreq : Nat}
    (h : clock.Valid hseFreq) :
    (clock.hclkFreq : ℚ) / apbDivider clock.ppre1 = clock.pclk1Freq := by
  have hpos : (apbDivider clock.ppre1 : ℚ) ≠ 0 := by
    rcases h.ppre1 with hdiv | hdiv <;> rw [hdiv] <;> decide
  rw [div_eq_iff hpos]
  exact_mod_cast h.pclk1

/-- A register that holds the arguments delivers the clocks. -/
theorem SystemClockHse.Valid.delivers {T : Target} {clock : SystemClockHse} {hseFreq : Nat}
    (h : clock.Valid hseFreq) {f : RegFile}
    (hfields : ∀ x ∈ clock.arguments T,
      fieldOf x.1.offset x.1.width (f.value rccCfgr) = x.2) : Delivers clock hseFreq f := by
  simp only [SystemClockHse.arguments, List.mem_cons, List.not_mem_nil, or_false,
    forall_eq_or_imp, forall_eq] at hfields
  obtain ⟨hhpre, hppre1, hppre2, hpllsrc, hpllxtpre, hpllmul⟩ := hfields
  have hhpre : fieldOf 4 4 (f.value rccCfgr) = 0 := hhpre.trans h.hpre
  have hppre1 : fieldOf 8 3 (f.value rccCfgr) = clock.ppre1 := hppre1
  have hppre2 : fieldOf 11 3 (f.value rccCfgr) = 0 := hppre2.trans h.ppre2
  have hpllxtpre : fieldOf 17 1 (f.value rccCfgr) = clock.pllxtpre := hpllxtpre
  have hpllmul : fieldOf 18 4 (f.value rccCfgr) = clock.pllmul := hpllmul
  refine ⟨hpllsrc.trans h.pllsrc, ?_, ?_, ?_⟩
  · rw [coreFreq, pllclk, hpllxtpre, hpllmul, h.sysclk_eq, hhpre]
    exact (congrArg _ Nat.cast_one).trans (div_one _)
  · rw [hppre1]
    exact h.pclk1_eq
  · rw [hppre2, ← h.pclk2]
    exact (congrArg _ Nat.cast_one).trans (div_one _)

end F1

namespace SystemClockF1Test

open F1

/-- `Kernel::flash_cfg` -/
def flashCfg : Except CompileError (List (ListTree Element)) := do
  let minimum ← latencyMinimum RegbitsTest.arm (mhz 72)
  let prefetch ← prefetchBufferEnable RegbitsTest.arm
  return [.node .reglist
    [.leaf (.regmask minimum.toRegmaskType), .leaf (.regmask prefetch.toRegmaskType)]]

theorem flashCfg_early : ∃ trees early, flashCfg = .ok trees ∧
    EarlyCfg clockRegs (latencyMinimum RegbitsTest.arm (mhz 72)) trees early := by
  refine ⟨_, _, rfl, rfl, ⟨_, rfl, ?_⟩, ?_⟩
  · exact List.mem_cons_self
  · decide

/-- HSERDY is shown by the second reading. -/
def readings : List Nat := [0, 0x00020000, 0x02000000, 0, 0x8]

end SystemClockF1Test

end OpenMptl
