/-
The system clocks of the F4 family: the factors of the PLL are computed from the two
frequencies, and two registers are reset at once.
-/
import Mathlib.Algebra.Order.Archimedean.Basic
import OpenMptl.ClockStartup
import OpenMptl.FlashLatency
import OpenMptl.TypelistLaws

namespace OpenMptl

open Patch

namespace F4

/-- `RCC::CFGR` -/
def rccCfgr : Reg := ⟨.uint32, rccBaseAddr + 0x08, .rw, 0x00000000, ValueType.two_pow_width_pos _⟩

/-- `FLASH::ACR` -/
def flashAcr : Reg := ⟨.uint32, 0x40023C00 + 0x00, .rw, 0x00000000, ValueType.two_pow_width_pos _⟩

/-- The factors of the PLL are in a register of their own. -/
def clockRegs : ClockRegs := ⟨rccBaseAddr, rccCfgr, pllcfgr, 0xffffffff, flashAcr⟩

theorem clockRegs_wellFormed : clockRegs.WellFormed where
  cfgr_ne_cr := by decide
  acr_ne_cr := by decide
  acr_ne_cfgr := by decide
  pllReg_ne_cr := by decide
  pllReg_ne_acr := by decide
  cfgr_width := rfl
  pllMask_high := fun h => absurd h (by decide)

section Fields

variable (T : Target)

def hpre : Regbits T := .ofLow T rccCfgr 4 4 (by decide)

def ppre1 : Regbits T := .ofLow T rccCfgr 10 3 (by decide)

def ppre2 : Regbits T := .ofLow T rccCfgr 13 3 (by decide)

/-- `RCC::PLLCFGR::PLLSRC` -/
def pllsrc : Regbits T := pllcfgrField T 22 1 (by decide)

/-- `FLASH::ACR::LATENCY` -/
def latency : Regbits T := .ofLow T flashAcr 0 3 (by decide)

/-- `flash::latency::minimum<system_clock_type, pwr_type>` -/
def latencyMinimum (hclkFreq systemVoltage : Nat) : Except CompileError (Regval T) :=
  regval (latency T) (minLatency hclkFreq systemVoltage)

end Fields

section Lists

variable (T : Target) (clock : SystemClockHse)

/-- DIV1, DIV4 and DIV2. -/
def prescalers : List (FieldValue T) := [(hpre T, 0x0), (ppre1 T, 0x5), (ppre2 T, 0x4)]

/-- The arguments of `system_clock_pllcfgr<>::type`. -/
def factors (pll : Pll) : List (FieldValue T) :=
  [(pllm T, pll.m), (plln T, pll.n), (pllp T, (pll.p >>> 1) - 1), (pllq T, pll.q)]

/-- The arguments of `cfg_list`, with the field PLLSRC at the end. -/
def cfgTrees (div pll : List (Regval T)) : List (ListTree Element) :=
  (div.map fun t => .leaf (.regmask t.toRegmaskType)) ++
    [regvalTree pll, .leaf (.regmask (pllsrc T).toRegmaskType)]

/-- `cfg_list` -/
def cfgList : Except CompileError (List (ListTree Element)) := do
  let div ← regvals (prescalers T)
  let type ← clock.pll.constants T
  return cfgTrees T div type

/-- `cfg_list::strict_reset_to<RCC::CFGR, RCC::PLLCFGR>()` -/
def resetCfgr : Except CompileError (StatusBus → StatusBus) := do
  let trees ← cfgList T clock
  strictResetTo (statusAccess clockRegs.status) trees [rccCfgr, pllcfgr]

/-- `system_clock_hse<>` -/
def systemClock (cfg : BitbandConfig) : Except CompileError (SystemClockType StatusBus) :=
  systemClockType T clockRegs cfg clockRegs_wellFormed.cfgr_width (resetCfgr T clock)

end Lists

/-- The frequency of the core when the PLL drives the system clock. -/
def coreFreq (hseFreq : Nat) (f : RegFile) : ℚ :=
  (Pll.ofPllcfgr (f.value pllcfgr)).realSysclk hseFreq /
    ahbDivider (fieldOf 4 4 (f.value rccCfgr))

/-- The registers stand for the factors and for the clocks of the members. -/
structure Delivers (clock : SystemClockHse) (cfgr pllcfgr : Nat) : Prop where
  source : fieldOf 22 1 pllcfgr = 1
  pll : Pll.ofPllcfgr pllcfgr = clock.pll
  hclk : ahbDivider (fieldOf 4 4 cfgr) = 1
  pclk1 : clock.hclkFreq / apbDivider (fieldOf 10 3 cfgr) = clock.pclk1Freq
  pclk2 : clock.hclkFreq / apbDivider (fieldOf 13 3 cfgr) = clock.pclk2Freq

/-- Wait states that are accepted suffice. -/
theorem minLatency_enough {hclkFreq systemVoltage : Nat}
    (h : minLatency hclkFreq systemVoltage < 8) :
    hclkFreq ≤ (flashSpeed systemVoltage).permitted (minLatency hclkFreq systemVoltage) := by
  rcases Nat.lt_or_ge 3600 systemVoltage with hhigh | hle
  · have hnone : minLatency hclkFreq systemVoltage = 0xff := by
      rw [minLatency, if_neg (by omega), if_neg (by omega), if_neg (by omega), if_neg (by omega)]
    rw [hnone] at h
    exact absurd h (by decide)
  · have hmax : (flashSpeed systemVoltage).maxMhz ≤ 432 := by
      change (if systemVoltage ≤ 2100 then 160 else 168) ≤ 432
      split <;> decide
    have hlimits := FlashSpeed.latencyOf_limits hmax hclkFreq (maxLatency systemVoltage)
    rw [← minLatency_eq hle] at hlimits
    split at hlimits
    · exact hlimits.2.enough
    · rw [hlimits] at h
      exact absurd h (by decide)

section Setup

variable {T : Target} {clock : SystemClockHse} {outputFreq hseFreq : Nat}

def prescalerKeys : List FieldKey := [⟨rccCfgr, 4, 4⟩, ⟨rccCfgr, 10, 3⟩, ⟨rccCfgr, 13, 3⟩]

def factorKeys : List FieldKey :=
  [⟨pllcfgr, 0, 6⟩, ⟨pllcfgr, 6, 9⟩, ⟨pllcfgr, 16, 2⟩, ⟨pllcfgr, 24, 4⟩]

def sourceKey : FieldKey := ⟨pllcfgr, 22, 1⟩

theorem keys_apart :
    (prescalerKeys ++ factorKeys ++ [sourceKey]).Pairwise FieldKey.Apart := by decide

theorem prescalers_fit : ∀ x ∈ prescalers T, FieldValue.Fits x := by
  simp only [prescalers, List.mem_cons, List.not_mem_nil, or_false, forall_eq_or_imp, forall_eq]
  refine ⟨⟨?_, ?_⟩, ⟨?_, ?_⟩, ⟨?_, ?_⟩⟩
  · exact Regbits.maskWidth_eq _ T.ulongWidth_ge
  · exact Nat.two_pow_pos _
  · exact Regbits.maskWidth_eq _ T.ulongWidth_ge
  · change 5 < 2 ^ 3
    decide
  · exact Regbits.maskWidth_eq _ T.ulongWidth_ge
  · change 4 < 2 ^ 3
    decide

theorem factors_fit (h : systemClockPllcfgr outputFreq hseFreq = .ok clock.pll) :
    ∀ x ∈ factors T clock.pll, FieldValue.Fits x := by
  obtain ⟨-, ⟨-, hm⟩, hp, -, hq, -, hn⟩ := systemClockPllcfgr_eq_ok h
  simp only [factors, List.mem_cons, List.not_mem_nil, or_false, forall_eq_or_imp, forall_eq]
  refine ⟨⟨?_, ?_⟩, ⟨?_, ?_⟩, ⟨?_, ?_⟩, ⟨?_, ?_⟩⟩
  · exact Regbits.maskWidth_eq _ T.ulongWidth_ge
  · change clock.pll.m < 2 ^ 6
    omega
  · exact Regbits.maskWidth_eq _ T.ulongWidth_ge
  · change clock.pll.n < 2 ^ 9
    omega
  · exact Regbits.maskWidth_eq _ T.ulongWidth_ge
  · rw [hp]
    exact Nat.two_pow_pos _
  · exact Regbits.maskWidth_eq _ T.ulongWidth_ge
  · change clock.pll.q < 2 ^ 4
    omega

theorem keys_reg : ∀ k ∈ prescalerKeys ++ factorKeys ++ [sourceKey],
    k.reg ∈ [rccCfgr, pllcfgr] ∧ (k.reg = rccCfgr → 2 ≤ k.offset) := by decide

theorem leaves_map (vals : List (Regval T)) :
    (vals.map fun t => ListTree.leaf (Element.regmask t.toRegmaskType)) =
      ((regvalElements vals).map Element.regmask).map .leaf := by
  rw [regvalElements, List.map_map, List.map_map]
  rfl

/-- The list as the compiler sees it, without its tree. -/
theorem leavesAll_cfgTrees (div pll : List (Regval T)) :
    ListTree.leavesAll (cfgTrees T div pll) =
      (regvalElements div ++ regvalElements pll ++ [(pllsrc T).toRegmaskType]).map
        Element.regmask := by
  rw [cfgTrees, leaves_map, ListTree.leavesAll_append, leavesAll_leaf]
  simp only [ListTree.leavesAll, ListTree.leaves, leaves_regvalTree, List.map_append,
    List.append_assoc, List.append_nil, List.map_cons, List.map_nil]

theorem checkAll_cfgTrees (div : List (Regval T)) {pll : List (Regval T)}
    (h : ∀ r, AllCompatible (patches (onReg (regvalElements pll) r))) :
    ListTree.checkAll (cfgTrees T div pll) = .ok () := by
  rw [cfgTrees, leaves_map, ListTree.checkAll_append, checkAll_leaf]
  simp only [ListTree.checkAll, check_regvalTree h, ListTree.check]
  rfl

/-- What the strict reset stores to the two registers. -/
theorem exists_resetCfgr (T : Target)
    (h : systemClockPllcfgr outputFreq hseFreq = .ok clock.pll) :
    ∃ (rs : List Reg) (value : Reg → Nat),
      resetCfgr T clock = .ok (StatusBus.storeEach rs value) ∧
      (∀ r, r ∈ rs ↔ r ∈ [rccCfgr, pllcfgr]) ∧ (∀ r, value r < 2 ^ r.width) ∧
      fieldOf 0 2 (value rccCfgr) = 0 ∧ fieldOf 22 1 (value pllcfgr) = 1 ∧
      ∀ x ∈ prescalers T ++ factors T clock.pll,
        fieldOf x.1.offset x.1.width (value x.1.reg) = x.2 := by
  obtain ⟨div, hdiv⟩ := exists_regvals (prescalers_fit (T := T))
  obtain ⟨pll, hpll⟩ := exists_regvals (factors_fit (T := T) h)
  have hdivIs := regvals_eq_ok_iff.mp hdiv
  have hpllIs := regvals_eq_ok_iff.mp hpll
  have hdivOn : List.Forall₂ RegmaskType.OnField prescalerKeys (regvalElements div) :=
    onField_regvals hdivIs prescalers_fit
  have hpllOn : List.Forall₂ RegmaskType.OnField factorKeys (regvalElements pll) :=
    onField_regvals hpllIs (factors_fit h)
  have hsrc : RegmaskType.OnField sourceKey (pllsrc T).toRegmaskType :=
    Regbits.onField ((pllsrc T).maskWidth_eq T.ulongWidth_ge)
  have hon : List.Forall₂ RegmaskType.OnField (prescalerKeys ++ factorKeys ++ [sourceKey])
      (regvalElements div ++ regvalElements pll ++ [(pllsrc T).toRegmaskType]) :=
    List.rel_append (List.rel_append hdivOn hpllOn) (.cons hsrc .nil)
  have hcompat := RegmaskType.allCompatible_of_apart hon keys_apart
  generalize hts : regvalElements div ++ regvalElements pll ++ [(pllsrc T).toRegmaskType] = ts
    at hon hcompat
  have hkeys : ∀ t ∈ ts, t.reg ∈ [rccCfgr, pllcfgr] := by
    intro t ht
    obtain ⟨k, hk, htk⟩ := exists_of_mem_forall₂ hon.flip ht
    rw [htk.reg]
    exact (keys_reg k hk).1
  have hleaves := leavesAll_cfgTrees div pll
  rw [hts] at hleaves
  have hcheck := checkAll_cfgTrees div
    (RegmaskType.allCompatible_of_apart hpllOn (by decide : factorKeys.Pairwise FieldKey.Apart))
  obtain ⟨prog, hprog⟩ := (exists_strictResetTo_leaves_iff (A := statusAccess clockRegs.status)
    hleaves hcheck hkeys (by decide)).mpr hcompat
  obtain ⟨l, rs, hl, hrs, rfl⟩ := strictResetTo_eq_stores hprog
  have helements := elements_of_reglistOf hleaves hl
  rw [helements] at hprog
  have hmem : ∀ t ∈ ts, t ∈ onReg ts t.reg := fun t ht => mem_onReg.mpr ⟨ht, rfl⟩
  refine ⟨rs, fun r => resetUnion r (onReg ts r), ?_, hrs,
    fun r => resetUnion_lt fun t ht => (mem_onReg.mp ht).2, ?_, ?_, fun x hx => ?_⟩
  · simp only [resetCfgr, cfgList, bind_eq_ok_iff, pure_eq_ok_iff]
    exact ⟨_, ⟨div, hdiv, pll, hpll, rfl⟩, hprog⟩
  · rw [fieldOf_resetUnion_of_apart]
    · rfl
    · intro t ht
      obtain ⟨ht, htreg⟩ := mem_onReg.mp ht
      obtain ⟨k, hk, htk⟩ := exists_of_mem_forall₂ hon.flip ht
      rw [htk.clear]
      exact disjoint_fieldBits (.inr ((keys_reg k hk).2 (htk.reg.symm.trans htreg)))
  · have hmask : (pllsrc T).clearMask = 2 ^ 22 := (pllsrc T).clearMask_eq_two_pow rfl
    have hbit : (pllsrc T).clearMask.testBit 22 = true := by
      rw [hmask, Nat.testBit_two_pow_self]
    have hsrcMem : (pllsrc T).toRegmaskType ∈ ts := by
      rw [← hts]
      exact List.mem_append_right _ List.mem_cons_self
    refine fieldOf_one_iff.mpr ?_
    rw [testBit_resetUnion (hcompat pllcfgr) (hmem _ hsrcMem) hbit]
    exact hbit
  · have hIs := List.rel_append hdivIs hpllIs
    obtain ⟨v, hv, hxv⟩ := exists_of_mem_forall₂ hIs hx
    have hfits : FieldValue.Fits x :=
      (List.mem_append.mp hx).elim (prescalers_fit x) (factors_fit h x)
    have hvmem : v.toRegmaskType ∈ ts := by
      rw [← hts, regvalElements, regvalElements, ← List.map_append]
      exact List.mem_append_left _ (List.mem_map_of_mem hv)
    have hreg : v.toRegmaskType.reg = x.1.reg := congrArg Regbits.reg hxv.field
    exact hxv.fieldOf_resetUnion hfits (hcompat x.1.reg) (hreg ▸ hmem _ hvmem)

/-- What a register with the arguments makes of the oscillator. -/
theorem delivers_of_fields {value : Reg → Nat} {permitted : Nat → Nat} {hclkFreq : ℚ}
    (h : systemClockHse outputFreq hseFreq = .ok clock)
    (hsrc : fieldOf 22 1 (value pllcfgr) = 1)
    (hfields : ∀ x ∈ prescalers T ++ factors T clock.pll,
      fieldOf x.1.offset x.1.width (value x.1.reg) = x.2) {f : RegFile}
    (hf : Configured clockRegs permitted hclkFreq value f) :
    Delivers clock (f.value rccCfgr) (f.value pllcfgr) := by
  obtain ⟨hpll, -, hhclk, hpclk1, hpclk2⟩ := systemClockHse_eq_ok h
  have hpllReg : f.value pllcfgr = value pllcfgr := hf.pllReg (by decide)
  simp only [prescalers, factors, List.cons_append, List.nil_append, List.mem_cons,
    List.not_mem_nil, or_false, forall_eq_or_imp, forall_eq] at hfields
  obtain ⟨hhpre, hppre1, hppre2, hm, hn, hp, hq⟩ := hfields
  have hhpre : fieldOf 4 4 (f.value rccCfgr) = 0 := (hf.fieldOf_cfgr (by decide)).trans hhpre
  have hppre1 : fieldOf 10 3 (f.value rccCfgr) = 5 := (hf.fieldOf_cfgr (by decide)).trans hppre1
  have hppre2 : fieldOf 13 3 (f.value rccCfgr) = 4 := (hf.fieldOf_cfgr (by decide)).trans hppre2
  have hm : fieldOf 0 6 (value pllcfgr) = clock.pll.m := hm
  have hn : fieldOf 6 9 (value pllcfgr) = clock.pll.n := hn
  have hp : fieldOf 16 2 (value pllcfgr) = (clock.pll.p >>> 1) - 1 := hp
  have hq : fieldOf 24 4 (value pllcfgr) = clock.pll.q := hq
  obtain ⟨-, -, hptwo, -⟩ := systemClockPllcfgr_eq_ok hpll
  have hpdouble : 2 * ((clock.pll.p >>> 1) - 1 + 1) = clock.pll.p := by
    rw [hptwo]
    rfl
  refine ⟨hpllReg ▸ hsrc, ?_, ?_, ?_, ?_⟩
  · rw [Pll.ofPllcfgr, hpllReg, hm, hn, hp, hq, hpdouble]
  · rw [hhpre]
    rfl
  · rw [hppre1, hhclk, hpclk1]
    rfl
  · rw [hppre2, hhclk, hpclk2]
    rfl

theorem Delivers.coreFreq_eq {f : RegFile}
    (h : Delivers clock (f.value rccCfgr) (f.value pllcfgr)) :
    coreFreq hseFreq f = clock.pll.realSysclk hseFreq := by
  rw [coreFreq, h.pll, h.hclk, Nat.cast_one, div_one]

/-- The PLL does not exceed what is declared, where the oscillator is what the factors
stand for. -/
theorem realSysclk_le (h : systemClockHse outputFreq hseFreq = .ok clock)
    (hhse : 1000000 ∣ hseFreq) : clock.pll.realSysclk hseFreq ≤ outputFreq := by
  obtain ⟨hpll, hout, -⟩ := systemClockHse_eq_ok h
  obtain ⟨hm, ⟨hmge, -⟩, hp, hn, -⟩ := systemClockPllcfgr_eq_ok hpll
  rw [Nat.mod_eq_of_lt (by omega)] at hn
  have hhse : hseFreq = 1000000 * clock.pll.m := by omega
  have hreal : clock.pll.realSysclk hseFreq = (1000000 * (outputFreq / 1000000) : Nat) := by
    rw [Pll.realSysclk, Pll.realVcoOutput_div_eq_iff (by omega) (by omega), hhse, hn, hp]
    push_cast
    ring
  rw [hreal]
  exact_mod_cast Nat.mul_div_le outputFreq 1000000

end Setup

end F4

namespace SystemClockF4Test

open F4

/-- The early configuration of a program that only blinks, at 3.3 V. -/
def earlyTrees : Except CompileError (List (ListTree Element)) := do
  let minimum ← latencyMinimum RegbitsTest.arm (mhz 168) 3300
  return [.leaf (.regmask minimum.toRegmaskType)]

theorem earlyTrees_early : ∃ trees early, earlyTrees = .ok trees ∧
    EarlyCfg clockRegs (latencyMinimum RegbitsTest.arm (mhz 168) 3300) trees early := by
  refine ⟨_, _, rfl, rfl, ⟨_, rfl, ?_⟩, ?_⟩
  · exact List.mem_cons_self
  · decide

/-- HSERDY is shown by the second reading. -/
def readings : List Nat := [0, 0x00020000, 0x02000000, 0, 0x8]

end SystemClockF4Test

end OpenMptl
