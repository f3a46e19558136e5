/-
Switching the system clock to the PLL.  The hardware works only if the PLL is fed by an
oscillator that has been seen to run, is selected after it has locked, and the flash
memory has its wait states by then; this is a property of the accesses on the bus, in
their order, whatever the status bits show and when.
-/
import Mathlib.Data.Rat.Cast.Order
import OpenMptl.BusMonitor
import OpenMptl.Crt
import OpenMptl.RccWait
import OpenMptl.RegvalList

namespace OpenMptl

/-- The registers of the clock setup; `pllMask` selects the bits of the PLL factors. -/
structure ClockRegs where
  baseAddr : Nat
  cfgr : Reg
  pllReg : Reg
  pllMask : Nat
  acr : Reg

namespace ClockRegs

variable (R : ClockRegs)

def cr : Reg := rccCr R.baseAddr

/-- HSIRDY, HSICAL, HSERDY and PLLRDY in CR, and SWS in CFGR. -/
def status (r : Reg) : Nat :=
  if r = R.cr then 0x0202ff02 else if r = R.cfgr then 0xc else 0

structure WellFormed : Prop where
  cfgr_ne_cr : R.cfgr ≠ R.cr
  acr_ne_cr : R.acr ≠ R.cr
  acr_ne_cfgr : R.acr ≠ R.cfgr
  pllReg_ne_cr : R.pllReg ≠ R.cr
  pllReg_ne_acr : R.pllReg ≠ R.acr
  cfgr_width : R.cfgr.width = 32
  /-- The factors are not in SW and SWS. -/
  pllMask_high : R.pllReg = R.cfgr → ∀ i < 4, R.pllMask.testBit i = false

end ClockRegs

/-! What the hardware knows: whether a clock has been ready since it was started. -/

structure ClockTree where
  file : RegFile
  hseReady : Bool
  pllReady : Bool

namespace ClockTree

/-- The bits 16 and 17 are HSEON and HSERDY, 24 and 25 are PLLON and PLLRDY. -/
def observe (R : ClockRegs) (c : ClockTree) : BusEvent → ClockTree
  | .read r v =>
      if r = R.cr then
        { c with
          hseReady := c.hseReady || (v.testBit 16 && v.testBit 17)
          pllReady := c.pllReady || (v.testBit 24 && v.testBit 25) }
      else c
  | .write r v =>
      let file := c.file.store r v
      { file
        hseReady := c.hseReady && (file.value R.cr).testBit 16
        pllReady := c.pllReady && (file.value R.cr).testBit 24 &&
          decide (file.value R.pllReg &&& R.pllMask = c.file.value R.pllReg &&& R.pllMask) }

/-- `permitted` is the highest frequency of the core with a number of wait states, and
`coreFreq` the one that the registers make of the oscillator. -/
structure Sound (R : ClockRegs) (permitted : Nat → Nat) (coreFreq : RegFile → ℚ) (c : ClockTree) :
    Prop where
  pll_fed : (c.file.value R.cr).testBit 24 = true → c.hseReady = true
  pll_locked : fieldOf 0 2 (c.file.value R.cfgr) = 2 → c.pllReady = true
  flash : fieldOf 0 2 (c.file.value R.cfgr) = 2 →
    coreFreq c.file ≤ permitted (fieldOf 0 3 (c.file.value R.acr))

end ClockTree

/-- The hardware demands a sound clock tree. -/
def ClockRegs.monitor (R : ClockRegs) (permitted : Nat → Nat) (coreFreq : RegFile → ℚ) :
    BusMonitor ClockTree :=
  ⟨ClockTree.observe R, ClockTree.Sound R permitted coreFreq⟩

/-- The clock tree is sound after every access on the bus. -/
def ClockRegs.SoundAlong (R : ClockRegs) (permitted : Nat → Nat) (coreFreq : RegFile → ℚ)
    (c : ClockTree) (events : List BusEvent) : Prop :=
  (R.monitor permitted coreFreq).GoodAlong c events

/-! The functions of both families. -/

section SystemClock

variable (T : Target) (R : ClockRegs) (cfg : BitbandConfig)

theorem ClockRegs.sw_fits {R : ClockRegs} (hcfgr : R.cfgr.width = 32) :
    1 ≤ 2 ∧ 0 + 2 ≤ R.cfgr.width ∧ 0 < 32 ∧ 2 < 32 := by
  omega

theorem ClockRegs.sws_fits {R : ClockRegs} (hcfgr : R.cfgr.width = 32) :
    1 ≤ 2 ∧ 2 + 2 ≤ R.cfgr.width ∧ 2 < 32 ∧ 2 < 32 := by
  omega

/-- `RCC::CFGR::SW` -/
def clockSw (hcfgr : R.cfgr.width = 32) : Regbits T :=
  .ofLow T R.cfgr 0 2 (ClockRegs.sw_fits hcfgr)

/-- `RCC::CFGR::SWS` -/
def clockSws (hcfgr : R.cfgr.width = 32) : Regbits T :=
  .ofLow T R.cfgr 2 2 (ClockRegs.sws_fits hcfgr)

/-- A bit of `RCC::CR`. -/
def crBit (i : Fin 32) : Regbits T := rccCrBit T R.baseAddr i i.isLt

/-- `RCC::CR::HSEON` -/
def hseon : Regbits T := crBit T R 16

/-- `RCC::CR::PLLON` -/
def pllon : Regbits T := crBit T R 24

/-- `RCC::CR::PLLRDY` -/
def pllrdy : Regbits T := crBit T R 25

/-- `rcc::hse_enable` -/
def hseEnable : Except CompileError (Regval T) := regval (hseon T R) 1

/-- `init()` and `configure()`; `resetCfgr` is the statement that the families differ in. -/
def systemClockType (hcfgr : R.cfgr.width = 32)
    (resetCfgr : Except CompileError (StatusBus → StatusBus)) :
    Except CompileError (SystemClockType StatusBus) := do
  let enable ← hseEnable T R
  let resetCfgr ← resetCfgr
  let swPll ← regval (clockSw T R hcfgr) 0x2
  let swsPll ← regval (clockSws T R hcfgr) 0x2
  return {
    init := do
      setMask R.status cfg enable.toRegmask
      poll R.status cfg (hserdy T R.baseAddr).toRegmask
    configure := do
      .modify resetCfgr
      setMask R.status cfg (pllon T R).toRegmask
      poll R.status cfg (pllrdy T R).toRegmask
      setMask R.status cfg swPll.toRegmask
      poll R.status cfg swsPll.toRegmask }

end SystemClock

/-! What a store or a load does to the tree. -/

namespace ClockTree

variable {R : ClockRegs} {permitted : Nat → Nat} {coreFreq : RegFile → ℚ} {c : ClockTree}

theorem observe_read (r : Reg) (v : Nat) :
    c.observe R (.read r v) =
      if r = R.cr then
        { c with
          hseReady := c.hseReady || (v.testBit 16 && v.testBit 17)
          pllReady := c.pllReady || (v.testBit 24 && v.testBit 25) }
      else c :=
  rfl

theorem observe_read_file (r : Reg) (v : Nat) : (c.observe R (.read r v)).file = c.file := by
  rw [observe_read]
  split <;> rfl

theorem hseReady_observe_read (r : Reg) (v : Nat) (h : c.hseReady = true) :
    (c.observe R (.read r v)).hseReady = true := by
  rw [observe_read]
  split
  · exact Bool.or_eq_true_iff.mpr (.inl h)
  · exact h

theorem pllReady_observe_read (r : Reg) (v : Nat) (h : c.pllReady = true) :
    (c.observe R (.read r v)).pllReady = true := by
  rw [observe_read]
  split
  · exact Bool.or_eq_true_iff.mpr (.inl h)
  · exact h

/-- A load can only show that more is ready. -/
theorem Sound.observe_read (h : c.Sound R permitted coreFreq) (r : Reg) (v : Nat) :
    (c.observe R (.read r v)).Sound R permitted coreFreq := by
  have hfile : (c.observe R (.read r v)).file = c.file := observe_read_file r v
  refine ⟨fun hon => ?_, fun hsw => ?_, fun hsw => ?_⟩
  · rw [hfile] at hon
    exact hseReady_observe_read r v (h.pll_fed hon)
  · rw [hfile] at hsw
    exact pllReady_observe_read r v (h.pll_locked hsw)
  · rw [hfile] at hsw ⊢
    exact h.flash hsw

end ClockTree

namespace ClockRegs

variable {R : ClockRegs}

theorem status_cr : R.status R.cr = 0x0202ff02 := if_pos rfl

theorem status_cfgr (h : R.cfgr ≠ R.cr) : R.status R.cfgr = 0xc := by
  rw [status, if_neg h, if_pos rfl]

end ClockRegs

/-! The stages of the setup. -/

section Stage

variable (R : ClockRegs) (permitted : Nat → Nat) (coreFreq : RegFile → ℚ) (c₀ : ClockTree)

/-- The tree after the accesses so far. -/
def StatusBus.tree (s : StatusBus) : ClockTree :=
  (R.monitor permitted coreFreq).after c₀ s.events

/-- What has been reached: `known` of the registers, and the clocks that are ready. -/
structure Stage (known : RegFile → Prop) (hse pll : Bool) (s : StatusBus) : Prop where
  sound : R.SoundAlong permitted coreFreq c₀ s.events
  file : (s.tree R permitted coreFreq c₀).file = s.file
  known : known s.file
  hseReady : hse = true → (s.tree R permitted coreFreq c₀).hseReady = true
  pllReady : pll = true → (s.tree R permitted coreFreq c₀).pllReady = true

variable {R permitted coreFreq c₀} {known known' : RegFile → Prop} {hse pll hse' pll' : Bool}
  {s : StatusBus}

theorem StatusBus.tree_didRead (r : Reg) :
    (s.didRead R.status r).tree R permitted coreFreq c₀ =
      (s.tree R permitted coreFreq c₀).observe R (.read r (s.shown R.status r)) :=
  BusMonitor.after_append

theorem StatusBus.tree_didWrite (r : Reg) (v : Nat) :
    (s.didWrite r v).tree R permitted coreFreq c₀ =
      (s.tree R permitted coreFreq c₀).observe R (.write r (v % 2 ^ r.width)) :=
  BusMonitor.after_append

theorem Stage.start (hfile : c₀.file = s.file) (hevents : s.events = [])
    (hsound : c₀.Sound R permitted coreFreq) (hknown : known s.file) :
    Stage R permitted coreFreq c₀ known false false s := by
  refine ⟨?_, ?_, hknown, fun h => ?_, fun h => ?_⟩
  · rw [hevents]
    exact BusMonitor.goodAlong_nil hsound
  · rw [StatusBus.tree, hevents]
    exact hfile
  · cases h
  · cases h

theorem Stage.didRead (h : Stage R permitted coreFreq c₀ known hse pll s) (r : Reg) :
    Stage R permitted coreFreq c₀ known hse pll (s.didRead R.status r) := by
  have htree : (s.didRead R.status r).tree R permitted coreFreq c₀ = _ :=
    StatusBus.tree_didRead r
  refine ⟨BusMonitor.goodAlong_append h.sound ?_, ?_, h.known, fun hh => ?_, fun hp => ?_⟩
  · exact ClockTree.Sound.observe_read h.sound.good r _
  · rw [htree, ClockTree.observe_read_file]
    exact h.file
  · rw [htree]
    exact ClockTree.hseReady_observe_read r _ (h.hseReady hh)
  · rw [htree]
    exact ClockTree.pllReady_observe_read r _ (h.pllReady hp)

theorem Stage.didWrite (h : Stage R permitted coreFreq c₀ known hse pll s) {r : Reg} {v : Nat}
    (hknown : known' (s.file.store r v))
    (hhse : hse' = true → hse = true ∧ ((s.file.store r v).value R.cr).testBit 16 = true)
    (hpll : pll' = true → pll = true ∧ ((s.file.store r v).value R.cr).testBit 24 = true ∧
      (s.file.store r v).value R.pllReg &&& R.pllMask = s.file.value R.pllReg &&& R.pllMask)
    (hfed : ((s.file.store r v).value R.cr).testBit 24 = true → hse' = true)
    (hlocked : fieldOf 0 2 ((s.file.store r v).value R.cfgr) = 2 → pll' = true ∧
      coreFreq (s.file.store r v) ≤ permitted (fieldOf 0 3 ((s.file.store r v).value R.acr))) :
    Stage R permitted coreFreq c₀ known' hse' pll' (s.didWrite r v) := by
  have htree : (s.didWrite r v).tree R permitted coreFreq c₀ = _ :=
    StatusBus.tree_didWrite r v
  have hfile : ((s.didWrite r v).tree R permitted coreFreq c₀).file = s.file.store r v := by
    rw [htree, ← h.file, ← RegFile.store_mod]
    rfl
  have hseReady : hse' = true →
      ((s.didWrite r v).tree R permitted coreFreq c₀).hseReady = true := by
    intro hh
    obtain ⟨hbefore, hbit⟩ := hhse hh
    rw [← hfile, htree] at hbit
    rw [htree]
    exact Bool.and_eq_true_iff.mpr ⟨h.hseReady hbefore, hbit⟩
  have pllReady : pll' = true →
      ((s.didWrite r v).tree R permitted coreFreq c₀).pllReady = true := by
    intro hp
    obtain ⟨hbefore, hbit, hmask⟩ := hpll hp
    rw [← hfile, htree] at hbit
    rw [← hfile, htree, ← h.file] at hmask
    rw [htree]
    exact Bool.and_eq_true_iff.mpr
      ⟨Bool.and_eq_true_iff.mpr ⟨h.pllReady hbefore, hbit⟩, decide_eq_true hmask⟩
  refine ⟨BusMonitor.goodAlong_append h.sound ?_, hfile, hknown, hseReady, pllReady⟩
  change ClockTree.Sound R permitted coreFreq
    ((s.tree R permitted coreFreq c₀).observe R (.write r (v % 2 ^ r.width)))
  rw [← htree]
  refine ⟨fun hon => ?_, fun hsw => ?_, fun hsw => ?_⟩
  · rw [hfile] at hon
    exact hseReady (hfed hon)
  · rw [hfile] at hsw
    exact pllReady (hlocked hsw).1
  · rw [hfile] at hsw ⊢
    exact (hlocked hsw).2

end Stage

end OpenMptl
