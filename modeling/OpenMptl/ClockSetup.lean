/-
The run of the clock setup, one stage after the other.  Each access is a store that
changes what is known of the registers, or a load that can only show that a clock has
become ready.
-/
import OpenMptl.ClockTree
import OpenMptl.RegvalFields

namespace OpenMptl

/-- What is known of HSEON, PLLON and SW, and of the rest. -/
structure Known (R : ClockRegs) (hseon pllon : Bool) (sw : Nat) (more : RegFile → Prop)
    (f : RegFile) : Prop where
  hseon : (f.value R.cr).testBit 16 = hseon
  pllon : (f.value R.cr).testBit 24 = pllon
  sw : fieldOf 0 2 (f.value R.cfgr) = sw
  more : more f

/-- The wait states of the flash memory permit the frequency. -/
def FlashReady (R : ClockRegs) (permitted : Nat → Nat) (hclkFreq : ℚ) (f : RegFile) : Prop :=
  hclkFreq ≤ permitted (fieldOf 0 3 (f.value R.acr))

/-- The prescalers and the factors of the PLL are those of `value`. -/
structure Configured (R : ClockRegs) (permitted : Nat → Nat) (hclkFreq : ℚ)
    (value : Reg → Nat) (f : RegFile) : Prop where
  flash : FlashReady R permitted hclkFreq f
  cfgr : ∀ i, 4 ≤ i → (f.value R.cfgr).testBit i = (value R.cfgr).testBit i
  pllReg : R.pllReg ≠ R.cfgr → f.value R.pllReg = value R.pllReg

section Setup

variable {T : Target} {R : ClockRegs} {cfg : BitbandConfig} {permitted : Nat → Nat}
  {coreFreq : RegFile → ℚ} {hclkFreq : ℚ} {c₀ : ClockTree} {value : Reg → Nat} {t : Regmask}

/-- The run has been sound where it hangs. -/
def SoundSoFar (R : ClockRegs) (permitted : Nat → Nat) (coreFreq : RegFile → ℚ) (c₀ : ClockTree)
    (s : StatusBus) : Prop :=
  R.SoundAlong permitted coreFreq c₀ s.events

theorem setHseon_triple (hR : R.WellFormed) (hreg : t.reg = R.cr) (hset : t.setMask = 2 ^ 16)
    (hclear : t.clearMask = 2 ^ 16) :
    Waiting.Triple
      (Stage R permitted coreFreq c₀ (Known R false false 0 fun _ => True) false false)
      (setMask R.status cfg t)
      (fun _ => Stage R permitted coreFreq c₀ (Known R true false 0 fun _ => True) false false)
      (SoundSoFar R permitted coreFreq c₀) := by
  refine setMask_triple (by rw [hclear]; decide) (fun s h => h.didRead t.reg) fun s v h hv => ?_
  obtain ⟨hbit, hother⟩ := hv.single hclear
  rw [hset, Nat.testBit_two_pow_self] at hbit
  have hlt := hv.lt
  rw [hreg] at hlt hother ⊢
  have hcr := s.file.store_value_of_lt R.cr hlt
  have hcfgr := s.file.store_value_of_ne hR.cfgr_ne_cr v
  have hoff : v.testBit 24 = false := by
    rw [hother 24 (by decide) (by rw [ClockRegs.status_cr]; decide)]
    exact h.known.pllon
  have hknown : Known R true false 0 (fun _ => True) (s.file.store R.cr v) := by
    refine ⟨?_, ?_, ?_, trivial⟩
    · rw [hcr]
      exact hbit
    · rw [hcr]
      exact hoff
    · rw [hcfgr]
      exact h.known.sw
  refine h.didWrite hknown (fun hh => ?_) (fun hp => ?_) (fun hon => ?_) fun htwo => ?_
  · cases hh
  · cases hp
  · rw [hknown.pllon] at hon
    cases hon
  · rw [hknown.sw] at htwo
    cases htwo

variable {known : RegFile → Prop} {hse pll : Bool}

theorem Stage.hseShown {s : StatusBus} (h : Stage R permitted coreFreq c₀ known hse pll s)
    (hon : (s.file.value R.cr).testBit 16 = true)
    (hready : (s.shown R.status R.cr).testBit 17 = true) :
    Stage R permitted coreFreq c₀ known true pll (s.didRead R.status R.cr) := by
  refine { h.didRead R.cr with hseReady := fun _ => ?_ }
  have hshown : (s.shown R.status R.cr).testBit 16 = true := by
    rw [StatusBus.testBit_shown R.cr s (by rw [ClockRegs.status_cr]; decide)]
    exact hon
  rw [StatusBus.tree_didRead, ClockTree.observe_read, if_pos rfl]
  dsimp only
  rw [hshown, hready, Bool.and_self, Bool.or_true]

theorem Stage.pllShown {s : StatusBus} (h : Stage R permitted coreFreq c₀ known hse pll s)
    (hon : (s.file.value R.cr).testBit 24 = true)
    (hready : (s.shown R.status R.cr).testBit 25 = true) :
    Stage R permitted coreFreq c₀ known hse true (s.didRead R.status R.cr) := by
  refine { h.didRead R.cr with pllReady := fun _ => ?_ }
  have hshown : (s.shown R.status R.cr).testBit 24 = true := by
    rw [StatusBus.testBit_shown R.cr s (by rw [ClockRegs.status_cr]; decide)]
    exact hon
  rw [StatusBus.tree_didRead, ClockTree.observe_read, if_pos rfl]
  dsimp only
  rw [hshown, hready, Bool.and_self, Bool.or_true]

theorem pollHserdy_triple {more : RegFile → Prop} {pllOn : Bool} {sw : Nat} :
    Waiting.Triple (Stage R permitted coreFreq c₀ (Known R true pllOn sw more) hse pll)
      (poll R.status cfg (hserdy T R.baseAddr).toRegmask)
      (fun _ => Stage R permitted coreFreq c₀ (Known R true pllOn sw more) true pll)
      (SoundSoFar R permitted coreFreq c₀) := by
  refine Waiting.Triple.mono (poll_triple (hserdy T R.baseAddr).clearMask_ne_zero
    fun s h => h.didRead R.cr) (fun s h => h) (fun _ s h => ?_) fun s h => h.sound
  obtain ⟨s₀, hstage, hholds, rfl⟩ := h
  rw [Regbits.holds_of_single rfl] at hholds
  exact hstage.hseShown hstage.known.hseon hholds

theorem pollPllrdy_triple {more : RegFile → Prop} {hseOn : Bool} {sw : Nat} :
    Waiting.Triple (Stage R permitted coreFreq c₀ (Known R hseOn true sw more) hse pll)
      (poll R.status cfg (pllrdy T R).toRegmask)
      (fun _ => Stage R permitted coreFreq c₀ (Known R hseOn true sw more) hse true)
      (SoundSoFar R permitted coreFreq c₀) := by
  refine Waiting.Triple.mono (poll_triple (pllrdy T R).clearMask_ne_zero
    fun s h => h.didRead R.cr) (fun s h => h) (fun _ s h => ?_) fun s h => h.sound
  obtain ⟨s₀, hstage, hholds, rfl⟩ := h
  rw [Regbits.holds_of_single rfl] at hholds
  exact hstage.pllShown hstage.known.pllon hholds

/-- Stores beside CR that leave SW at 0, while the PLL is off. -/
theorem Stage.storeEach {regs : List Reg} (hcr : R.cr ∉ regs)
    (hsw : R.cfgr ∈ regs → value R.cfgr < 2 ^ R.cfgr.width ∧ fieldOf 0 2 (value R.cfgr) = 0)
    {s : StatusBus} (h : Stage R permitted coreFreq c₀
      (Known R true false 0 fun _ => True) true false s) :
    Stage R permitted coreFreq c₀ (Known R true false 0 fun _ => True) true false
      (s.storeEach regs value) := by
  induction regs generalizing s with
  | nil => exact h
  | cons r regs ih =>
      rw [List.mem_cons, not_or] at hcr
      have hother := s.file.store_value_of_ne hcr.1 (value r)
      have hknown : Known R true false 0 (fun _ => True) (s.file.store r (value r)) := by
        refine ⟨?_, ?_, ?_, trivial⟩
        · rw [hother]
          exact h.known.hseon
        · rw [hother]
          exact h.known.pllon
        · by_cases hcfgr : R.cfgr = r
          · obtain ⟨hlt, hzero⟩ := hsw (hcfgr ▸ List.mem_cons_self)
            rw [← hcfgr, s.file.store_value_of_lt R.cfgr hlt]
            exact hzero
          · rw [s.file.store_value_of_ne hcfgr]
            exact h.known.sw
      refine ih hcr.2 (fun hmem => hsw (List.mem_cons_of_mem r hmem))
        (h.didWrite hknown (fun _ => ⟨rfl, hknown.hseon⟩) (fun hp => ?_) (fun _ => rfl)
          fun htwo => ?_)
      · cases hp
      · rw [hknown.sw] at htwo
        cases htwo

theorem setPllon_triple (hR : R.WellFormed) (hreg : t.reg = R.cr) (hset : t.setMask = 2 ^ 24)
    (hclear : t.clearMask = 2 ^ 24) :
    Waiting.Triple
      (Stage R permitted coreFreq c₀
        (Known R true false 0 (Configured R permitted hclkFreq value)) true false)
      (setMask R.status cfg t)
      (fun _ => Stage R permitted coreFreq c₀
        (Known R true true 0 (Configured R permitted hclkFreq value)) true false)
      (SoundSoFar R permitted coreFreq c₀) := by
  refine setMask_triple (by rw [hclear]; decide) (fun s h => h.didRead t.reg) fun s v h hv => ?_
  obtain ⟨hbit, hother⟩ := hv.single hclear
  rw [hset, Nat.testBit_two_pow_self] at hbit
  have hlt := hv.lt
  rw [hreg] at hlt hother ⊢
  have hcr := s.file.store_value_of_lt R.cr hlt
  have hcfgr := s.file.store_value_of_ne hR.cfgr_ne_cr v
  have hacr := s.file.store_value_of_ne hR.acr_ne_cr v
  have hpllReg := s.file.store_value_of_ne hR.pllReg_ne_cr v
  have hon : v.testBit 16 = true := by
    rw [hother 16 (by decide) (by rw [ClockRegs.status_cr]; decide)]
    exact h.known.hseon
  have hmore : Configured R permitted hclkFreq value (s.file.store R.cr v) := by
    refine ⟨?_, ?_, ?_⟩
    · rw [FlashReady, hacr]
      exact h.known.more.flash
    · rw [hcfgr]
      exact h.known.more.cfgr
    · rw [hpllReg]
      exact h.known.more.pllReg
  have hknown : Known R true true 0 (Configured R permitted hclkFreq value)
      (s.file.store R.cr v) := by
    refine ⟨?_, ?_, ?_, hmore⟩
    · rw [hcr]
      exact hon
    · rw [hcr]
      exact hbit
    · rw [hcfgr]
      exact h.known.sw
  refine h.didWrite hknown (fun _ => ⟨rfl, hknown.hseon⟩) (fun hp => ?_) (fun _ => rfl)
    fun htwo => ?_
  · cases hp
  · rw [hknown.sw] at htwo
    cases htwo

theorem clockSw_fits (T : Target) (hcfgr : R.cfgr.width = 32) :
    FieldValue.Fits (clockSw T R hcfgr, 0x2) :=
  ⟨(clockSw T R hcfgr).maskWidth_eq (hcfgr.trans_le T.ulongWidth_ge), Nat.lt_of_sub_eq_succ rfl⟩

theorem setSwPll_triple (hR : R.WellFormed)
    (hfreq : ∀ f, Configured R permitted hclkFreq value f → coreFreq f ≤ hclkFreq) {v : Regval T}
    (hv : regval (clockSw T R hR.cfgr_width) 0x2 = .ok v) :
    Waiting.Triple
      (Stage R permitted coreFreq c₀
        (Known R true true 0 (Configured R permitted hclkFreq value)) true true)
      (setMask R.status cfg v.toRegmask)
      (fun _ => Stage R permitted coreFreq c₀
        (Known R true true 2 (Configured R permitted hclkFreq value)) true true)
      (SoundSoFar R permitted coreFreq c₀) := by
  obtain ⟨hfield, hconstant⟩ := Regval.eq_of_regval hv
  have hreg : v.toRegmask.reg = R.cfgr := congrArg Regbits.reg hfield
  have hfits := clockSw_fits T hR.cfgr_width
  have hwhole : v.field.maskWidth = v.field.width := by rw [hfield, hfits.whole]
  refine setMask_triple v.field.clearMask_ne_zero (fun s h => h.didRead _) fun s x h hx => ?_
  have hfieldOf := FieldValue.Is.fieldOf_of_testBit ⟨hfield, hconstant⟩ hfits hx.inside
  have hxlt := hx.lt
  have houtside := hx.outside
  rw [hreg] at hxlt houtside ⊢
  have hcfgr := s.file.store_value_of_lt R.cfgr hxlt
  have hcr := s.file.store_value_of_ne hR.cfgr_ne_cr.symm x
  have hacr := s.file.store_value_of_ne hR.acr_ne_cfgr x
  have hhigh : ∀ i, 4 ≤ i → x.testBit i = (s.file.value R.cfgr).testBit i := by
    intro i hi
    refine houtside i ?_ ?_
    · rw [Bool.eq_false_iff, ne_eq, Regval.testBit_clearMask hwhole, hfield]
      change ¬ (0 ≤ i ∧ i < 0 + 2)
      omega
    · rw [ClockRegs.status_cfgr hR.cfgr_ne_cr]
      exact Nat.testBit_lt_two_pow (lt_of_lt_of_le (by decide : 0xc < 2 ^ 4)
        (Nat.pow_le_pow_right Nat.two_pos hi))
  have hmore : Configured R permitted hclkFreq value (s.file.store R.cfgr x) := by
    refine ⟨?_, fun i hi => ?_, fun hne => ?_⟩
    · rw [FlashReady, hacr]
      exact h.known.more.flash
    · rw [hcfgr, hhigh i hi]
      exact h.known.more.cfgr i hi
    · rw [s.file.store_value_of_ne hne]
      exact h.known.more.pllReg hne
  have hknown : Known R true true 2 (Configured R permitted hclkFreq value)
      (s.file.store R.cfgr x) := by
    refine ⟨?_, ?_, ?_, hmore⟩
    · rw [hcr]
      exact h.known.hseon
    · rw [hcr]
      exact h.known.pllon
    · rw [hcfgr]
      exact hfieldOf
  have hfactors : (s.file.store R.cfgr x).value R.pllReg &&& R.pllMask =
      s.file.value R.pllReg &&& R.pllMask := by
    by_cases hsame : R.pllReg = R.cfgr
    · rw [hsame, hcfgr]
      apply Nat.eq_of_testBit_eq
      intro i
      rw [Nat.testBit_and, Nat.testBit_and (s.file.value R.cfgr)]
      rcases Nat.lt_or_ge i 4 with hlow | hi
      · rw [hR.pllMask_high hsame i hlow, Bool.and_false, Bool.and_false]
      · rw [hhigh i hi]
    · rw [s.file.store_value_of_ne hsame]
  exact h.didWrite hknown (fun _ => ⟨rfl, hknown.hseon⟩)
    (fun _ => ⟨rfl, hknown.pllon, hfactors⟩) (fun _ => rfl)
    fun _ => ⟨rfl, (hfreq _ hmore).trans hmore.flash⟩

/-- The last access has shown that the PLL drives the system clock. -/
def Switched (R : ClockRegs) (s : StatusBus) : Prop :=
  ∃ before v, s.events = before ++ [.read R.cfgr v] ∧ fieldOf 2 2 v = 2

theorem pollSwsPll_triple (hcfgr : R.cfgr.width = 32) {v : Regval T}
    (hv : regval (clockSws T R hcfgr) 0x2 = .ok v) :
    Waiting.Triple (Stage R permitted coreFreq c₀ known hse pll)
      (poll R.status cfg v.toRegmask)
      (fun _ s => Stage R permitted coreFreq c₀ known hse pll s ∧ Switched R s)
      (SoundSoFar R permitted coreFreq c₀) := by
  obtain ⟨hfield, hconstant⟩ := Regval.eq_of_regval hv
  have hlt : v.constant < 2 ^ v.field.width := by
    rw [hfield, hconstant]
    change 2 < 2 ^ 2
    decide
  have hmask : (clockSws T R hcfgr).maskWidth = 2 :=
    (clockSws T R hcfgr).maskWidth_eq (hcfgr.trans_le T.ulongWidth_ge)
  refine Waiting.Triple.mono (poll_triple v.field.clearMask_ne_zero fun s h => h.didRead _)
    (fun s h => h) (fun _ s h => ?_) fun s h => h.sound
  obtain ⟨s₀, hstage, hholds, rfl⟩ := h
  have hreg : v.toRegmask.reg = R.cfgr := congrArg Regbits.reg hfield
  rw [v.holds_iff hlt, hfield, hconstant, hmask, if_neg (by decide)] at hholds
  refine ⟨hstage.didRead _, s₀.events, s₀.shown R.status R.cfgr, ?_, ?_⟩
  · rw [← hreg]
    rfl
  · rw [← hreg]
    exact ((clockSws T R hcfgr).masked_eq (hcfgr.trans_le T.ulongWidth_ge) _).symm.trans hholds

/-- What the setup stores beside CR: the early configuration and the one of the clock. -/
structure SetupStores (R : ClockRegs) (permitted : Nat → Nat) (hclkFreq : ℚ)
    (earlyRegs : List Reg) (early : Reg → Nat) (regs : List Reg) (value : Reg → Nat) : Prop where
  early_cr : R.cr ∉ earlyRegs
  early_cfgr : R.cfgr ∉ earlyRegs
  cr : R.cr ∉ regs
  acr : R.acr ∉ regs
  cfgr : R.cfgr ∈ regs
  pllReg : R.pllReg ∈ regs
  value_lt : ∀ r ∈ regs, value r < 2 ^ r.width
  sw : fieldOf 0 2 (value R.cfgr) = 0
  flash_mem : R.acr ∈ earlyRegs
  flash_lt : early R.acr < 2 ^ R.acr.width
  flash : hclkFreq ≤ permitted (fieldOf 0 3 (early R.acr))

namespace SetupStores

variable {earlyRegs regs : List Reg} {early : Reg → Nat}
  (h : SetupStores R permitted hclkFreq earlyRegs early regs value)
include h

/-- The early configuration gets the flash memory ready. -/
theorem early_triple :
    Waiting.Triple
      (Stage R permitted coreFreq c₀ (Known R true false 0 fun _ => True) true false)
      (Waiting.modify (StatusBus.storeEach earlyRegs early))
      (fun _ => Stage R permitted coreFreq c₀
        (Known R true false 0 (FlashReady R permitted hclkFreq)) true false)
      (SoundSoFar R permitted coreFreq c₀) := by
  refine Waiting.Triple.modify fun s hs => ?_
  have hstage : Stage R permitted coreFreq c₀ (Known R true false 0 fun _ => True) true false
      (s.storeEach earlyRegs early) :=
    hs.storeEach h.early_cr fun hmem => absurd hmem h.early_cfgr
  refine { hstage with known := { hstage.known with more := ?_ } }
  rw [FlashReady, StatusBus.value_storeEach_of_mem h.flash_mem h.flash_lt]
  exact h.flash

theorem configure_triple :
    Waiting.Triple
      (Stage R permitted coreFreq c₀
        (Known R true false 0 (FlashReady R permitted hclkFreq)) true false)
      (Waiting.modify (StatusBus.storeEach regs value))
      (fun _ => Stage R permitted coreFreq c₀
        (Known R true false 0 (Configured R permitted hclkFreq value)) true false)
      (SoundSoFar R permitted coreFreq c₀) := by
  refine Waiting.Triple.modify fun s hs => ?_
  have hstage : Stage R permitted coreFreq c₀ (Known R true false 0 fun _ => True) true false
      (s.storeEach regs value) :=
    Stage.storeEach h.cr (fun _ => ⟨h.value_lt _ h.cfgr, h.sw⟩)
      { hs with known := { hs.known with more := trivial } }
  refine { hstage with known := { hstage.known with more := ?_ } }
  refine ⟨?_, fun i _ => ?_, fun _ => ?_⟩
  · rw [FlashReady, StatusBus.value_storeEach_of_not_mem h.acr]
    exact hs.known.more
  · rw [StatusBus.value_storeEach_of_mem h.cfgr (h.value_lt _ h.cfgr)]
  · exact StatusBus.value_storeEach_of_mem h.pllReg (h.value_lt _ h.pllReg) s

end SetupStores

/-- The setup from the state after a reset: sound throughout, and done where it returns. -/
theorem clockSetup_triple (hR : R.WellFormed) {earlyRegs regs : List Reg} {early : Reg → Nat}
    (hstores : SetupStores R permitted hclkFreq earlyRegs early regs value)
    (hfreq : ∀ f, Configured R permitted hclkFreq value f → coreFreq f ≤ hclkFreq)
    {sys : SystemClockType StatusBus}
    (hsys : systemClockType T R cfg hR.cfgr_width (.ok (StatusBus.storeEach regs value)) =
      .ok sys) :
    Waiting.Triple
      (Stage R permitted coreFreq c₀ (Known R false false 0 fun _ => True) false false)
      (Core.clockSetup sys (StatusBus.storeEach earlyRegs early))
      (fun _ s => Stage R permitted coreFreq c₀
        (Known R true true 2 (Configured R permitted hclkFreq value)) true true s ∧ Switched R s)
      (SoundSoFar R permitted coreFreq c₀) := by
  simp only [systemClockType, bind_eq_ok_iff, pure_eq_ok_iff, Except.ok.injEq] at hsys
  obtain ⟨enable, henable, _, rfl, swPll, hsw, swsPll, hsws, rfl⟩ := hsys
  obtain ⟨hfield, hconstant⟩ := Regval.eq_of_regval henable
  have hwhole : R.cr.width ≤ T.ulongWidth := T.ulongWidth_ge
  have hclear : enable.toRegmask.clearMask = 2 ^ 16 := by
    rw [Regval.toRegmask_clearMask, hfield]
    exact (hseon T R).clearMask_eq_two_pow rfl
  have hset : enable.toRegmask.setMask = 2 ^ 16 := by
    rw [Regval.toRegmask_setMask, hfield, hconstant,
      (hseon T R).valueFrom_eq (by change 1 < 2 ^ 1; decide)]
    rfl
  have hpllon : (pllon T R).toRegmask.clearMask = 2 ^ 24 := (pllon T R).clearMask_eq_two_pow rfl
  refine Waiting.Triple.bind (Waiting.Triple.bind
    (setHseon_triple hR (congrArg Regbits.reg hfield) hset hclear) fun _ => pollHserdy_triple)
    fun _ => ?_
  refine Waiting.Triple.bind hstores.early_triple fun _ => ?_
  refine Waiting.Triple.bind hstores.configure_triple fun _ => ?_
  refine Waiting.Triple.bind (setPllon_triple hR rfl hpllon hpllon) fun _ => ?_
  refine Waiting.Triple.bind pollPllrdy_triple fun _ => ?_
  exact Waiting.Triple.bind (setSwPll_triple hR hfreq hsw) fun _ => pollSwsPll_triple _ hsws

/-- HSERDY, then PLLRDY, then the PLL as the system clock; HSEON, PLLON and SW are changed
with a load each. -/
def readyFlags : List (Nat → Prop) :=
  [fun _ => True, fun v => v.testBit 17 = true, fun _ => True, fun v => v.testBit 25 = true,
    fun _ => True, fun v => fieldOf 2 2 v = 2]

theorem fieldOf_shown_cfgr (hR : R.WellFormed) (s : StatusBus) :
    fieldOf 2 2 (s.shown R.status R.cfgr) = fieldOf 2 2 (s.readings.headD 0) := by
  apply fieldOf_congr
  ext i
  rw [Set.mem_inter_iff, Set.mem_inter_iff]
  refine and_congr_left fun hi => ?_
  obtain ⟨hlow, hhigh⟩ := (mem_fieldBits _ _ _).mp hi
  have hstatus : (R.status R.cfgr).testBit i = true := by
    rw [ClockRegs.status_cfgr hR.cfgr_ne_cr]
    obtain rfl | rfl : i = 2 ∨ i = 3 := by omega
    · rfl
    · rfl
  rw [mem_bits, mem_bits, StatusBus.testBit_shown_of_status R.cfgr s hstatus]

/-- The setup ends with the flags that it waits for. -/
theorem clockSetup_prompt (hR : R.WellFormed) {earlyRegs regs : List Reg} {early : Reg → Nat}
    {sys : SystemClockType StatusBus}
    (hsys : systemClockType T R cfg hR.cfgr_width (.ok (StatusBus.storeEach regs value)) =
      .ok sys) :
    Waiting.Triple (Prompt readyFlags)
      (Core.clockSetup sys (StatusBus.storeEach earlyRegs early)) (fun _ => Prompt [])
      fun _ => False := by
  simp only [systemClockType, bind_eq_ok_iff, pure_eq_ok_iff, Except.ok.injEq] at hsys
  obtain ⟨enable, -, _, rfl, swPll, -, swsPll, hsws, rfl⟩ := hsys
  have hcrBit : ∀ (i : Fin 32), (R.status R.cr).testBit i = true →
      ∀ s : StatusBus, (s.readings.headD 0).testBit i = true →
        (crBit T R i).toRegmask.holds (s.shown R.status R.cr) = true := by
    intro i hi s hshown
    rw [Regbits.holds_of_single rfl]
    exact (StatusBus.testBit_shown_of_status R.cr s hi).trans hshown
  have hstatus : ∀ i ∈ [17, 25], (R.status R.cr).testBit i = true := by
    rw [ClockRegs.status_cr]
    decide
  obtain ⟨hfield, hconstant⟩ := Regval.eq_of_regval hsws
  have hreg : swsPll.toRegmask.reg = R.cfgr := congrArg Regbits.reg hfield
  have hlt : swsPll.constant < 2 ^ swsPll.field.width := by
    rw [hfield, hconstant]
    change 2 < 2 ^ 2
    decide
  have hmask : (clockSws T R hR.cfgr_width).maskWidth = 2 :=
    (clockSws T R hR.cfgr_width).maskWidth_eq (hR.cfgr_width.trans_le T.ulongWidth_ge)
  have hsystemClock : ∀ s : StatusBus, fieldOf 2 2 (s.readings.headD 0) = 2 →
      swsPll.toRegmask.holds (s.shown R.status swsPll.toRegmask.reg) = true := by
    intro s hshown
    rw [swsPll.holds_iff hlt, hfield, hconstant, hmask, if_neg (by decide), hreg,
      Regbits.masked_eq _ (hR.cfgr_width.trans_le T.ulongWidth_ge)]
    exact (fieldOf_shown_cfgr hR s).trans hshown
  have hstores : ∀ {flags} (rs : List Reg) (value : Reg → Nat),
      Waiting.Triple (Prompt flags) (Waiting.modify (StatusBus.storeEach rs value))
        (fun _ => Prompt flags) fun _ => False :=
    fun rs value => Waiting.Triple.modify fun _ h => h.storeEach rs value
  refine Waiting.Triple.bind (Waiting.Triple.bind
    (Prompt.setMask_triple enable.field.clearMask_ne_zero) fun _ =>
    Prompt.poll_triple (hserdy T R.baseAddr).clearMask_ne_zero fun s h =>
      hcrBit 17 (hstatus 17 (by decide)) s h) fun _ => ?_
  refine Waiting.Triple.bind (hstores earlyRegs early) fun _ => ?_
  refine Waiting.Triple.bind (hstores regs value) fun _ => ?_
  refine Waiting.Triple.bind (Prompt.setMask_triple (pllon T R).clearMask_ne_zero) fun _ => ?_
  refine Waiting.Triple.bind (Prompt.poll_triple (pllrdy T R).clearMask_ne_zero fun s h =>
    hcrBit 25 (hstatus 25 (by decide)) s h) fun _ => ?_
  exact Waiting.Triple.bind (Prompt.setMask_triple swPll.field.clearMask_ne_zero) fun _ =>
    Prompt.poll_triple swsPll.field.clearMask_ne_zero hsystemClock

end Setup

end OpenMptl
