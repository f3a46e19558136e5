/-
The clock setup after a reset.  The wait states of the flash memory are left to the early
configuration, which is an arbitrary list of masks that must not interfere.
-/
import OpenMptl.ClockSetup

namespace OpenMptl

open Patch

/-- `reglist<early_cfg_list...>::reset_to()` -/
def Core.earlyCfg {σ : Type} (A : RegAccess σ) (trees : List (ListTree Element)) :
    Except CompileError (σ → σ) := do
  let l ← reglistOf trees
  l.resetTo A

/-! After a reset. -/

def ClockTree.atReset : ClockTree := ⟨.atReset, false, false⟩

/-- The early configuration names `minimum`, and has no mask on RCC::CR and RCC::CFGR: it is
applied when HSEON has been set, and resets whole registers. -/
structure EarlyCfg {T : Target} (R : ClockRegs) (minimum : Except CompileError (Regval T))
    (trees : List (ListTree Element)) (early : StatusBus → StatusBus) : Prop where
  compiles : Core.earlyCfg (statusAccess R.status) trees = .ok early
  latency : ∃ t, minimum = .ok t ∧ t.toRegmaskType ∈ regmaskLeaves trees
  other : ∀ t ∈ regmaskLeaves trees, t.reg ∉ [R.cr, R.cfgr]

/-- The division factors of `HPRE` and of `PPREx`. -/
def ahbDivider (hpre : Nat) : Nat :=
  if hpre < 8 then 1 else if hpre < 12 then 2 ^ (hpre - 7) else 2 ^ (hpre - 6)

def apbDivider (ppre : Nat) : Nat := if ppre < 4 then 1 else 2 ^ (ppre - 3)

section Setup

variable {T : Target} {R : ClockRegs} {cfg : BitbandConfig} {permitted : Nat → Nat}
  {coreFreq : RegFile → ℚ} {hclkFreq : ℚ}

/-- A constant that a field has accepted, where nothing is shifted out. -/
theorem Regval.value_lt_of_regval {f : Regbits T} {v : Nat} {t : Regval T}
    (h : regval f v = .ok t) (hwhole : f.maskWidth = f.width) (hoffset : f.offset = 0) :
    v < 2 ^ f.width := by
  obtain ⟨hfield, hconstant⟩ := Regval.eq_of_regval h
  have hcovers : bits (f.valueFrom v) ⊆ fieldBits f.offset f.width := by
    have hsub := (bits_subset_iff _ _).mpr t.covers
    rwa [hfield, hconstant, f.bits_clearMask, hwhole] at hsub
  have hnarrowed : v < 2 ^ f.reg.width := hfield ▸ hconstant ▸ t.narrowed
  apply Nat.lt_pow_two_of_testBit
  intro i hi
  by_contra hbit
  have hmem : i ∈ bits (f.valueFrom v) := by
    rw [f.bits_valueFrom, hoffset, Nat.shiftLeft_zero]
    exact ⟨Bool.eq_true_of_not_eq_false hbit,
      lt_of_mem_bits hnarrowed (Bool.eq_true_of_not_eq_false hbit)⟩
  have hin := hcovers hmem
  rw [hoffset, mem_fieldBits] at hin
  omega

/-- What the early configuration stores. -/
theorem EarlyCfg.stores {minimum : Except CompileError (Regval T)}
    {trees : List (ListTree Element)} {early : StatusBus → StatusBus}
    (h : EarlyCfg R minimum trees early) {f : Regbits T} {ws : Nat}
    (hminimum : minimum = regval f ws) (hfits : FieldValue.Fits (f, ws)) :
    ∃ regs value, early = StatusBus.storeEach regs value ∧ R.cr ∉ regs ∧ R.cfgr ∉ regs ∧
      f.reg ∈ regs ∧ value f.reg < 2 ^ f.reg.width ∧
      fieldOf f.offset f.width (value f.reg) = ws := by
  have hcompiles := h.compiles
  simp only [Core.earlyCfg, bind_eq_ok_iff] at hcompiles
  obtain ⟨l, hl, hreset⟩ := hcompiles
  have hleaves := regmaskLeaves_of_reglistOf hl
  obtain ⟨t, ht, hmem⟩ := h.latency
  obtain ⟨hfield, hconstant⟩ := Regval.eq_of_regval (hminimum.symm.trans ht)
  have hother := h.other
  rw [hleaves] at hother hmem
  have hreg : t.toRegmaskType.reg = f.reg := congrArg Regbits.reg hfield
  have hout : ∀ r ∈ [R.cr, R.cfgr], r ∉ l.regs := by
    intro r hr hregs
    obtain ⟨u, hu, rfl⟩ := Reglist.mem_regs.mp hregs
    exact hother u hu hr
  refine ⟨l.regs, _, Reglist.resetTo_eq_storeResets hreset, hout _ List.mem_cons_self,
    hout _ (List.mem_cons_of_mem _ List.mem_cons_self),
    Reglist.mem_regs.mpr ⟨_, hmem, hreg⟩, resetUnion_lt fun u hu => (mem_onReg.mp hu).2, ?_⟩
  exact FieldValue.Is.fieldOf_resetUnion (x := (f, ws)) ⟨hfield, hconstant⟩ hfits
    (l.allCompatible_onReg f.reg) (mem_onReg.mpr ⟨hmem, hreg⟩)

/-- The three constants of the setup are accepted. -/
theorem exists_systemClockType (T : Target) (cfg : BitbandConfig) (hcfgr : R.cfgr.width = 32)
    (prog : StatusBus → StatusBus) :
    ∃ sys, systemClockType T R cfg hcfgr (.ok prog) = .ok sys := by
  have hhse : (hseon T R).maskWidth = (hseon T R).width :=
    (hseon T R).maskWidth_eq T.ulongWidth_ge
  have hsw := clockSw_fits T hcfgr
  have hsws : (clockSws T R hcfgr).maskWidth = (clockSws T R hcfgr).width :=
    (clockSws T R hcfgr).maskWidth_eq (hcfgr.trans_le T.ulongWidth_ge)
  obtain ⟨enable, henable, -⟩ := Regval.regval_eq_ok hhse (v := 1) Nat.one_lt_two
  obtain ⟨swPll, hswPll, -⟩ := Regval.regval_eq_ok hsw.whole hsw.value_lt
  obtain ⟨swsPll, hswsPll, -⟩ := Regval.regval_eq_ok hsws hsw.value_lt
  simp only [systemClockType, bind_eq_ok_iff, pure_eq_ok_iff]
  exact ⟨_, enable, henable, prog, rfl, swPll, hswPll, swsPll, hswsPll, rfl⟩

theorem clockSetup_atReset (hR : R.WellFormed) (hcfgr : R.cfgr.resetValue = 0)
    {earlyRegs regs : List Reg} {early value : Reg → Nat}
    (hstores : SetupStores R permitted hclkFreq earlyRegs early regs value)
    (hfreq : ∀ f, Configured R permitted hclkFreq value f → coreFreq f ≤ hclkFreq)
    {sys : SystemClockType StatusBus}
    (hsys : systemClockType T R cfg hR.cfgr_width (.ok (StatusBus.storeEach regs value)) =
      .ok sys) {readings : List Nat} {result : Option PUnit} {s : StatusBus}
    (hrun : Core.clockSetup sys (StatusBus.storeEach earlyRegs early) (.atReset readings) =
      (result, s)) :
    R.SoundAlong permitted coreFreq .atReset s.events ∧
      (result ≠ none →
        Configured R permitted hclkFreq value s.file ∧ Switched R s) ∧
      (ShownInTurn readyFlags readings → result ≠ none) := by
  have hsw : fieldOf 0 2 (RegFile.atReset.value R.cfgr) = 0 := by
    change fieldOf 0 2 R.cfgr.resetValue = 0
    rw [hcfgr]
    rfl
  have hsound : ClockTree.atReset.Sound R permitted coreFreq := by
    refine ⟨fun hon => ?_, fun htwo => ?_, fun htwo => ?_⟩
    · exact absurd hon (by change ¬ (0x83).testBit 24 = true; decide)
    · exact absurd (hsw.symm.trans htwo) (by decide)
    · exact absurd (hsw.symm.trans htwo) (by decide)
  have hstart : Stage R permitted coreFreq .atReset (Known R false false 0 fun _ => True)
      false false (.atReset readings) := by
    refine Stage.start rfl rfl hsound ⟨?_, ?_, hsw, trivial⟩
    · change (0x83).testBit 16 = false
      decide
    · change (0x83).testBit 24 = false
      decide
  have htriple := clockSetup_triple hR hstores hfreq hsys _ hstart
  have hprompt := @clockSetup_prompt T R cfg _ hR earlyRegs regs early sys hsys
    (.atReset readings)
  rw [hrun] at htriple hprompt
  cases result with
  | none =>
      exact ⟨htriple, fun h => absurd rfl h,
        fun hshown => (hprompt hshown).elim⟩
  | some _ =>
      exact ⟨htriple.1.sound, fun _ => ⟨htriple.1.known.more, htriple.2⟩,
        fun _ => Option.some_ne_none _⟩

theorem Configured.fieldOf_cfgr {value : Reg → Nat} {f : RegFile}
    (h : Configured R permitted hclkFreq value f) {offset width : Nat} (hoffset : 4 ≤ offset) :
    fieldOf offset width (f.value R.cfgr) = fieldOf offset width (value R.cfgr) := by
  apply fieldOf_congr
  ext i
  rw [Set.mem_inter_iff, Set.mem_inter_iff]
  refine and_congr_left fun hi => ?_
  rw [mem_bits, mem_bits, h.cfgr i (hoffset.trans ((mem_fieldBits _ _ _).mp hi).1)]

end Setup

end OpenMptl
